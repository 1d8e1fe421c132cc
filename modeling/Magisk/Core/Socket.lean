import Magisk.Base.Str
import Magisk.Lib.Utf8
import Magisk.Lib.Wire

/-!
# Messages on the daemon's socket

The codecs of `socket.rs`: plain numbers, `bool`, `String`, `Vec`, and structs with a derived
codec, which is that of their fields one after another.  The C++ side reads and writes
strings of its own.

* `Ty`, `Ty.Val`: the types with a codec, and their values;
* `Ty.encode`, `Ty.decode`: what `Encodable` and `Decodable` do at a type;
* `SuRequest`: a struct with a derived codec;
* `writeString`, `readString`: the C++ functions;
* `consumes_decode`: a decoder reads what was encoded, and nothing else;
* `ipc_round_trip`: in every type, and between the languages.
-/

namespace Magisk.Core.Socket

open Magisk.Base Magisk.Lib

/-! ### Values -/

/-- A Rust string. -/
abbrev Text := { s : Str // validUtf8 s = true }

/-- The types with a codec.  A struct is given by the types of its fields. -/
inductive Ty where
  | u8
  | u32
  | i32
  | usize
  | bool
  | string
  | vec (elem : Ty)
  | struct (fields : List Ty)

mutual

/-- The values of a type, where a pointer has `ptr` bytes. -/
def Ty.Val (ptr : Nat) : Ty → Type
  | .u8 => UInt8
  | .u32 => UInt32
  | .i32 => Int32
  | .usize => BitVec (8 * ptr)
  | .bool => Bool
  | .string => Text
  | .vec elem => List (elem.Val ptr)
  | .struct fields => Ty.Vals ptr fields

/-- The values of the fields. -/
def Ty.Vals (ptr : Nat) : List Ty → Type
  | [] => Unit
  | t :: ts => t.Val ptr × Ty.Vals ptr ts

end

mutual

/-- All strings and vectors are shorter than 2³¹. -/
def Ty.Short (ptr : Nat) : (t : Ty) → t.Val ptr → Prop
  | .u8, _ => True
  | .u32, _ => True
  | .i32, _ => True
  | .usize, _ => True
  | .bool, _ => True
  | .string, s => s.val.length < 2 ^ 31
  | .vec elem, (xs : List (elem.Val ptr)) => xs.length < 2 ^ 31 ∧ ∀ x ∈ xs, elem.Short ptr x
  | .struct fields, xs => Ty.ShortFields ptr fields xs

/-- So they are in all fields. -/
def Ty.ShortFields (ptr : Nat) : (ts : List Ty) → Ty.Vals ptr ts → Prop
  | [], _ => True
  | t :: ts, (x, xs) => t.Short ptr x ∧ Ty.ShortFields ptr ts xs

end

/-! ### Encoding -/

/-- `write_pod`: the bytes of a number as they are in memory. -/
def writePod (n : Nat) (v : BitVec (8 * n)) : List UInt8 := leBytes n v.toNat

/-- `u8::encode`. -/
def encodeU8 (v : UInt8) : List UInt8 := writePod 1 v.toBitVec

/-- `u32::encode`. -/
def encodeU32 (v : UInt32) : List UInt8 := writePod 4 v.toBitVec

/-- `i32::encode`. -/
def encodeI32 (v : Int32) : List UInt8 := writePod 4 v.toBitVec

/-- `bool::encode`. -/
def encodeBool : Bool → List UInt8
  | true => encodeU8 1
  | false => encodeU8 0

/-- `str::encode`. -/
def encodeStr (s : Str) : List UInt8 := encodeI32 (.ofNat s.length) ++ s

/-- `<[T]>::encode`. -/
def encodeSlice {α : Type} (encode : α → List UInt8) (xs : List α) : List UInt8 :=
  encodeI32 (.ofNat xs.length) ++ xs.flatMap encode

mutual

/-- `Encodable::encode` at each type. -/
def Ty.encode (ptr : Nat) : (t : Ty) → t.Val ptr → List UInt8
  | .u8, v => encodeU8 v
  | .u32, v => encodeU32 v
  | .i32, v => encodeI32 v
  | .usize, v => writePod ptr v
  | .bool, b => encodeBool b
  | .string, s => encodeStr s.val
  | .vec elem, xs => encodeSlice (elem.encode ptr) xs
  | .struct fields, xs => Ty.encodeFields ptr fields xs

/-- `gen_encode`: the fields in order. -/
def Ty.encodeFields (ptr : Nat) : (ts : List Ty) → Ty.Vals ptr ts → List UInt8
  | [], _ => []
  | t :: ts, (x, xs) => t.encode ptr x ++ Ty.encodeFields ptr ts xs

end

/-! ### Decoding -/

/-- Why decoding ends without a value: the input ends, a string is not UTF-8, or a length is
negative, for which `with_capacity` panics. -/
inductive DecodeError where
  | unexpectedEof
  | invalidData
  | capacityOverflow

/-- A decoder of the daemon. -/
abbrev Decode := Decoder UInt8 DecodeError

/-- `read_pod`. -/
def readPod (n : Nat) : Decode (BitVec (8 * n)) := do
  let bytes ← readExact .unexpectedEof n
  pure (.ofNat _ (leNat bytes))

/-- `u8::decode`. -/
def decodeU8 : Decode UInt8 := do
  let v ← readPod 1
  pure (.ofBitVec v)

/-- `u32::decode`. -/
def decodeU32 : Decode UInt32 := do
  let v ← readPod 4
  pure (.ofBitVec v)

/-- `i32::decode`. -/
def decodeI32 : Decode Int32 := do
  let v ← readPod 4
  pure (.ofBitVec v)

/-- `bool::decode`. -/
def decodeBool : Decode Bool := do
  let v ← decodeU8
  pure (v ≠ 0)

/-- `with_capacity(len as usize)`. -/
def withCapacity (len : Int32) : Decode Unit :=
  if len.toInt < 0 then throw .capacityOverflow else pure ()

/-- `String::decode`. -/
def decodeString : Decode Text := do
  let len ← decodeI32
  withCapacity len
  let bytes ← readUpTo len.toInt.toNat
  if h : validUtf8 bytes = true then pure ⟨bytes, h⟩ else throw .invalidData

/-- `Vec<T>::decode`. -/
def decodeVec {α : Type} (decode : Decode α) : Decode (List α) := do
  let len ← decodeI32
  withCapacity len
  decodeN decode len.toInt.toNat

mutual

/-- `Decodable::decode` at each type. -/
def Ty.decode (ptr : Nat) : (t : Ty) → Decode (t.Val ptr)
  | .u8 => decodeU8
  | .u32 => decodeU32
  | .i32 => decodeI32
  | .usize => readPod ptr
  | .bool => decodeBool
  | .string => decodeString
  | .vec elem => decodeVec (elem.decode ptr)
  | .struct fields => Ty.decodeFields ptr fields

/-- `gen_decode`: the fields in order. -/
def Ty.decodeFields (ptr : Nat) : (ts : List Ty) → Decode (Ty.Vals ptr ts)
  | [] => pure ()
  | t :: ts => do
      let x ← t.decode ptr
      let xs ← Ty.decodeFields ptr ts
      pure (x, xs)

end

/-! ### Requests for a root shell -/

/-- The struct that `magisk su` sends to the daemon. -/
structure SuRequest where
  targetUid : Int32
  targetPid : Int32
  login : Bool
  keepEnv : Bool
  dropCap : Bool
  shell : Text
  command : Text
  context : Text
  gids : List UInt32

/-- Its fields. -/
def SuRequest.ty : Ty :=
  .struct [.i32, .i32, .bool, .bool, .bool, .string, .string, .string, .vec .u32]

/-- The values of its fields. -/
def SuRequest.fields (ptr : Nat) (q : SuRequest) : SuRequest.ty.Val ptr :=
  (q.targetUid, q.targetPid, q.login, q.keepEnv, q.dropCap, q.shell, q.command, q.context,
    q.gids, ())

/-- The struct with these fields. -/
def SuRequest.ofFields (ptr : Nat) : SuRequest.ty.Val ptr → SuRequest
  | (targetUid, targetPid, login, keepEnv, dropCap, shell, command, context, gids, ()) =>
    ⟨targetUid, targetPid, login, keepEnv, dropCap, shell, command, context, gids⟩

/-- Its strings and its vector are shorter than 2³¹. -/
structure SuRequest.Short (q : SuRequest) : Prop where
  shell : q.shell.val.length < 2 ^ 31
  command : q.command.val.length < 2 ^ 31
  context : q.context.val.length < 2 ^ 31
  gids : q.gids.length < 2 ^ 31

/-- The derived `encode`. -/
def SuRequest.encode (ptr : Nat) (q : SuRequest) : List UInt8 :=
  SuRequest.ty.encode ptr (q.fields ptr)

/-- The derived `decode`. -/
def SuRequest.decode (ptr : Nat) : Decode SuRequest := do
  let fields ← SuRequest.ty.decode ptr
  pure (.ofFields ptr fields)

/-! ### Strings of the C++ side -/

/-- `read_string` aborts: the length is negative, and `resize` throws. -/
inductive Abort where
  | lengthError

/-- `write_int`. -/
def writeInt (fd : Int) (v : Int32) : List UInt8 :=
  if fd < 0 then [] else leBytes 4 v.toBitVec.toNat

/-- `write_string`. -/
def writeString (fd : Int) (s : Str) : List UInt8 :=
  if fd < 0 then [] else writeInt fd (.ofNat s.length) ++ s

/-- `read_int`: -1 if the input ends. -/
def readInt : Decoder UInt8 Abort Int32 := do
  let bytes ← readUpTo 4
  if bytes.length < 4 then pure (-1) else pure (.ofBitVec (.ofNat _ (leNat bytes)))

/-- `read_string`: the string, with NULs for what is missing, and whether it is complete. -/
def readString : Decoder UInt8 Abort (Str × Bool) := do
  let len ← readInt
  if len.toInt < 0 then throw .lengthError
  let bytes ← readUpTo len.toInt.toNat
  pure (bytes ++ List.replicate (len.toInt.toNat - bytes.length) 0, bytes.length = len.toInt.toNat)

/-! ### What is written can be read -/

section Consumes

lemma consumes_readPod (n : Nat) (v : BitVec (8 * n)) : Consumes (readPod n) (writePod n v) v := by
  have hlt : v.toNat < 256 ^ n := by
    have h := v.isLt
    rwa [pow_mul] at h
  have hbytes := consumes_readExact DecodeError.unexpectedEof (writePod n v)
  rw [writePod, length_leBytes] at hbytes
  refine hbytes.andThen ?_
  rw [leNat_leBytes hlt, BitVec.ofNat_toNat, BitVec.setWidth_eq]
  exact .pure v

lemma consumes_decodeU8 (v : UInt8) : Consumes decodeU8 (encodeU8 v) v :=
  (consumes_readPod 1 v.toBitVec).andThen (.pure v)

lemma consumes_decodeU32 (v : UInt32) : Consumes decodeU32 (encodeU32 v) v :=
  (consumes_readPod 4 v.toBitVec).andThen (.pure v)

lemma consumes_decodeI32 (v : Int32) : Consumes decodeI32 (encodeI32 v) v :=
  (consumes_readPod 4 v.toBitVec).andThen (.pure v)

lemma consumes_decodeBool (b : Bool) : Consumes decodeBool (encodeBool b) b := by
  cases b with
  | true => exact (consumes_decodeU8 1).andThen (.pure true)
  | false => exact (consumes_decodeU8 0).andThen (.pure false)

lemma consumes_withCapacity {len : Nat} (h : len < 2 ^ 31) :
    Consumes (withCapacity (.ofNat len)) [] () := by
  rw [withCapacity, Int32.toInt_ofNat_of_lt h]
  exact .pure ()

lemma consumes_decodeString (s : Text) (h : s.val.length < 2 ^ 31) :
    Consumes decodeString (encodeStr s.val) s := by
  refine (consumes_decodeI32 _).bind ?_
  refine (consumes_withCapacity h).bind (l := []) ?_
  rw [Int32.toInt_ofNat_of_lt h]
  refine (consumes_readUpTo s.val).andThen ?_
  rw [dif_pos s.property]
  exact .pure s

lemma consumes_decodeVec {decode : Decode α} {encode : α → List UInt8} (xs : List α)
    (hlen : xs.length < 2 ^ 31) (h : ∀ x ∈ xs, Consumes decode (encode x) x) :
    Consumes (decodeVec decode) (encodeSlice encode xs) xs := by
  refine (consumes_decodeI32 _).bind ?_
  refine (consumes_withCapacity hlen).bind (l := []) ?_
  rw [Int32.toInt_ofNat_of_lt hlen]
  exact consumes_decodeN h

mutual

/-- **A decoder reads what was encoded**, and nothing else. -/
theorem consumes_decode (ptr : Nat) : (t : Ty) → (x : t.Val ptr) → t.Short ptr x →
    Consumes (t.decode ptr) (t.encode ptr x) x
  | .u8, v, _ => consumes_decodeU8 v
  | .u32, v, _ => consumes_decodeU32 v
  | .i32, v, _ => consumes_decodeI32 v
  | .usize, v, _ => consumes_readPod ptr v
  | .bool, b, _ => consumes_decodeBool b
  | .string, s, h => consumes_decodeString s h
  | .vec elem, xs, h => consumes_decodeVec xs h.1 fun x hx => consumes_decode ptr elem x (h.2 x hx)
  | .struct fields, xs, h => consumes_decodeFields ptr fields xs h

/-- So do the decoders of the fields of a struct. -/
theorem consumes_decodeFields (ptr : Nat) : (ts : List Ty) → (xs : Ty.Vals ptr ts) →
    Ty.ShortFields ptr ts xs → Consumes (Ty.decodeFields ptr ts) (Ty.encodeFields ptr ts xs) xs
  | [], _, _ => .pure ()
  | t :: ts, (x, xs), h =>
    (consumes_decode ptr t x h.1).bind ((consumes_decodeFields ptr ts xs h.2).andThen (.pure _))

end

lemma SuRequest.Short.fields {q : SuRequest} (h : q.Short) (ptr : Nat) :
    SuRequest.ty.Short ptr (q.fields ptr) :=
  ⟨trivial, trivial, trivial, trivial, trivial, h.shell, h.command, h.context,
    ⟨h.gids, fun _ _ => trivial⟩, trivial⟩

lemma consumes_suRequest (ptr : Nat) (q : SuRequest) (h : q.Short) :
    Consumes (SuRequest.decode ptr) (q.encode ptr) q :=
  (consumes_decode ptr _ _ (h.fields ptr)).andThen (.pure q)

lemma writeString_eq (hfd : 0 ≤ fd) (s : Str) : writeString fd s = encodeStr s := by
  rw [writeString, writeInt, if_neg (not_lt.mpr hfd), if_neg (not_lt.mpr hfd)]
  rfl

lemma consumes_readInt (v : Int32) : Consumes readInt (encodeI32 v) v := by
  have hlen : (encodeI32 v).length = 4 := length_leBytes 4 _
  have hbytes := consumes_readUpTo (ε := Abort) (encodeI32 v)
  refine hbytes.andThen ?_
  rw [hlen, if_neg (lt_irrefl 4), encodeI32, writePod, leNat_leBytes v.toBitVec.isLt,
    BitVec.ofNat_toNat, BitVec.setWidth_eq]
  exact .pure v

lemma consumes_readString (s : Str) (h : s.length < 2 ^ 31) :
    Consumes readString (encodeStr s) (s, true) := by
  refine (consumes_readInt _).bind ?_
  rw [Int32.toInt_ofNat_of_lt h]
  refine (consumes_readUpTo s).andThen ?_
  rw [Int.toNat_natCast, Nat.sub_self, List.replicate_zero, List.append_nil, decide_eq_true rfl]
  exact .pure _

end Consumes

/-- **Values survive the socket.**  A value of any type is decoded from its encoding, and
what comes after it is left to the next decoder, however the bytes are split.  The
C++ functions for strings use the same encoding. -/
theorem ipc_round_trip (ptr : Nat) :
    (∀ (t : Ty) (x : t.Val ptr), t.Short ptr x → Consumes (t.decode ptr) (t.encode ptr x) x) ∧
      (∀ q : SuRequest, q.Short → Consumes (SuRequest.decode ptr) (q.encode ptr) q) ∧
      (∀ (s : Text) (fd : Int), 0 ≤ fd → writeString fd s.val = Ty.string.encode ptr s) ∧
      (∀ s : Str, s.length < 2 ^ 31 → Consumes readString (encodeStr s) (s, true)) :=
  ⟨consumes_decode ptr, consumes_suRequest ptr, fun s _ hfd => writeString_eq hfd s.val,
    consumes_readString⟩

/-- A request for a shell of the system user. -/
def systemShell : SuRequest where
  targetUid := 1000
  targetPid := -1
  login := true
  keepEnv := false
  dropCap := false
  shell := ⟨str "/system/bin/sh", by decide⟩
  command := ⟨[], by decide⟩
  context := ⟨[], by decide⟩
  gids := [1000, 2000]

/-- It is decoded when its bytes come one by one, with interruptions between them. -/
theorem systemShell_decoded :
    ∃ s' : Source UInt8, SuRequest.decode 8 ((systemShell.encode 8 ++ [7]).flatMap fun b =>
      [.interrupted, .items b []]) = (.ok systemShell, s') ∧ s'.content = [7] := by
  have hshort : systemShell.Short := ⟨by decide, by decide, by decide, by decide⟩
  exact (ipc_round_trip 8).2.1 systemShell hshort _ [7] (by decide)

end Magisk.Core.Socket
