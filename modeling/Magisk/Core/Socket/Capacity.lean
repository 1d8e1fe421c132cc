import Magisk.Core.Socket
import Magisk.Lib.Walk

/-!
# Lengths that end the daemon

`Vec::decode` and `String::decode` ask for the room of a whole value before they read it.  The
length is a signed number from the client; `with_capacity` takes it as an unsigned one, and panics
or aborts if there is no such room.  The daemon is built to abort on a panic.

* `Platform`: the sizes of values, and the room that the allocator grants;
* `Platform.decode`: `Decodable::decode` at each type, with the room it asks for;
* `Ty.walk`: the lengths that decoding comes to;
* `Refused`: the lengths that end the daemon;
* `follows_decode`: decoding goes on until such a length;
* `survives_iff`: the daemon survives exactly the streams without one;
* `decode_unlimited`: on a platform that grants everything the decoders are those of the codecs;
* `suRequest_aborts`: a request for a root shell that ends the daemon.
-/

namespace Magisk.Core.Socket

open Magisk.Base Magisk.Lib

/-! ### Room -/

/-- What a value takes, and what the allocator grants.  The size of a struct is the compiler's
choice. -/
structure Platform where
  ptr : Nat
  layout : List Ty → Nat
  grants : Nat → Bool

/-- Some elements of a vector, or bytes of a string: the size of one, and the length. -/
structure Capacity where
  size : Nat
  len : Int32

namespace Platform

variable (P : Platform)

/-- `size_of`. -/
def size : Ty → Nat
  | .u8 => 1
  | .u32 => 4
  | .i32 => 4
  | .usize => P.ptr
  | .bool => 1
  | .string => 3 * P.ptr
  | .vec _ => 3 * P.ptr
  | .struct fields => P.layout fields

/-- `len as usize`. -/
def asUsize (len : Int32) : Nat := (len.toInt % (2 ^ (8 * P.ptr) : Nat)).toNat

/-- `isize::MAX`. -/
def isizeMax : Nat := 2 ^ (8 * P.ptr - 1) - 1

/-- The bytes that `with_capacity` asks for. -/
def bytes (c : Capacity) : Nat := P.asUsize c.len * c.size

/-- There is no such room. -/
def Refused (c : Capacity) : Prop :=
  P.bytes c ≠ 0 ∧ (P.isizeMax < P.bytes c ∨ P.grants (P.bytes c) = false)

end Platform

/-- How decoding ends without a value. -/
inductive Ending where
  | unexpectedEof
  | invalidData
  | capacityOverflow
  | allocError

/-- The ends of the daemon. -/
def Ending.Aborts : Ending → Prop
  | .unexpectedEof => False
  | .invalidData => False
  | .capacityOverflow => True
  | .allocError => True

/-! ### Decoding -/

namespace Platform

variable (P : Platform)

/-- `with_capacity(len as usize)`.  Nothing is allocated for no elements, or for elements without
a size. -/
def withCapacity (c : Capacity) : Decoder UInt8 Ending Unit :=
  if P.bytes c = 0 then pure ()
  else if P.isizeMax < P.bytes c then throw .capacityOverflow
  else if P.grants (P.bytes c) then pure ()
  else throw .allocError

/-- `read_pod`. -/
def readPod (n : Nat) : Decoder UInt8 Ending (BitVec (8 * n)) := do
  let bytes ← readExact .unexpectedEof n
  pure (.ofNat _ (leNat bytes))

/-- `u8::decode`. -/
def decodeU8 : Decoder UInt8 Ending UInt8 := do
  let v ← readPod 1
  pure (.ofBitVec v)

/-- `u32::decode`. -/
def decodeU32 : Decoder UInt8 Ending UInt32 := do
  let v ← readPod 4
  pure (.ofBitVec v)

/-- `i32::decode`. -/
def decodeI32 : Decoder UInt8 Ending Int32 := do
  let v ← readPod 4
  pure (.ofBitVec v)

/-- `bool::decode`. -/
def decodeBool : Decoder UInt8 Ending Bool := do
  let v ← decodeU8
  pure (v ≠ 0)

/-- `String::decode`. -/
def decodeString : Decoder UInt8 Ending Text := do
  let len ← decodeI32
  P.withCapacity ⟨1, len⟩
  let bytes ← readUpTo len.toInt.toNat
  if h : validUtf8 bytes = true then pure ⟨bytes, h⟩ else throw .invalidData

/-- `Vec<T>::decode`, for elements of a size. -/
def decodeVec {α : Type} (size : Nat) (decode : Decoder UInt8 Ending α) :
    Decoder UInt8 Ending (List α) := do
  let len ← decodeI32
  P.withCapacity ⟨size, len⟩
  decodeN decode len.toInt.toNat

mutual

/-- `Decodable::decode` at each type. -/
def decode (P : Platform) : (t : Ty) → Decoder UInt8 Ending (t.Val P.ptr)
  | .u8 => decodeU8
  | .u32 => decodeU32
  | .i32 => decodeI32
  | .usize => readPod P.ptr
  | .bool => decodeBool
  | .string => P.decodeString
  | .vec elem => P.decodeVec (P.size elem) (P.decode elem)
  | .struct fields => P.decodeFields fields

/-- `gen_decode`: the fields in order. -/
def decodeFields (P : Platform) : (ts : List Ty) → Decoder UInt8 Ending (Ty.Vals P.ptr ts)
  | [] => pure ()
  | t :: ts => do
      let x ← P.decode t
      let xs ← P.decodeFields ts
      pure (x, xs)

end

end Platform

/-! ### The lengths on the way -/

/-- Reading bytes, with the lengths on the way. -/
abbrev LengthWalk := Walk Capacity UInt8

/-- A number. -/
def podWalk (n : Nat) : LengthWalk (BitVec (8 * n)) :=
  (Walk.full n).bind fun bytes => .pure (.ofNat _ (leNat bytes))

/-- A byte. -/
def u8Walk : LengthWalk UInt8 := (podWalk 1).bind fun v => .pure (.ofBitVec v)

/-- A length, or another signed number. -/
def i32Walk : LengthWalk Int32 := (podWalk 4).bind fun v => .pure (.ofBitVec v)

/-- A string. -/
def stringWalk : LengthWalk Text :=
  i32Walk.bind fun len => (Walk.ask ⟨1, len⟩).bind fun _ =>
    (Walk.upTo len.toInt.toNat).bind fun bytes =>
      if h : validUtf8 bytes = true then .pure ⟨bytes, h⟩ else .fail

mutual

/-- The lengths that decoding a value comes to, each with the size of an element. -/
def Ty.walk (P : Platform) : (t : Ty) → LengthWalk (t.Val P.ptr)
  | .u8 => u8Walk
  | .u32 => (podWalk 4).bind fun v => .pure (UInt32.ofBitVec v)
  | .i32 => i32Walk
  | .usize => podWalk P.ptr
  | .bool => u8Walk.bind fun v => .pure (decide (v ≠ 0))
  | .string => stringWalk
  | .vec elem => i32Walk.bind fun len => (Walk.ask ⟨P.size elem, len⟩).bind fun _ =>
    (elem.walk P).times len.toInt.toNat
  | .struct fields => Ty.walkFields P fields

/-- Those of the fields. -/
def Ty.walkFields (P : Platform) : (ts : List Ty) → LengthWalk (Ty.Vals P.ptr ts)
  | [] => .pure ()
  | t :: ts => (t.walk P).bind fun x => (Ty.walkFields P ts).bind fun xs => .pure (x, xs)

end

/-- The lengths in some bytes. -/
def Ty.lengths (P : Platform) (t : Ty) (l : List UInt8) : List Capacity := (t.walk P l).1

/-! ### Decoding goes on until a length is refused -/

section Follows

variable {P : Platform}

/-- `with_capacity` refuses what it should. -/
lemma follows_withCapacity (c : Capacity) :
    Follows P.Refused Ending.Aborts (P.withCapacity c) (Walk.ask c) := by
  refine follows_ask (fun hok => ?_) ?_
  · rw [Platform.Refused, not_and_or, not_not, not_or, not_lt, Bool.not_eq_false] at hok
    rw [Platform.withCapacity]
    rcases hok with hzero | ⟨hmax, hgrants⟩
    · rw [if_pos hzero]
    · rw [if_neg (not_lt.mpr hmax), if_pos hgrants, ite_self]
  · rintro ⟨hzero, hrefused⟩
    rw [Platform.withCapacity, if_neg hzero]
    by_cases hmax : P.isizeMax < P.bytes c
    · exact ⟨.capacityOverflow, trivial, by rw [if_pos hmax]⟩
    · refine ⟨.allocError, trivial, ?_⟩
      rw [if_neg hmax, hrefused.resolve_left hmax]
      rfl

lemma follows_readPod (n : Nat) :
    Follows P.Refused Ending.Aborts (Platform.readPod n) (podWalk n) :=
  (follows_readExact id n).bind fun _ => follows_pure _

lemma follows_decodeU8 : Follows P.Refused Ending.Aborts Platform.decodeU8 u8Walk :=
  (follows_readPod 1).bind fun _ => follows_pure _

lemma follows_decodeI32 : Follows P.Refused Ending.Aborts Platform.decodeI32 i32Walk :=
  (follows_readPod 4).bind fun _ => follows_pure _

lemma follows_decodeString : Follows P.Refused Ending.Aborts P.decodeString stringWalk := by
  refine follows_decodeI32.bind fun len => (follows_withCapacity _).bind fun _ =>
    (follows_readUpTo _).bind fun bytes => ?_
  split
  · exact follows_pure _
  · exact follows_throw id

mutual

/-- **Decoding goes on until a length is refused.** -/
theorem follows_decode (P : Platform) : (t : Ty) →
    Follows P.Refused Ending.Aborts (P.decode t) (t.walk P)
  | .u8 => follows_decodeU8
  | .u32 => (follows_readPod 4).bind fun _ => follows_pure _
  | .i32 => follows_decodeI32
  | .usize => follows_readPod P.ptr
  | .bool => follows_decodeU8.bind fun _ => follows_pure _
  | .string => follows_decodeString
  | .vec elem => follows_decodeI32.bind fun _ => (follows_withCapacity _).bind fun _ =>
    follows_decodeN (follows_decode P elem) _
  | .struct fields => follows_decodeFields P fields

/-- So does decoding the fields of a struct. -/
theorem follows_decodeFields (P : Platform) : (ts : List Ty) →
    Follows P.Refused Ending.Aborts (P.decodeFields ts) (Ty.walkFields P ts)
  | [] => follows_pure ()
  | t :: ts => (follows_decode P t).bind fun _ => (follows_decodeFields P ts).bind fun _ =>
    follows_pure _

end

end Follows

/-- The daemon survives decoding: there is a value or an error. -/
def Survives (P : Platform) (t : Ty) (s : Source UInt8) : Prop :=
  ∀ e s', P.decode t s = (.error e, s') → ¬e.Aborts

/-- **The streams that the daemon survives** are those without a length that is refused among those
that decoding comes to. -/
theorem survives_iff (P : Platform) (t : Ty) (s : Source UInt8) :
    Survives P t s ↔ ∀ c ∈ t.lengths P s.content, ¬P.Refused c := by
  have hiff := (follows_decode P t).fatal_iff s
  rw [← not_iff_not, Survives]
  simp only [not_forall, not_not, exists_prop]
  exact hiff

/-! ### Negative lengths -/

section Negative

variable {P : Platform} {c : Capacity}

lemma asUsize_of_nonneg (hptr : 4 ≤ P.ptr) (h : 0 ≤ len.toInt) :
    P.asUsize len = len.toInt.toNat := by
  have hlt := len.toInt_lt
  have hpow : (2 ^ 32 : Nat) ≤ 2 ^ (8 * P.ptr) := Nat.pow_le_pow_right (by omega) (by omega)
  rw [Platform.asUsize, Int.emod_eq_of_lt h (by omega)]

lemma isizeMax_lt_asUsize (hptr : 4 ≤ P.ptr) (h : len.toInt < 0) : P.isizeMax < P.asUsize len := by
  have hle := len.le_toInt
  have hpow : (2 ^ 32 : Nat) ≤ 2 ^ (8 * P.ptr) := Nat.pow_le_pow_right (by omega) (by omega)
  have hhalf : 2 ^ (8 * P.ptr) = 2 * 2 ^ (8 * P.ptr - 1) := by
    rw [← pow_succ']
    congr 1
    omega
  have hmod : len.toInt % (2 ^ (8 * P.ptr) : Nat) = len.toInt + (2 ^ (8 * P.ptr) : Nat) := by
    rw [← Int.add_emod_right, Int.emod_eq_of_lt (by omega) (by omega)]
  rw [Platform.asUsize, Platform.isizeMax]
  omega

lemma refused_of_neg (hptr : 4 ≤ P.ptr) (hsize : c.size ≠ 0) (h : c.len.toInt < 0) :
    P.Refused c := by
  have hlt := isizeMax_lt_asUsize hptr h
  have hle : P.asUsize c.len ≤ P.bytes c := Nat.le_mul_of_pos_right _ (Nat.pos_of_ne_zero hsize)
  exact ⟨by omega, .inl (by omega)⟩

end Negative

/-! ### A platform that grants everything -/

/-- The error of the codecs. -/
def DecodeError.ending : DecodeError → Ending
  | .unexpectedEof => .unexpectedEof
  | .invalidData => .invalidData
  | .capacityOverflow => .capacityOverflow

/-- The decoders do the same. -/
def Lifts {α : Type} (m : Decode α) (m' : Decoder UInt8 Ending α) : Prop :=
  ∀ s, m' s = ((m s).1.mapError DecodeError.ending, (m s).2)

section Lifts

variable {α β : Type} {m : Decode α} {m' : Decoder UInt8 Ending α}

lemma Lifts.bind (h : Lifts m m') {f : α → Decode β}
    (hf : ∀ a, Lifts (f a) (f' a)) : Lifts (m >>= f) (m' >>= f') := by
  intro s
  have hm := h s
  rcases hread : m s with ⟨e | a, s'⟩
  · rw [hread] at hm
    rw [bind_of_error hread, bind_of_error hm]
    rfl
  · rw [hread] at hm
    rw [bind_of_ok hread, bind_of_ok hm]
    exact hf a s'

lemma lifts_pure (a : α) : Lifts (pure a) (pure a) := fun _ => rfl

lemma lifts_throw (e : DecodeError) : Lifts (throw e : Decode α) (throw e.ending) := fun _ => rfl

lemma lifts_readUpTo (n : Nat) : Lifts (readUpTo n) (readUpTo n) := fun _ => rfl

lemma lifts_readPod (n : Nat) : Lifts (readPod n) (Platform.readPod n) := by
  refine Lifts.bind ((lifts_readUpTo n).bind fun l => ?_) fun _ => lifts_pure _
  split
  · exact lifts_throw .unexpectedEof
  · exact lifts_pure l

lemma lifts_decodeU8 : Lifts decodeU8 Platform.decodeU8 :=
  (lifts_readPod 1).bind fun _ => lifts_pure _

lemma lifts_decodeI32 : Lifts decodeI32 Platform.decodeI32 :=
  (lifts_readPod 4).bind fun _ => lifts_pure _

lemma lifts_decodeN (h : Lifts m m') (n : Nat) : Lifts (decodeN m n) (decodeN m' n) := by
  induction n with
  | zero => exact lifts_pure []
  | succ n ih => exact h.bind fun _ => ih.bind fun _ => lifts_pure _

end Lifts

/-- A platform with room for every length: pointers of at least four bytes, and an allocator that
grants everything. -/
structure Platform.Unlimited (P : Platform) : Prop where
  ptr : 4 ≤ P.ptr
  grants : ∀ n, P.grants n = true

/-- The elements have a size, and there is an address for each of 2³¹ of them. -/
def Platform.Addresses (P : Platform) (size : Nat) : Prop :=
  0 < size ∧ 2 ^ 31 * size ≤ P.isizeMax

mutual

/-- The elements of the vectors in a type do. -/
def Ty.Fits (P : Platform) : Ty → Prop
  | .vec elem => P.Addresses (P.size elem) ∧ elem.Fits P
  | .struct fields => Ty.FitsFields P fields
  | .string => P.Addresses 1
  | _ => True

/-- So do those in the fields. -/
def Ty.FitsFields (P : Platform) : List Ty → Prop
  | [] => True
  | t :: ts => t.Fits P ∧ Ty.FitsFields P ts

end

section Unlimited

variable {P : Platform}

/-- Just the negative lengths are refused. -/
lemma lifts_withCapacity (h : P.Unlimited) (hsize : P.Addresses size) (len : Int32) :
    Lifts (withCapacity len) (P.withCapacity ⟨size, len⟩) := by
  rw [withCapacity, Platform.withCapacity]
  by_cases hneg : len.toInt < 0
  · obtain ⟨hzero, hrefused⟩ := @refused_of_neg P ⟨size, len⟩ h.ptr hsize.1.ne' hneg
    have hmax := hrefused.resolve_right (by simp [h.grants])
    rw [if_pos hneg, if_neg hzero, if_pos hmax]
    exact lifts_throw .capacityOverflow
  · have hlt := len.toInt_lt
    have hbytes : P.bytes ⟨size, len⟩ ≤ P.isizeMax := by
      refine le_trans ?_ hsize.2
      rw [Platform.bytes, asUsize_of_nonneg h.ptr (not_lt.mp hneg)]
      exact Nat.mul_le_mul_right _ (by omega)
    rw [if_neg hneg, if_neg (not_lt.mpr hbytes), h.grants, if_pos rfl, ite_self]
    exact lifts_pure ()

mutual

/-- **Where there is room for everything**, the decoders are those of the codecs. -/
theorem decode_unlimited (h : P.Unlimited) : (t : Ty) → t.Fits P →
    Lifts (t.decode P.ptr) (P.decode t)
  | .u8, _ => lifts_decodeU8
  | .u32, _ => (lifts_readPod 4).bind fun _ => lifts_pure _
  | .i32, _ => lifts_decodeI32
  | .usize, _ => lifts_readPod P.ptr
  | .bool, _ => lifts_decodeU8.bind fun _ => lifts_pure _
  | .string, hfits => by
      refine lifts_decodeI32.bind fun len => (lifts_withCapacity h hfits len).bind fun _ =>
        (lifts_readUpTo _).bind fun bytes => ?_
      split
      · exact lifts_pure _
      · exact lifts_throw .invalidData
  | .vec elem, hfits => lifts_decodeI32.bind fun len =>
    (lifts_withCapacity h hfits.1 len).bind fun _ =>
      lifts_decodeN (decode_unlimited h elem hfits.2) _
  | .struct fields, hfits => decodeFields_unlimited h fields hfits

/-- So are those of the fields of a struct. -/
theorem decodeFields_unlimited (h : P.Unlimited) : (ts : List Ty) → Ty.FitsFields P ts →
    Lifts (Ty.decodeFields P.ptr ts) (P.decodeFields ts)
  | [], _ => lifts_pure ()
  | t :: ts, hfits => (decode_unlimited h t hfits.1).bind fun _ =>
    (decodeFields_unlimited h ts hfits.2).bind fun _ => lifts_pure _

end

end Unlimited

/-! ### A request for a root shell -/

/-- A 64-bit device whose allocator grants everything. -/
def arm64 : Platform := ⟨8, fun fields => 8 * fields.length, fun _ => true⟩

/-- A request with a length of -1 for the shell. -/
def hostileRequest : List UInt8 :=
  [0, 0, 0, 0, 0, 0, 0, 0, 0, 0, 0, 0xff, 0xff, 0xff, 0xff]

/-- Decoding it ends the daemon. -/
theorem suRequest_aborts : SuRequest.ty.lengths arm64 hostileRequest = [⟨1, -1⟩] ∧
    (∃ e s', arm64.decode SuRequest.ty (.ofList hostileRequest) = (.error e, s') ∧ e.Aborts) ∧
    ¬Survives arm64 SuRequest.ty (.ofList hostileRequest) := by
  have hlengths : SuRequest.ty.lengths arm64 hostileRequest = [⟨1, -1⟩] := rfl
  have hrefused : arm64.Refused ⟨1, -1⟩ := refused_of_neg (by decide) (by decide) (by decide)
  have hmem : ⟨1, -1⟩ ∈ SuRequest.ty.lengths arm64 (Source.ofList hostileRequest).content := by
    exact .head _
  have habort := (follows_decode arm64 SuRequest.ty).refuses (.ofList hostileRequest)
    ⟨⟨1, -1⟩, hmem, hrefused⟩
  refine ⟨hlengths, habort, fun hsurvives => ?_⟩
  obtain ⟨e, s', herror, he⟩ := habort
  exact hsurvives e s' herror he

end Magisk.Core.Socket
