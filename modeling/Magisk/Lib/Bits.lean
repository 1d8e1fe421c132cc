import Mathlib.Data.UInt
import Mathlib.Tactic

/-!
# Sets of bits

Bit vectors that are changed one bit at a time.

* `getLsbD_foldl_set`, `getLsbD_foldl_clear`: the bits after a loop that sets or clears
  those of a list;
* `toNat_highByte`, `toNat_lowByte`: the bytes of a word.
-/

namespace Magisk.Lib

variable {w i : Nat}

lemma getLsbD_one_shiftLeft (j : Nat) (hi : i < w) : (1#w <<< j).getLsbD i = decide (i = j) := by
  rw [← BitVec.twoPow_eq]
  by_cases hij : i = j
  · subst hij
    simp [hi]
  · simp [hij, Ne.symm hij]

lemma getLsbD_set (x : BitVec w) (j : Nat) (hi : i < w) :
    (x ||| 1#w <<< j).getLsbD i = (x.getLsbD i || decide (i = j)) := by
  rw [BitVec.getLsbD_or, getLsbD_one_shiftLeft j hi]

lemma getLsbD_clear (x : BitVec w) (j : Nat) (hi : i < w) :
    (x &&& ~~~(1#w <<< j)).getLsbD i = (x.getLsbD i && !decide (i = j)) := by
  rw [BitVec.getLsbD_and, BitVec.getLsbD_not, getLsbD_one_shiftLeft j hi]
  simp [hi]

lemma getLsbD_foldl_set (l : List Nat) (x : BitVec w) (hi : i < w) :
    (l.foldl (fun x j => x ||| 1#w <<< j) x).getLsbD i = (x.getLsbD i || decide (i ∈ l)) := by
  induction l generalizing x with
  | nil => simp
  | cons j l ih =>
    rw [List.foldl_cons, ih, getLsbD_set x j hi, Bool.or_assoc]
    simp

lemma getLsbD_foldl_clear (l : List Nat) (x : BitVec w) (hi : i < w) :
    (l.foldl (fun x j => x &&& ~~~(1#w <<< j)) x).getLsbD i = (x.getLsbD i && !decide (i ∈ l)) := by
  induction l generalizing x with
  | nil => simp
  | cons j l ih =>
    rw [List.foldl_cons, ih, getLsbD_clear x j hi, Bool.and_assoc, ← Bool.not_or,
      ← Bool.decide_or]
    simp

lemma toNat_highByte (x : UInt16) : (x >>> 8 &&& 0xFF).toUInt8.toNat = x.toNat / 256 := by
  have hx := x.toNat_lt
  have hmask : x.toNat / 256 % 256 &&& 255 = x.toNat / 256 % 256 % 2 ^ 8 :=
    Nat.and_two_pow_sub_one_eq_mod _ 8
  simp [Nat.shiftRight_eq_div_pow]
  omega

lemma toNat_lowByte (x : UInt16) : (x &&& 0xFF).toUInt8.toNat = x.toNat % 256 := by
  have hmask : x.toNat % 256 &&& 255 = x.toNat % 256 % 2 ^ 8 :=
    Nat.and_two_pow_sub_one_eq_mod _ 8
  simp [hmask]

end Magisk.Lib
