import Mathlib.Tactic

/-!
# UTF-8 validity of byte strings

* `validUtf8`: is the byte string valid UTF-8?
* `validUtf8_append_left`, `validUtf8_append_right`: ASCII text before or after a
  byte string changes nothing.
-/

namespace Magisk.Lib

open List

/-- Is the byte string valid UTF-8? -/
def validUtf8 (s : List UInt8) : Bool := s.toByteArray.validateUTF8

variable {c : UInt8} {p : List UInt8}

lemma exists_utf8Encode_ascii (hc : c < 128) : ∃ ch : Char, [c].toByteArray = [ch].utf8Encode := by
  have henc : ∀ n < 128, [UInt8.ofNat n].toByteArray = [Char.ofNat n].utf8Encode := by decide
  refine ⟨Char.ofNat c.toNat, ?_⟩
  rw [← henc c.toNat hc, UInt8.ofNat_toNat]

lemma isUTF8FirstByte_ascii (hc : c < 128) : c.IsUTF8FirstByte := by
  have hfirst : ∀ n < 128, (UInt8.ofNat n) &&& 128 = 0 := by decide
  rw [← UInt8.ofNat_toNat (x := c)]
  exact .inl (hfirst c.toNat hc)

lemma utf8EncodeChar_eq_of_append (hc : c < 128)
    (h : String.utf8EncodeChar ch = p ++ [c]) : p = [] := by
  have hlt : p.length < (String.utf8EncodeChar ch).length := by simp [h]
  have hget : (String.utf8EncodeChar ch)[p.length] = c := by simp [h]
  have hfirst : (String.utf8EncodeChar ch)[p.length].IsUTF8FirstByte := by
    rw [hget]
    exact isUTF8FirstByte_ascii hc
  exact length_eq_zero_iff.mp (UInt8.isUTF8FirstByte_getElem_utf8EncodeChar.mp hfirst)

lemma validUtf8_cons (hc : c < 128) (s : List UInt8) : validUtf8 (c :: s) = validUtf8 s := by
  obtain ⟨ch, hch⟩ := exists_utf8Encode_ascii hc
  rw [Bool.eq_iff_iff, validUtf8, validUtf8, ByteArray.validateUTF8_eq_true_iff,
    ByteArray.validateUTF8_eq_true_iff, ← singleton_append, toByteArray_append, hch,
    ByteArray.isValidUTF8_utf8Encode_singleton_append_iff]

lemma validUtf8_append_left (hp : ∀ c ∈ p, c < 128) (s : List UInt8) :
    validUtf8 (p ++ s) = validUtf8 s := by
  induction p with
  | nil => rfl
  | cons c p ih =>
    rw [cons_append, validUtf8_cons (hp c mem_cons_self),
      ih fun d hd => hp d (.tail _ hd)]

/-- An ASCII byte at the end changes nothing. -/
lemma validUtf8_append_right (hc : c < 128) (s : List UInt8) :
    validUtf8 (s ++ [c]) = validUtf8 s := by
  obtain ⟨ch, hch⟩ := exists_utf8Encode_ascii hc
  rw [Bool.eq_iff_iff, validUtf8, validUtf8, ByteArray.validateUTF8_eq_true_iff,
    ByteArray.validateUTF8_eq_true_iff, toByteArray_append]
  constructor
  · rintro ⟨chars, hchars⟩
    rw [← toByteArray_append, List.utf8Encode, toByteArray_inj] at hchars
    rcases eq_nil_or_concat chars with rfl | ⟨init, last, rfl⟩
    · simp at hchars
    · -- the last character is the byte alone, so the others are the string
      rw [concat_eq_append, flatMap_append, flatMap_singleton] at hchars
      rcases eq_nil_or_concat (String.utf8EncodeChar last) with hnil | ⟨p, x, hp⟩
      · exact absurd hnil (ne_nil_of_length_pos (by
          rw [String.length_utf8EncodeChar]
          exact last.utf8Size_pos))
      · rw [concat_eq_append] at hp
        rw [hp, ← append_assoc] at hchars
        obtain ⟨hs, hx⟩ := append_inj' hchars rfl
        obtain rfl := singleton_inj.mp hx
        obtain rfl := utf8EncodeChar_eq_of_append hc hp
        rw [hs, append_nil]
        exact ⟨init, rfl⟩
  · intro h
    rw [hch]
    exact h.append ByteArray.isValidUTF8_utf8Encode

lemma validUtf8_append (hs : validUtf8 s = true) (ht : validUtf8 t = true) :
    validUtf8 (s ++ t) = true := by
  rw [validUtf8, ByteArray.validateUTF8_eq_true_iff] at hs ht ⊢
  rw [toByteArray_append]
  exact hs.append ht

lemma ascii_of_all (hp : p.all (· < 128) = true) : ∀ c ∈ p, c < 128 := by
  simpa using hp

lemma validUtf8_ascii (hp : ∀ c ∈ p, c < 128) : validUtf8 p = true := by
  rw [← append_nil p, validUtf8_append_left hp]
  rfl

end Magisk.Lib
