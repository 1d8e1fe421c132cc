import Mathlib.Tactic

/-!
# Parts of a list

Reading and overwriting parts of a buffer, and buffers that are laid out in aligned sections.

* `window`, `patch`: a part of a list, and a list with a part replaced;
* `window_patch_self`, `window_patch_of_disjoint`: what a replaced part does to a read;
* `alignTo`: the next multiple;
* `padTo`, `pack`: sections that are padded to a multiple, one after the other;
* `offsets`, `window_pack`: where the sections are found.
-/

namespace Magisk.Lib

open List

universe u

variable {α : Type u}

/-! ### Windows -/

/-- The `n` items from a position on. -/
def window (l : List α) (off n : Nat) : List α := (l.drop off).take n

lemma getElem?_window (l : List α) (off n i : Nat) :
    (window l off n)[i]? = if i < n then l[off + i]? else none := by
  rw [window, getElem?_take, getElem?_drop]

variable {l data : List α} {off n o v : Nat}

lemma length_window (h : off + n ≤ l.length) : (window l off n).length = n := by
  rw [window, length_take, length_drop]
  omega

@[simp] lemma window_zero (l : List α) (off : Nat) : window l off 0 = [] := take_zero

lemma window_length (l : List α) : window l 0 l.length = l := by
  rw [window, drop_zero, take_length]

lemma window_append_left (h : off + n ≤ l.length) : window (l ++ l') off n = window l off n := by
  refine ext_getElem? fun i => ?_
  rw [getElem?_window, getElem?_window]
  split
  · rw [getElem?_append_left (by omega)]
  · rfl

lemma window_append_right (h : l.length ≤ off) :
    window (l ++ l') off n = window l' (off - l.length) n := by
  refine ext_getElem? fun i => ?_
  rw [getElem?_window, getElem?_window]
  split
  · rw [getElem?_append_right (by omega)]
    congr 1
    omega
  · rfl

lemma window_window (h : off' + n' ≤ n) :
    window (window l off n) off' n' = window l (off + off') n' := by
  refine ext_getElem? fun i => ?_
  simp only [getElem?_window]
  split
  · rw [if_pos (by omega), Nat.add_assoc]
  · rfl

lemma window_append_window (l : List α) (off m n : Nat) :
    window l off m ++ window l (off + m) n = window l off (m + n) := by
  rw [window, window, window, ← drop_drop, take_add]

/-! ### Overwriting -/

/-- The list with some items replaced. -/
def patch (l : List α) (off : Nat) (data : List α) : List α :=
  l.take off ++ data ++ l.drop (off + data.length)

lemma getElem?_patch (h : off + data.length ≤ l.length) (i : Nat) : (patch l off data)[i]? =
      if off ≤ i ∧ i < off + data.length then data[i - off]? else l[i]? := by
  have hlen : (l.take off).length = off := by
    rw [length_take]
    omega
  rw [patch, append_assoc]
  rcases lt_or_ge i off with hlt | hge
  · rw [getElem?_append_left (by omega), getElem?_take_of_lt hlt, if_neg (by omega)]
  · rw [getElem?_append_right (by omega), hlen, getElem?_append]
    by_cases hin : i - off < data.length
    · rw [if_pos hin, if_pos (by omega)]
    · rw [if_neg hin, if_neg (by omega), getElem?_drop]
      congr 1
      omega

@[simp] lemma length_patch (h : off + data.length ≤ l.length) :
    (patch l off data).length = l.length := by
  rw [patch, length_append, length_append, length_take, length_drop]
  omega

lemma window_patch_self_of_le (data : List α) (h : off ≤ l.length) :
    window (patch l off data) off data.length = data := by
  have hlen : (l.take off).length = off := by
    rw [length_take]
    omega
  rw [patch, append_assoc, window_append_right (by omega), hlen, Nat.sub_self,
    window_append_left (by omega), window_length]

lemma window_patch_self (l : List α) (off : Nat) (data : List α)
    (h : off + data.length ≤ l.length) : window (patch l off data) off data.length = data :=
  window_patch_self_of_le data (by omega)

lemma window_patch_of_disjoint (h : off + data.length ≤ l.length)
    (hd : o + n ≤ off ∨ off + data.length ≤ o) : window (patch l off data) o n = window l o n := by
  refine ext_getElem? fun i => ?_
  rw [getElem?_window, getElem?_window]
  split
  · rw [getElem?_patch h, if_neg (by omega)]
  · rfl

lemma window_patch_of_before (data : List α) (h : off ≤ l.length) (hd : o + n ≤ off) :
    window (patch l off data) o n = window l o n := by
  have hlen : (l.take off).length = off := by
    rw [length_take]
    omega
  have hl : window l o n = window (l.take off ++ l.drop off) o n := by rw [take_append_drop]
  rw [hl, patch, append_assoc, window_append_left (by omega), window_append_left (by omega)]

/-- A part that has all of the new items. -/
lemma window_patch_of_inside (h : o + n ≤ l.length) (hd : off + data.length ≤ n) :
    window (patch l (o + off) data) o n = patch (window l o n) off data := by
  have hlen : (window l o n).length = n := length_window h
  refine ext_getElem? fun i => ?_
  rw [getElem?_window, getElem?_patch (by omega), getElem?_patch (by omega), getElem?_window]
  by_cases hi : off ≤ i ∧ i < off + data.length
  · rw [if_pos (by omega), if_pos (by omega), if_pos hi]
    congr 1
    omega
  · rw [if_neg hi]
    split
    · rw [if_neg (by omega)]
    · rfl

/-! ### Alignment -/

/-- The next multiple of `a`. -/
def alignTo (v a : Nat) : Nat := (v + a - 1) / a * a

section Align

variable {a : Nat} (ha : 0 < a)

include ha

lemma le_alignTo (v : Nat) : v ≤ alignTo v a := by
  have h := Nat.lt_mul_div_succ (v + a - 1) ha
  rw [alignTo, mul_comm]
  rw [mul_add] at h
  omega

omit ha in
lemma dvd_alignTo (v : Nat) : a ∣ alignTo v a := Dvd.intro_left _ rfl

lemma alignTo_le (h : v ≤ n) (hn : a ∣ n) : alignTo v a ≤ n := by
  obtain ⟨k, rfl⟩ := hn
  rw [mul_comm a k]
  refine Nat.mul_le_mul_right a (Nat.le_of_lt_succ ?_)
  rw [Nat.div_lt_iff_lt_mul ha, Nat.succ_mul, mul_comm k a]
  omega

lemma alignTo_of_dvd (h : a ∣ v) : alignTo v a = v :=
  le_antisymm (alignTo_le ha le_rfl h) (le_alignTo ha v)

lemma alignTo_add (h : a ∣ v) (w : Nat) : alignTo (v + w) a = v + alignTo w a := by
  refine le_antisymm (alignTo_le ha ?_ (Dvd.dvd.add h (dvd_alignTo w))) ?_
  · exact Nat.add_le_add_left (le_alignTo ha w) v
  · have hle := le_alignTo ha (v + w)
    have hdvd : a ∣ alignTo (v + w) a - v := Nat.dvd_sub (dvd_alignTo _) h
    have := alignTo_le ha (v := w) (by omega) hdvd
    omega

end Align

/-! ### Sections -/

/-- Where sections of these sizes start if each of them starts at the next multiple. -/
def offsets (a : Nat) : Nat → List Nat → List Nat
  | _, [] => []
  | off, n :: ns => off :: offsets a (alignTo (off + n) a) ns

/-- Where they end. -/
def endOffset (a : Nat) : Nat → List Nat → Nat
  | off, [] => off
  | off, n :: ns => endOffset a (alignTo (off + n) a) ns

section Sections

variable {a : Nat} (ha : 0 < a)

include ha

lemma le_endOffset (off : Nat) (ns : List Nat) : off ≤ endOffset a off ns := by
  induction ns generalizing off with
  | nil => exact le_rfl
  | cons n ns ih =>
    have hle := le_alignTo ha (off + n)
    exact (by omega : off ≤ alignTo (off + n) a).trans (ih _)

lemma mem_zip_offsets (hx : x ∈ (offsets a off ns).zip ns) :
    off ≤ x.1 ∧ x.1 + x.2 ≤ endOffset a off ns := by
  induction ns generalizing off with
  | nil => cases hx
  | cons n ns ih =>
    have hle := le_alignTo ha (off + n)
    have hend := le_endOffset ha (alignTo (off + n) a) ns
    rw [offsets, zip_cons_cons, mem_cons] at hx
    rcases hx with rfl | hx
    · exact ⟨le_rfl, hle.trans hend⟩
    · exact ⟨(by omega : off ≤ alignTo (off + n) a).trans (ih hx).1, (ih hx).2⟩

lemma pairwise_offsets (off : Nat) (ns : List Nat) :
    ((offsets a off ns).zip ns).Pairwise fun x y => x.1 + x.2 ≤ y.1 := by
  induction ns generalizing off with
  | nil => exact .nil
  | cons n ns ih =>
    rw [offsets, zip_cons_cons, pairwise_cons]
    exact ⟨fun y hy => (le_alignTo ha (off + n)).trans (mem_zip_offsets ha hy).1, ih _⟩

end Sections

/-! ### Packed sections -/

/-- The list, padded to a multiple. -/
def padTo (z : α) (a : Nat) (l : List α) : List α :=
  l ++ List.replicate (alignTo l.length a - l.length) z

/-- Sections, each of them padded to a multiple. -/
def pack (z : α) (a : Nat) (ls : List (List α)) : List α := (ls.map (padTo z a)).flatten

section Pack

variable {z : α} {a : Nat}

lemma pack_append (ls ls' : List (List α)) :
    pack z a (ls ++ ls') = pack z a ls ++ pack z a ls' := by
  rw [pack, map_append, flatten_append]
  rfl

lemma pack_cons (l : List α) (ls : List (List α)) :
    pack z a (l :: ls) = padTo z a l ++ pack z a ls := rfl

lemma pack_singleton (l : List α) : pack z a [l] = padTo z a l := append_nil _

variable (ha : 0 < a)

include ha

lemma padTo_nil : padTo z a [] = [] := by
  rw [padTo, length_nil, alignTo_of_dvd ha (dvd_zero a)]
  rfl

lemma length_padTo (l : List α) : (padTo z a l).length = alignTo l.length a := by
  have hle := le_alignTo ha l.length
  rw [padTo, length_append, length_replicate]
  omega

lemma dvd_length_pack (ls : List (List α)) : a ∣ (pack z a ls).length := by
  induction ls with
  | nil => exact dvd_zero a
  | cons l ls ih =>
    rw [pack_cons, length_append, length_padTo ha]
    exact Dvd.dvd.add (dvd_alignTo _) ih

lemma endOffset_eq (hoff : a ∣ off) (ls : List (List α)) :
    endOffset a off (ls.map List.length) = off + (pack z a ls).length := by
  induction ls generalizing off with
  | nil => rfl
  | cons l ls ih =>
    rw [map_cons, endOffset, ih (dvd_alignTo _), pack_cons, length_append,
      length_padTo ha, alignTo_add ha hoff, Nat.add_assoc]

lemma getD_offsets (hoff : a ∣ off) (ls : List (List α)) (hi : i < ls.length) :
    (offsets a off (ls.map List.length)).getD i 0 = off + (pack z a (ls.take i)).length := by
  induction ls generalizing off i with
  | nil => cases hi
  | cons l ls ih =>
    cases i with
    | zero => rfl
    | succ i =>
      rw [map_cons, offsets, getD_cons_succ, take_succ_cons, pack_cons,
        length_append, length_padTo ha, ih (dvd_alignTo _) (Nat.lt_of_succ_lt_succ hi),
        alignTo_add ha hoff, Nat.add_assoc]

/-- **Sections are found where their sizes say.** -/
theorem window_pack {h : Nat} (hoff : a ∣ off) {head : List α} (hhead : head.length = h + off)
    (ls : List (List α)) (rest : List α) {x : Nat × List α}
    (hx : x ∈ (offsets a off (ls.map List.length)).zip ls) :
    window (head ++ pack z a ls ++ rest) (h + x.1) x.2.length = x.2 := by
  induction ls generalizing off head with
  | nil => cases hx
  | cons l ls ih =>
    rw [map_cons, offsets, zip_cons_cons, mem_cons] at hx
    rcases hx with rfl | hx
    · rw [append_assoc, window_append_right (by omega), pack_cons, padTo]
      simp only [append_assoc]
      rw [hhead, Nat.sub_self, window_append_left (by omega), window_length]
    · have hhead' : (head ++ padTo z a l).length = h + alignTo (off + l.length) a := by
        rw [length_append, length_padTo ha, hhead, alignTo_add ha hoff, Nat.add_assoc]
      rw [pack_cons, ← append_assoc head]
      exact ih (dvd_alignTo _) hhead' hx

end Pack

end Magisk.Lib
