import Mathlib.Tactic

/-!
# Writes at positions

A file that is written at positions grows with zeros in its holes.  After several writes, each
place has what the last of them that reaches it has left there.

* `writeAt`, `written`: one write, and several of them into an empty file;
* `Reaches`: a write covers a place;
* `getD_writeAt`, `length_writeAt`: what one write does;
* `written_eq_iff`: when the writes give a certain file.
-/

namespace Magisk.Lib

open List

universe u

variable {α : Type u} [Zero α]

/-! ### One write -/

/-- Writes some items at a position.  Writing nothing does not let the file grow. -/
def writeAt (file : List α) (off : Nat) (data : List α) : List α :=
  if data = [] then file
  else (file ++ List.replicate (off - file.length) 0).take off ++ data ++
    file.drop (off + data.length)

/-- The write covers the place. -/
def Reaches (w : Nat × List α) (p : Nat) : Prop := w.1 ≤ p ∧ p < w.1 + w.2.length

instance (w : Nat × List α) (p : Nat) : Decidable (Reaches w p) :=
  inferInstanceAs (Decidable (_ ∧ _))

lemma length_writeAt (file : List α) (off : Nat) (h : data ≠ []) :
    (writeAt file off data).length = max file.length (off + data.length) := by
  rw [writeAt, if_neg h]
  simp only [length_append, length_take, length_drop, length_replicate]
  omega

/-- What is at a place after a write. -/
lemma getD_writeAt (file : List α) (w : Nat × List α) (p : Nat) :
    (writeAt file w.1 w.2).getD p 0 =
      if Reaches w p then w.2.getD (p - w.1) 0 else file.getD p 0 := by
  obtain ⟨off, data⟩ := w
  by_cases hnil : data = []
  · have hnot : ¬Reaches (off, data) p := by
      rintro ⟨hle, hlt⟩
      rw [hnil, length_nil] at hlt
      omega
    rw [writeAt, if_pos hnil, if_neg hnot]
  rw [writeAt, if_neg hnil]
  have hlen : ((file ++ List.replicate (off - file.length) 0).take off).length = off := by
    rw [length_take, length_append, length_replicate]
    omega
  simp only [getD_eq_getElem?_getD]
  rcases lt_or_ge p off with hlt | hge
  · -- before the write: the old file, or a hole
    rw [if_neg fun h => hlt.not_ge h.1, append_assoc, getElem?_append_left (by omega),
      getElem?_take_of_lt hlt, getElem?_append]
    split
    · rfl
    · rw [getElem?_replicate, getElem?_eq_none (by omega)]
      split <;> rfl
  · rw [append_assoc, getElem?_append_right (by omega), hlen, getElem?_append]
    by_cases hin : p < off + data.length
    · have hreach : Reaches (off, data) p := ⟨hge, hin⟩
      rw [if_pos hreach, if_pos (show p - off < data.length by omega)]
    · have hreach : ¬Reaches (off, data) p := fun h => hin h.2
      rw [if_neg hreach, if_neg (show ¬p - off < data.length by omega), getElem?_drop]
      congr 2
      omega

/-! ### Several writes -/

/-- The file after the writes, one after the other. -/
def written (ws : List (Nat × List α)) : List α :=
  ws.foldl (fun file w => writeAt file w.1 w.2) []

lemma written_concat (ws : List (Nat × List α)) (w : Nat × List α) :
    written (ws ++ [w]) = writeAt (written ws) w.1 w.2 := by
  rw [written, foldl_append]
  rfl

variable {ws : List (Nat × List α)} {p : Nat}

lemma getD_written_of_not (h : ∀ w ∈ ws, ¬Reaches w p) : (written ws).getD p 0 = 0 := by
  induction ws using List.reverseRecOn with
  | nil => rfl
  | append_singleton ws w ih =>
    rw [written_concat, getD_writeAt, if_neg (h w (mem_concat_self))]
    exact ih fun v hv => h v (mem_append_left _ hv)

lemma getD_written_of_last (hw : Reaches w p) (h : ∀ v ∈ later, ¬Reaches v p) :
    (written (ws ++ w :: later)).getD p 0 = w.2.getD (p - w.1) 0 := by
  induction later using List.reverseRecOn with
  | nil => rw [written_concat, getD_writeAt, if_pos hw]
  | append_singleton later v ih =>
    rw [← cons_append, ← append_assoc, written_concat, getD_writeAt,
      if_neg (h v (mem_concat_self))]
    exact ih fun u hu => h u (mem_append_left _ hu)

omit [Zero α] in
/-- Some write is the last one that reaches a place. -/
lemma exists_last (h : ∃ w ∈ ws, Reaches w p) :
    ∃ l₁ w l₂, ws = l₁ ++ w :: l₂ ∧ Reaches w p ∧ ∀ v ∈ l₂, ¬Reaches v p := by
  induction ws using List.reverseRecOn with
  | nil =>
    obtain ⟨w, hmem, -⟩ := h
    cases hmem
  | append_singleton ws w ih =>
    by_cases hw : Reaches w p
    · exact ⟨ws, w, [], rfl, hw, nofun⟩
    · obtain ⟨v, hv, hreach⟩ := h
      have hmem : v ∈ ws := (mem_append.mp hv).resolve_right fun hlast =>
        hw (mem_singleton.mp hlast ▸ hreach)
      obtain ⟨l₁, u, l₂, rfl, hu, hl₂⟩ := ih ⟨v, hmem, hreach⟩
      refine ⟨l₁, u, l₂ ++ [w], by rw [append_assoc, cons_append], hu, ?_⟩
      intro x hx
      rcases mem_append.mp hx with hx | hx
      · exact hl₂ x hx
      · rwa [mem_singleton.mp hx]

lemma lt_length_written : p < (written ws).length ↔ ∃ w ∈ ws, w.2 ≠ [] ∧ p < w.1 + w.2.length := by
  induction ws using List.reverseRecOn with
  | nil => simp [written]
  | append_singleton ws w ih =>
    simp only [written_concat, mem_append, mem_singleton, or_and_right, exists_or,
      exists_eq_left, ← ih]
    by_cases hnil : w.2 = []
    · rw [writeAt, if_pos hnil]
      exact (or_iff_left fun h => h.1 hnil).symm
    · rw [length_writeAt _ _ hnil, lt_max_iff]
      exact or_congr_right (and_iff_right hnil).symm

lemma Reaches.lt_length (hmem : w ∈ ws) (h : Reaches w p) : p < (written ws).length := by
  refine lt_length_written.mpr ⟨w, hmem, fun hnil => ?_, h.2⟩
  obtain ⟨hle, hlt⟩ := h
  rw [hnil, length_nil] at hlt
  omega

/-- What the writes have to leave for the result to be this file: each item that is not
overwritten is in its place, what is not reached is zero, and the last item is reached. -/
structure Leaves (ws : List (Nat × List α)) (file : List α) : Prop where
  item : ∀ l₁ w l₂, ws = l₁ ++ w :: l₂ → ∀ p, Reaches w p → (∀ v ∈ l₂, ¬Reaches v p) →
    file[p]? = some (w.2.getD (p - w.1) 0)
  hole : ∀ p < file.length, (∀ w ∈ ws, ¬Reaches w p) → file[p]? = some 0
  last : file ≠ [] → ∃ w ∈ ws, Reaches w (file.length - 1)

lemma getElem?_of_lt {l : List α} (h : p < l.length) : l[p]? = some (l.getD p 0) := by
  rw [getD_eq_getElem?_getD, getElem?_eq_getElem h]
  rfl

/-- The writes leave their result. -/
lemma leaves_written (ws : List (Nat × List α)) : Leaves ws (written ws) where
  item := by
    rintro l₁ w l₂ rfl p hreach hlater
    have hmem : w ∈ l₁ ++ w :: l₂ := mem_append_right l₁ (.head _)
    rw [getElem?_of_lt (hreach.lt_length hmem), getD_written_of_last hreach hlater]
  hole := by
    intro p hp hnot
    rw [getElem?_of_lt hp, getD_written_of_not hnot]
  last := by
    intro hne
    have hpos := length_pos_of_ne_nil hne
    obtain ⟨w, hmem, hw, hlt⟩ := lt_length_written.mp (Nat.sub_lt hpos Nat.one_pos)
    have hwpos := length_pos_of_ne_nil hw
    have hend : w.1 + w.2.length - 1 < (written ws).length :=
      lt_length_written.mpr ⟨w, hmem, hw, by omega⟩
    exact ⟨w, hmem, by omega, hlt⟩

lemma Leaves.getElem?_eq (hf : Leaves ws f) (hg : Leaves ws g)
    (h : ∃ w ∈ ws, Reaches w p) : f[p]? = g[p]? ∧ p < g.length := by
  obtain ⟨l₁, w, l₂, rfl, hw, hlater⟩ := exists_last h
  have hitem := hg.item l₁ w l₂ rfl p hw hlater
  refine ⟨(hf.item l₁ w l₂ rfl p hw hlater).trans hitem.symm, ?_⟩
  exact (List.getElem?_eq_some_iff.mp hitem).1

lemma Leaves.length_le (hf : Leaves ws f) (hg : Leaves ws g) : f.length ≤ g.length := by
  by_cases hnil : f = []
  · rw [hnil]
    exact Nat.zero_le _
  · have hlt := (hf.getElem?_eq hg (hf.last hnil)).2
    omega

/-- **When the writes give a certain file.** -/
theorem written_eq_iff {file : List α} : written ws = file ↔ Leaves ws file := by
  constructor
  · rintro rfl
    exact leaves_written ws
  · intro h
    have hw := leaves_written ws
    have hlen : (written ws).length = file.length := le_antisymm (hw.length_le h) (h.length_le hw)
    refine ext_getElem? fun p => ?_
    by_cases hreach : ∃ w ∈ ws, Reaches w p
    · exact (hw.getElem?_eq h hreach).1
    · push Not at hreach
      rcases lt_or_ge p file.length with hlt | hge
      · rw [hw.hole p (hlen ▸ hlt) hreach, h.hole p hlt hreach]
      · rw [getElem?_eq_none hge, getElem?_eq_none (hlen ▸ hge)]

end Magisk.Lib
