import Magisk.Lib.Loop
import Magisk.Boot.Patch

/-!
# Search and replace

`byte_data::patch` overwrites each occurrence of a byte string, and `hexpatch` applies it to a
file with strings that are given in hexadecimal.

* `patchStep`: one turn of the loop;
* `hex2byte`, `hexpatch`: the command;
* `finder`, `occurrences`: the occurrences from left to right that do not overlap;
* `Searched`, `patch_replaced_iff`: when the patch only replaces these;
* `hexpatch_returns_iff`: when the command returns.
-/

namespace Magisk.Boot

open Magisk.Base Magisk.Lib List Option

/-! ### The code -/

/-- `memset` with zero. -/
def memsetZero (buf : Str) (p n : Nat) : Str := patch buf p (List.replicate n 0)

/-- `memcpy`, as far as the buffer goes. -/
def memcpy (buf : Str) (p : Nat) (src : Str) : Str := patch buf p (src.take (buf.length - p))

/-- The bytes of a `memcpy` that do not fit into the buffer. -/
def overrun (buf : Str) (p : Nat) (src : Str) : Str := src.drop (buf.length - p)

/-- The variables of `byte_data::patch`, and what was written behind the buffer. -/
structure Search where
  buf : Str
  p : Nat
  v : List Nat
  stray : List Str
  deriving DecidableEq

/-- The loop body of `byte_data::patch`. -/
def patchStep (src dst : Str) (s : Search) : Search ⊕ Search :=
  if s.p < s.buf.length then
    match memmem s.buf s.p s.buf.length src with
    | none => .inr s
    | some p =>
      .inl {
        buf := memcpy (memsetZero s.buf p src.length) p dst
        p := p + src.length
        v := s.v ++ [p]
        stray := s.stray ++ [overrun s.buf p dst].filter (· ≠ []) }
  else .inr s

/-- The variables when the loop starts. -/
def Search.start (buf : Str) : Search := ⟨buf, 0, [], []⟩

/-- A digit of `hex2byte`, in the arithmetic of `u8`. -/
def hexDigit (c : UInt8) : UInt8 :=
  let upper := if chr 'a' ≤ c ∧ c ≤ chr 'z' then c - 32 else c
  let d := upper - chr '0'
  if 9 < d then d - 7 else d

/-- `hex2byte`: a last digit without a second one is left out. -/
def hex2byte : Str → Str
  | high :: low :: hex => ((hexDigit high <<< 4) ||| hexDigit low) :: hex2byte hex
  | _ => []

/-- `MappedFile::open_rw`.  An empty file cannot be mapped. -/
def openRw (file : Option Str) : Option Str := file.filter (· ≠ [])

/-- `hexpatch` with a bound on the turns of its loop: what it returns, and what it leaves. -/
def hexpatch (n : Nat) (file : Option Str) (src dst : Str) : Option (Bool × Option Str) :=
  match openRw file with
  | none => some (false, file)
  | some map =>
    (turns (patchStep (hex2byte src) (hex2byte dst)) n (.start map)).map fun s =>
      (s.v ≠ [], some s.buf)

variable {src dst buf : Str}

/-! ### Occurrences -/

/-- Finds a byte string. -/
def finder (src : Str) (h : src ≠ []) : Lib.Matcher UInt8 where
  find l := if src <+: l then some src.length else none
  pos hfind := by
    split at hfind
    · cases hfind
      exact length_pos_of_ne_nil h
    · cases hfind
  le hfind := by
    split at hfind
    · rename_i hpre
      cases hfind
      exact hpre.length_le
    · cases hfind

/-- The offsets of the occurrences from left to right that do not overlap. -/
def occurrences (src : Str) (h : src ≠ []) (buf : Str) : List Nat := (finder src h).offsets 0 buf

variable {p q : Nat} {s t : Search}

lemma window_eq_iff : window buf p src.length = src ↔ src <+: buf.drop p := by
  rw [window, prefix_iff_eq_take, eq_comm]

lemma memmem_eq_some (h : memmem buf p buf.length src = some q) :
    p ≤ q ∧ q < buf.length ∧ src <+: buf.drop q ∧ ∀ j, p ≤ j → j < q → ¬src <+: buf.drop j := by
  rw [memmem, find?_range'_eq_some] at h
  obtain ⟨hq, hmem, hfirst⟩ := h
  rw [mem_range'_1] at hmem
  rw [Bool.and_eq_true, beq_iff_eq, window_eq_iff] at hq
  refine ⟨hmem.1, by omega, hq.2, fun j hj hjq hpre => ?_⟩
  have hnot := hfirst j hj hjq
  have hlen := hpre.length_le
  rw [length_drop] at hlen
  have hle : j + src.length ≤ buf.length := by omega
  simp [window_eq_iff.mpr hpre, hle] at hnot

lemma memmem_eq_none (h : memmem buf p buf.length src = none) :
    ∀ j, p ≤ j → j < buf.length → ¬src <+: buf.drop j := by
  intro j hj hjlen hpre
  rw [memmem, find?_eq_none] at h
  have hlen := hpre.length_le
  rw [length_drop] at hlen
  have hle : j + src.length ≤ buf.length := by omega
  have hnot := h j (mem_range'_1.mpr (by omega))
  simp [window_eq_iff.mpr hpre, hle] at hnot

lemma offsets_of_none (h : src ≠ []) (hp : p ≤ buf.length)
    (hm : memmem buf p buf.length src = none) :
    (finder src h).offsets p (buf.drop p) = [] := by
  have hskip := Matcher.offsets_skip (m := finder src h) (k := buf.length - p) (l := buf.drop p)
    (by rw [length_drop]) (fun j hj => ?_) p
  · rw [hskip, drop_drop, Nat.add_sub_cancel' hp, drop_length, Matcher.offsets_nil]
  · rw [drop_drop]
    exact if_neg (memmem_eq_none hm (p + j) (by omega) (by omega))

lemma offsets_of_some (h : src ≠ []) (hm : memmem buf p buf.length src = some q) :
    (finder src h).offsets p (buf.drop p) =
      q :: (finder src h).offsets (q + src.length) (buf.drop (q + src.length)) := by
  obtain ⟨hpq, hq, hpre, hfirst⟩ := memmem_eq_some hm
  have hskip := Matcher.offsets_skip (m := finder src h) (k := q - p) (l := buf.drop p)
    (by rw [length_drop]; omega) (fun j hj => ?_) p
  · rw [hskip, drop_drop, Nat.add_sub_cancel' hpq, Matcher.offsets_of_some (if_pos hpre),
      drop_drop]
  · rw [drop_drop]
    exact if_neg (hfirst (p + j) (by omega) (by omega))

/-! ### What the patch replaces -/

/-- The patch has replaced each occurrence by the other byte string, filled up with zeros, and
nothing else. -/
structure Replaced (src dst : Str) (h : src ≠ []) (buf : Str) (s : Search) : Prop where
  offsets : s.v = occurrences src h buf
  length : s.buf.length = buf.length
  windows : ∀ off ∈ s.v, window s.buf off src.length = padded src.length dst
  frame : ∀ i, (∀ off ∈ s.v, i < off ∨ off + src.length ≤ i) → s.buf[i]? = buf[i]?
  inside : s.stray = []

/-- What holds while the patch goes over a buffer. -/
structure Searched (src dst : Str) (h : src ≠ []) (buf : Str) (s : Search) : Prop where
  le : s.p ≤ buf.length
  length : s.buf.length = buf.length
  unread : s.buf.drop s.p = buf.drop s.p
  offsets : s.v ++ (finder src h).offsets s.p (buf.drop s.p) = occurrences src h buf
  before : ∀ off ∈ s.v, off + src.length ≤ s.p
  windows : ∀ off ∈ s.v, window s.buf off src.length = padded src.length dst
  frame : ∀ i, (∀ off ∈ s.v, i < off ∨ off + src.length ≤ i) → s.buf[i]? = buf[i]?
  inside : s.stray = []

lemma searched_start (h : src ≠ []) : Searched src dst h buf (.start buf) where
  le := Nat.zero_le _
  length := rfl
  unread := rfl
  offsets := rfl
  before := nofun
  windows := nofun
  frame _ _ := rfl
  inside := rfl

lemma length_padded (h : b.length ≤ n) : (padded n b).length = n := by
  rw [padded, length_append, length_replicate]
  omega

/-- A replacement that is not too long stays in its window. -/
lemma memcpy_memset (hlen : dst.length ≤ src.length) (hp : p + src.length ≤ buf.length) :
    memcpy (memsetZero buf p src.length) p dst = patch buf p (padded src.length dst) := by
  have hz : p + (List.replicate src.length (0 : UInt8)).length ≤ buf.length := by
    rw [length_replicate]
    exact hp
  have hpad := length_padded hlen
  have hbuf : (memsetZero buf p src.length).length = buf.length := length_patch hz
  rw [memcpy, take_of_length_le (by omega)]
  refine ext_getElem? fun i => ?_
  rw [getElem?_patch (by rw [hbuf]; omega), memsetZero, getElem?_patch hz,
    getElem?_patch (by rw [hpad]; exact hp), hpad, length_replicate]
  by_cases hi : p ≤ i ∧ i < p + src.length
  · by_cases hd : i < p + dst.length
    · rw [if_pos ⟨hi.1, hd⟩, if_pos hi, padded, getElem?_append_left (by omega)]
    · rw [if_neg fun h => hd h.2, if_pos hi, if_pos hi, padded,
        getElem?_append_right (by omega), getElem?_replicate_of_lt (by omega),
        getElem?_replicate_of_lt (by omega)]
  · rw [if_neg hi, if_neg hi, if_neg (by omega)]

/-- The search goes on. -/
lemma exists_of_patchStep (h : patchStep src dst s = .inl t) :
    ∃ p, memmem s.buf s.p s.buf.length src = some p ∧ t =
      { buf := memcpy (memsetZero s.buf p src.length) p dst
        p := p + src.length
        v := s.v ++ [p]
        stray := s.stray ++ [overrun s.buf p dst].filter (· ≠ []) } := by
  rw [patchStep] at h
  split at h
  · split at h
    · cases h
    · rename_i p hp
      exact ⟨p, hp, (Sum.inl.inj h).symm⟩
  · cases h

lemma eq_of_patchStep (h : patchStep src dst s = .inr t) :
    t = s ∧ (s.buf.length ≤ s.p ∨ memmem s.buf s.p s.buf.length src = none) := by
  rw [patchStep] at h
  split at h
  · split at h
    · rename_i hnone
      exact ⟨(Sum.inr.inj h).symm, .inr hnone⟩
    · cases h
  · exact ⟨(Sum.inr.inj h).symm, .inl (by omega)⟩

lemma drop_eq_of_le {buf' : Str} (h : buf'.drop p = buf.drop p) (hpq : p ≤ q) :
    buf'.drop q = buf.drop q := by
  rw [← Nat.add_sub_cancel' hpq, ← drop_drop, h, drop_drop]

lemma memmem_congr (hlen : buf'.length = buf.length) (hdrop : buf'.drop p = buf.drop p) :
    memmem buf' p buf'.length src = memmem buf p buf.length src := by
  rw [hlen]
  refine find?_congr fun q hq => ?_
  have hpq := (mem_range'_1.mp hq).1
  have hwindow : window buf' q src.length = window buf q src.length := by
    rw [window, window, drop_eq_of_le hdrop hpq]
  rw [hwindow]

/-- One occurrence is replaced. -/
lemma Searched.next (hs : Searched src dst h buf s) (hlen : dst.length ≤ src.length)
    (hstep : patchStep src dst s = .inl t) :
    Searched src dst h buf t ∧ buf.length - t.p < buf.length - s.p := by
  obtain ⟨p, hp, rfl⟩ := exists_of_patchStep hstep
  rw [memmem_congr hs.length hs.unread] at hp
  obtain ⟨hle, -, hpre, -⟩ := memmem_eq_some hp
  have hpos := length_pos_of_ne_nil h
  have hfit : p + src.length ≤ buf.length := by
    have := hpre.length_le
    rw [length_drop] at this
    omega
  have hpad := length_padded hlen
  have hpatch : p + (padded src.length dst).length ≤ s.buf.length := by
    rw [hpad, hs.length]
    exact hfit
  have hover : overrun s.buf p dst = [] := by
    rw [overrun, drop_eq_nil_of_le]
    omega
  rw [memcpy_memset hlen (by rw [hs.length]; exact hfit), hover]
  refine ⟨⟨hfit, ?_, ?_, ?_, ?_, ?_, ?_, ?_⟩, by simp only; omega⟩
  · rw [length_patch hpatch, hs.length]
  · refine ext_getElem? fun i => ?_
    simp only
    rw [← drop_eq_of_le hs.unread (show s.p ≤ p + src.length by omega), getElem?_drop,
      getElem?_drop, getElem?_patch hpatch, hpad, if_neg (by omega)]
  · simp only
    rw [append_assoc, singleton_append, ← offsets_of_some h hp, hs.offsets]
  · intro off hoff
    rcases mem_append.mp hoff with hoff | hoff
    · have := hs.before off hoff
      simp only
      omega
    · rw [mem_singleton.mp hoff]
  · intro off hoff
    rcases mem_append.mp hoff with hoff | hoff
    · have hbefore := hs.before off hoff
      rw [window_patch_of_disjoint hpatch (.inl (by omega)), hs.windows off hoff]
    · rw [mem_singleton.mp hoff]
      have hself := window_patch_self s.buf p _ hpatch
      rw [hpad] at hself
      exact hself
  · intro i hi
    have hold := hs.frame i fun off hoff => hi off (mem_append_left _ hoff)
    have hnew := hi p (mem_append_right _ (.head _))
    rw [getElem?_patch hpatch, if_neg (by omega), hold]
  · rw [hs.inside]
    rfl

lemma Searched.replaced (hs : Searched src dst h buf s)
    (hstep : patchStep src dst s = .inr t) : Replaced src dst h buf t := by
  obtain ⟨rfl, hend⟩ := eq_of_patchStep hstep
  have hoffsets := hs.offsets
  have hnone : (finder src h).offsets t.p (buf.drop t.p) = [] := by
    rcases hend with hge | hnone
    · rw [hs.length] at hge
      rw [drop_eq_nil_of_le hge, Matcher.offsets_nil]
    · rw [memmem_congr hs.length hs.unread] at hnone
      exact offsets_of_none h hs.le hnone
  rw [hnone, append_nil] at hoffsets
  exact ⟨hoffsets, hs.length, hs.windows, hs.frame, hs.inside⟩

lemma returns_replaced (h : src ≠ []) (hlen : dst.length ≤ src.length) (buf : Str) :
    ∃ s, Returns (patchStep src dst) (.start buf) s ∧ Replaced src dst h buf s := by
  obtain ⟨t, s, ht, hlast, hreturns⟩ := exists_returns (P := Searched src dst h buf)
    (fun s => buf.length - s.p) (searched_start h) fun s t hs hstep => hs.next hlen hstep
  exact ⟨s, hreturns, ht.replaced hlast⟩

/-- Nothing is found. -/
lemma memmem_eq_none_iff (h : src ≠ []) : memmem buf 0 buf.length src = none ↔ ¬src <:+: buf := by
  constructor
  · rintro hnone ⟨x, y, rfl⟩
    have hpos := length_pos_of_ne_nil h
    refine memmem_eq_none hnone x.length (Nat.zero_le _) ?_ ?_
    · simp only [length_append]
      omega
    · rw [append_assoc, drop_left]
      exact prefix_append _ _
  · intro hnot
    cases hm : memmem buf 0 buf.length src with
    | none => rfl
    | some p =>
      obtain ⟨-, -, hpre, -⟩ := memmem_eq_some hm
      exact absurd (hpre.isInfix.trans (drop_suffix p buf).isInfix) hnot

/-- **When a patch only replaces the occurrences**: the new byte string must not be longer than
the old one, or there is none. -/
theorem patch_replaced_iff (h : src ≠ []) (dst buf : Str) :
    (∃ s, Returns (patchStep src dst) (.start buf) s ∧ Replaced src dst h buf s) ↔
      dst.length ≤ src.length ∨ ¬src <:+: buf := by
  constructor
  · rintro ⟨s, -, hs⟩
    by_contra hnot
    rw [not_or, not_not] at hnot
    obtain ⟨hlong, hmem⟩ := hnot
    -- the first occurrence has no room for the new byte string
    cases hm : memmem buf 0 buf.length src with
    | none => exact (memmem_eq_none_iff h).mp hm hmem
    | some p =>
      have hp : p ∈ s.v := by
        rw [hs.offsets, occurrences, ← drop_zero (l := buf), offsets_of_some h hm]
        exact .head _
      have hlen := congrArg List.length (hs.windows p hp)
      have hle : (window s.buf p src.length).length ≤ src.length := length_take_le _ _
      rw [hlen, padded, length_append] at hle
      omega
  · rintro (hlen | hnot)
    · exact returns_replaced h hlen buf
    · have hnone := (memmem_eq_none_iff h).mpr hnot
      have hstep : patchStep src dst (.start buf) = .inr (.start buf) := by
        simp [patchStep, Search.start, hnone]
      refine ⟨_, returns_of_inr hstep, ?_, rfl, forall_mem_nil _, fun _ _ => rfl, rfl⟩
      exact (offsets_of_none h (Nat.zero_le _) hnone).symm

/-- Two occurrences are replaced by something shorter. -/
theorem patch_replaced_iff_shorter :
    ∃ s, Returns (patchStep [1, 2] [3]) (.start [0, 1, 2, 1, 2]) s ∧
      Replaced [1, 2] [3] (cons_ne_nil _ _) [0, 1, 2, 1, 2] s :=
  (patch_replaced_iff (cons_ne_nil _ _) [3] [0, 1, 2, 1, 2]).mpr (.inl (by decide))

/-- A longer byte string overwrites the next occurrence, which is then not found, and at the end
of the buffer it goes past it. -/
theorem patch_longer :
    turns (patchStep [1] [2, 3]) 3 (.start [1, 1]) = some ⟨[2, 3], 1, [0], []⟩ ∧
      occurrences [1] (cons_ne_nil _ _) [1, 1] = [0, 1] ∧
      turns (patchStep [1] [2, 3]) 3 (.start [1]) = some ⟨[2], 1, [0], [[3]]⟩ := by
  decide

/-! ### Whether the command returns -/

lemma hex2byte_eq_nil_iff : hex2byte hex = [] ↔ hex.length < 2 := by
  match hex with
  | [] => decide
  | [_] => exact iff_of_true rfl (Nat.lt_succ_self 1)
  | high :: low :: hex =>
    refine iff_of_false (cons_ne_nil _ _) ?_
    rw [length_cons, length_cons]
    omega

lemma patchStep_moves (h : patchStep src dst s = .inl t) :
    t.buf.length = s.buf.length ∧ s.p + src.length ≤ t.p ∧ t.p ≤ s.buf.length := by
  obtain ⟨p, hp, rfl⟩ := exists_of_patchStep h
  obtain ⟨hle, hlt, hpre, -⟩ := memmem_eq_some hp
  have hfit := hpre.length_le
  rw [length_drop] at hfit
  have hzero : (memsetZero s.buf p src.length).length = s.buf.length :=
    length_patch (by rw [length_replicate]; omega)
  refine ⟨?_, by simp only; omega, by simp only; omega⟩
  rw [memcpy, length_patch (by rw [length_take]; omega), hzero]

lemma patch_halts (h : src ≠ []) (dst buf : Str) : Halts (patchStep src dst) (.start buf) := by
  refine halts_of_measure (fun s => s.buf.length - s.p) (fun s t hstep => ?_) _
  have hpos := length_pos_of_ne_nil h
  have hmoves := patchStep_moves hstep
  omega

lemma patch_not_halts (dst : Str) (hbuf : buf ≠ []) : ¬Halts (patchStep [] dst) (.start buf) := by
  refine not_halts_of_invariant (P := fun s => s.p = 0 ∧ s.buf.length = buf.length) ⟨rfl, rfl⟩ ?_
  rintro s ⟨hp, hlen⟩
  have hpos := length_pos_of_ne_nil hbuf
  have hfound : memmem s.buf 0 s.buf.length [] = some 0 := by
    rw [memmem, find?_range'_eq_some]
    refine ⟨rfl, mem_range'_1.mpr (by omega), fun j _ hj => absurd hj (Nat.not_lt_zero j)⟩
  have hstep : ∃ t, patchStep [] dst s = .inl t ∧ t.p = 0 := by
    rw [patchStep, if_pos (by omega), hp, hfound]
    exact ⟨_, rfl, rfl⟩
  obtain ⟨t, ht, htp⟩ := hstep
  exact ⟨t, ht, htp, (patchStep_moves ht).1.trans hlen⟩

/-- **When `hexpatch` returns**: the file cannot be mapped, or two digits were given to search
for. -/
theorem hexpatch_returns_iff (file : Option Str) (src dst : Str) :
    (∃ n, (hexpatch n file src dst).isSome) ↔
      file = none ∨ file = some [] ∨ 2 ≤ src.length := by
  match file with
  | none => exact iff_of_true ⟨0, rfl⟩ (.inl rfl)
  | some [] => exact iff_of_true ⟨0, rfl⟩ (.inr (.inl rfl))
  | some (c :: l) =>
    have hreturns : (∃ n, (hexpatch n (some (c :: l)) src dst).isSome) ↔
        Halts (patchStep (hex2byte src) (hex2byte dst)) (.start (c :: l)) := by
      simp only [hexpatch, openRw, filter_some, ne_eq, reduceCtorEq, not_false_eq_true,
        decide_true, if_true, isSome_map, isSome_iff_exists]
      exact exists_comm
    rw [hreturns]
    by_cases hsrc : hex2byte src = []
    · have hlen := hex2byte_eq_nil_iff.mp hsrc
      rw [hsrc]
      refine iff_of_false (patch_not_halts _ (cons_ne_nil c l)) ?_
      rintro (h | h | h)
      · cases h
      · cases h
      · omega
    · have hlen := mt hex2byte_eq_nil_iff.mpr hsrc
      exact iff_of_true (patch_halts hsrc _ _) (.inr (.inr (by omega)))

/-- With one digit, nothing is searched for, and the search does not end. -/
theorem hexpatch_one_digit : ¬∃ n r, hexpatch n (some [7]) (str "0") (str "01") = some r := by
  rintro ⟨n, r, h⟩
  have hnot := patch_not_halts (hex2byte (str "01")) (cons_ne_nil 7 [])
  obtain ⟨s, hs, -⟩ := map_eq_some_iff.mp h
  exact hnot ⟨s, n, hs⟩

end Magisk.Boot
