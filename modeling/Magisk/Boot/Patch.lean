import Magisk.Boot.BootImg
import Magisk.Lib.Scan

/-!
# Removing flags from an fstab

`remove_pattern` deletes the matches of a matcher from a buffer, in place and with unchecked
accesses.

* `Patterns`, `matchPatterns`: the patterns of a matcher and `match_patterns!`;
* `removePattern`, `patchVerity`, `patchEncryption`: the loop and its two uses;
* `Patterns.matcher`, `Compacted`: the matcher as a function, and the invariant of the loop;
* `removePattern_scan`: the loop computes the scan of the bytes it was given;
* `kept_clean_iff`: when no pattern is left.
-/

namespace Magisk.Boot

open Magisk.Base Magisk.Lib List Option

/-! ### Patterns -/

/-- `','`, which may stand before a match. -/
def comma : UInt8 := chr ','

/-- `'='`, which starts the value of a flag. -/
def equals : UInt8 := chr '='

/-- `b" \n\0"`, the bytes that end a value. -/
def valueEnds : Str := [chr ' ', chr '\n', 0]

/-- The patterns of a matcher, in the order in which they are tried. -/
structure Patterns where
  list : List Str
  two_le : ∀ p ∈ list, 2 ≤ p.length
  plain : ∀ p ∈ list, comma ∉ p ∧ equals ∉ p
  /-- A pattern stands before those it starts with. -/
  ordered : ∀ p ∈ list, list.find? (·.isPrefixOf p) = some p

/-- The patterns of `match_verity_pattern`. -/
def verityPatterns : Patterns where
  list := [str "verifyatboot", str "verify", str "avb_keys", str "avb", str "support_scfs",
    str "fsverity"]
  two_le := by decide
  plain := by decide
  ordered := by decide

/-- The patterns of `match_encryption_pattern`. -/
def encryptionPatterns : Patterns where
  list := [str "forceencrypt", str "forcefdeorfbe", str "fileencryption"]
  two_le := by decide
  plain := by decide
  ordered := by decide

/-- `get_unchecked(i)`. -/
def getUnchecked (buf : Str) (i : Nat) : Except Fault UInt8 :=
  match buf[i]? with
  | some c => .ok c
  | none => .error .outOfBounds

/-- `get_unchecked(i..)`. -/
def getUncheckedFrom (buf : Str) (i : Nat) : Except Fault Str :=
  if i ≤ buf.length then .ok (buf.drop i) else .error .outOfBounds

/-- `*get_unchecked_mut(i) = c`. -/
def setUnchecked (buf : Str) (i : Nat) (c : UInt8) : Except Fault Str :=
  if i < buf.length then .ok (buf.set i c) else .error .outOfBounds

/-- The value behind a pattern: from `'='` up to a byte that ends it. -/
def valueLen (b : Str) : Nat :=
  if b.head? = some equals then (b.takeWhile (· ∉ valueEnds)).length else 0

/-- `match_patterns!`: the length of a comma, the first pattern that fits, and its value. -/
def matchPatterns (patterns : List Str) (buf : Str) : Except Fault (Option Nat) := do
  let first ← getUnchecked buf 0
  let len := if first = comma then 1 else 0
  let b ← getUncheckedFrom buf len
  if b = [] then .ok none
  else
    match patterns.find? (·.isPrefixOf b) with
    | none => .ok none
    | some p => do
        let b ← getUncheckedFrom buf (len + p.length)
        .ok (some (len + p.length + valueLen b))

/-- The variables of `remove_pattern`. -/
structure Removal where
  buf : Str
  write : Nat
  read : Nat
  sz : Nat

/-- The loop body of `remove_pattern`. -/
def removeStep (patterns : List Str) (s : Removal) : Except Fault (Removal ⊕ Removal) :=
  if s.read < s.buf.length then do
    let b ← getUncheckedFrom s.buf s.read
    match ← matchPatterns patterns b with
    | some len => do
        let _skipped ← load s.buf s.read len
        let sz ← sub s.sz len
        .ok (.inl { s with sz, read := s.read + len })
    | none => do
        let c ← getUnchecked s.buf s.read
        let buf ← setUnchecked s.buf s.write c
        .ok (.inl { s with buf, write := s.write + 1, read := s.read + 1 })
  else .ok (.inr s)

/-- The variables when the loop starts. -/
def Removal.start (buf : Str) : Removal := ⟨buf, 0, 0, buf.length⟩

variable {ps : Patterns} {buf : Str}

/-! ### The matcher -/

/-- The comma before a match. -/
def commaLen (buf : Str) : Nat := if buf.head? = some comma then 1 else 0

lemma commaLen_le (buf : Str) : commaLen buf ≤ buf.length := by
  rw [commaLen]
  split
  · rename_i h
    exact length_pos_of_ne_nil fun hnil => by rw [hnil] at h; cases h
  · exact Nat.zero_le _

lemma valueLen_le (b : Str) : valueLen b ≤ b.length := by
  rw [valueLen]
  split
  · exact ( takeWhile_prefix _).length_le
  · exact Nat.zero_le _

/-- The pattern that `match_patterns!` takes. -/
def Patterns.first (ps : Patterns) (b : Str) : Option Str := ps.list.find? (·.isPrefixOf b)

variable {b p : Str} {n : Nat} {s : Removal}

lemma Patterns.first_some (h : ps.first b = some p) : p ∈ ps.list ∧ p <+: b := by
  have hpre := find?_some h
  exact ⟨mem_of_find?_eq_some h, isPrefixOf_iff_prefix.mp hpre⟩

lemma Patterns.first_none : ps.first b = none ↔ ∀ p ∈ ps.list, ¬p <+: b := by
  rw [first]
  simp

lemma Patterns.ne_nil (hp : p ∈ ps.list) : p ≠ [] := by
  rintro rfl
  exact absurd (ps.two_le [] hp) (by decide)

/-- The length of the match at the front of a buffer. -/
def Patterns.find (ps : Patterns) (buf : Str) : Option Nat :=
  (ps.first (buf.drop (commaLen buf))).map fun p =>
    commaLen buf + p.length + valueLen (buf.drop (commaLen buf + p.length))

lemma Patterns.find_some (h : ps.find buf = some n) :
    ∃ p ∈ ps.list, p <+: buf.drop (commaLen buf) ∧
      n = commaLen buf + p.length + valueLen (buf.drop (commaLen buf + p.length)) := by
  obtain ⟨p, hp, rfl⟩ := map_eq_some_iff.mp h
  exact ⟨p, (first_some hp).1, (first_some hp).2, rfl⟩

lemma Patterns.find_le (h : ps.find buf = some n) : n ≤ buf.length := by
  obtain ⟨p, -, hpre, rfl⟩ := find_some h
  have hp := hpre.length_le
  have hv := valueLen_le (buf.drop (commaLen buf + p.length))
  have hc := commaLen_le buf
  rw [length_drop] at hp hv
  omega

/-- The matcher of some patterns. -/
def Patterns.matcher (ps : Patterns) : Lib.Matcher UInt8 where
  find := ps.find
  pos h := by
    obtain ⟨p, hp, -, rfl⟩ := find_some h
    have := ps.two_le p hp
    omega
  le h := find_le h

/-- `match_patterns!` stays inside of a buffer that is not empty. -/
lemma matchPatterns_eq (hne : buf ≠ []) :
    matchPatterns ps.list buf = .ok (ps.find buf) := by
  obtain ⟨c, l, rfl⟩ := exists_cons_of_ne_nil hne
  have hlen : (if c = comma then 1 else 0) = commaLen (c :: l) := by
    simp [commaLen]
  have hfrom : getUncheckedFrom (c :: l) (commaLen (c :: l)) =
      .ok ((c :: l).drop (commaLen (c :: l))) := if_pos (commaLen_le _)
  have hfirst : ps.first ((c :: l).drop (commaLen (c :: l))) =
      ps.list.find? (·.isPrefixOf ((c :: l).drop (commaLen (c :: l)))) := rfl
  rw [Patterns.find]
  refine bind_eq_ok.mpr ⟨c, rfl, ?_⟩
  simp only [hlen]
  refine bind_eq_ok.mpr ⟨_, hfrom, ?_⟩
  rw [← hfirst]
  cases hp : ps.first ((c :: l).drop (commaLen (c :: l))) with
  | none => split <;> rfl
  | some p =>
    obtain ⟨hmem, hpre⟩ := Patterns.first_some hp
    have hlen := hpre.length_le
    have hc := commaLen_le (c :: l)
    rw [length_drop] at hlen
    have hnil : (c :: l).drop (commaLen (c :: l)) ≠ [] := fun hnil => by
      rw [hnil, prefix_nil] at hpre
      exact Patterns.ne_nil hmem hpre
    rw [if_neg hnil]
    exact bind_eq_ok.mpr ⟨_, if_pos (by omega), rfl⟩

lemma removeStep_match (hread : s.read < s.buf.length)
    (hfind : ps.find (s.buf.drop s.read) = some n) (hsz : n ≤ s.sz) :
    removeStep ps.list s = .ok (.inl { s with sz := s.sz - n, read := s.read + n }) := by
  have hle := Patterns.find_le hfind
  rw [length_drop] at hle
  have hne : s.buf.drop s.read ≠ [] := ne_nil_of_length_pos (by rw [length_drop]; omega)
  rw [removeStep, if_pos hread]
  refine bind_eq_ok.mpr ⟨_, if_pos hread.le, bind_eq_ok.mpr ⟨some n, ?_, ?_⟩⟩
  · rw [matchPatterns_eq hne, hfind]
  · exact bind_eq_ok.mpr ⟨_, if_pos (by omega), bind_eq_ok.mpr ⟨_, if_pos hsz, rfl⟩⟩

/-- Another byte is copied. -/
lemma removeStep_copy (hb : s.buf.drop s.read = c :: b)
    (hfind : ps.find (c :: b) = none) (hwrite : s.write ≤ s.read) :
    removeStep ps.list s = .ok (.inl
      { s with buf := s.buf.set s.write c, write := s.write + 1, read := s.read + 1 }) := by
  have hread : s.read < s.buf.length := by
    by_contra hge
    rw [drop_eq_nil_of_le (by omega)] at hb
    cases hb
  have hc : s.buf[s.read]? = some c := by
    rw [← head?_drop, hb, head?_cons]
  rw [removeStep, if_pos hread]
  refine bind_eq_ok.mpr ⟨_, if_pos hread.le, bind_eq_ok.mpr ⟨none, ?_, ?_⟩⟩
  · rw [hb, matchPatterns_eq (cons_ne_nil c b), hfind]
  · refine bind_eq_ok.mpr ⟨c, ?_, bind_eq_ok.mpr ⟨_, if_pos (by omega), rfl⟩⟩
    rw [getUnchecked, hc]

/-- A step that goes on has read more of the buffer. -/
lemma removeStep_lt (h : removeStep ps.list s = .ok (.inl t)) :
    t.buf.length - t.read < s.buf.length - s.read := by
  rw [removeStep] at h
  split at h
  · rename_i hread
    obtain ⟨b, hb, h⟩ := bind_eq_ok.mp h
    obtain rfl : s.buf.drop s.read = b := by
      rw [getUncheckedFrom, if_pos hread.le] at hb
      exact Except.ok.inj hb
    have hne : s.buf.drop s.read ≠ [] :=
      ne_nil_of_length_pos (by rw [length_drop]; omega)
    obtain ⟨r, hr, h⟩ := bind_eq_ok.mp h
    rw [matchPatterns_eq hne] at hr
    cases r with
    | some n =>
      obtain ⟨_, -, h⟩ := bind_eq_ok.mp h
      obtain ⟨sz, -, h⟩ := bind_eq_ok.mp h
      cases h
      have hpos := ps.matcher.pos (Except.ok.inj hr)
      simp only
      omega
    | none =>
      obtain ⟨c, -, h⟩ := bind_eq_ok.mp h
      obtain ⟨buf', hset, h⟩ := bind_eq_ok.mp h
      cases h
      rw [setUnchecked] at hset
      split at hset
      · cases hset
        simp only [length_set]
        omega
      · cases hset
  · cases h

/-- `remove_pattern`: the buffer afterwards and the size that is returned. -/
def removePattern (ps : Patterns) (buf : Str) : Except Fault (Str × Nat) := do
  let s ← loop (removeStep ps.list) (fun s => s.buf.length - s.read)
    (fun _ _ h => removeStep_lt h) (Removal.start buf)
  .ok (s.buf.take s.write ++ List.replicate (s.buf.length - s.write) 0, s.sz)

/-- `patch_verity`. -/
def patchVerity (buf : Str) : Except Fault (Str × Nat) := removePattern verityPatterns buf

/-- `patch_encryption`. -/
def patchEncryption (buf : Str) : Except Fault (Str × Nat) := removePattern encryptionPatterns buf

/-! ### The loop is a scan -/

/-- What the scan for some patterns keeps of a buffer. -/
def Patterns.kept (ps : Patterns) (buf : Str) : Str := ps.matcher.scan buf

/-- Some bytes, and zeros behind them. -/
def padded (n : Nat) (b : Str) : Str := b ++ List.replicate (n - b.length) 0

/-- What holds of the variables while `buf` is compacted: the bytes that are still to be read are
those of `buf`, and before them stands what the scan has kept. -/
structure Compacted (ps : Patterns) (buf : Str) (s : Removal) : Prop where
  write_le : s.write ≤ s.read
  read_le : s.read ≤ buf.length
  length : s.buf.length = buf.length
  unread : s.buf.drop s.read = buf.drop s.read
  kept : s.buf.take s.write ++ ps.kept (buf.drop s.read) = ps.kept buf
  sz : s.sz + s.read = s.write + buf.length

lemma compacted_start : Compacted ps buf (.start buf) where
  write_le := le_rfl
  read_le := Nat.zero_le _
  length := rfl
  unread := rfl
  kept := rfl
  sz := by
    simp only [Removal.start]
    omega

/-- What is skipped. -/
lemma Compacted.skip (h : Compacted ps buf s) (hfind : ps.find (s.buf.drop s.read) = some n) :
    Compacted ps buf { s with sz := s.sz - n, read := s.read + n } := by
  have hle := Patterns.find_le hfind
  have hread := h.read_le
  have hwrite := h.write_le
  have hsz := h.sz
  rw [h.unread] at hfind hle
  rw [length_drop] at hle
  refine ⟨?_, ?_, h.length, ?_, ?_, ?_⟩
  · exact hwrite.trans (Nat.le_add_right _ _)
  · simp only
    omega
  · simp only [← drop_drop, h.unread]
  · rw [← h.kept]
    simp only [Patterns.kept, ← drop_drop]
    rw [← Matcher.scan_of_some hfind]
  · simp only
    omega

/-- What is copied.  The byte that is overwritten has been read. -/
lemma Compacted.copy (h : Compacted ps buf s) (hb : s.buf.drop s.read = c :: b)
    (hfind : ps.find (c :: b) = none) :
    Compacted ps buf
      { s with buf := s.buf.set s.write c, write := s.write + 1, read := s.read + 1 } := by
  have hwrite := h.write_le
  have hsz := h.sz
  have hlen := congrArg List.length hb
  rw [length_drop, h.length, length_cons] at hlen
  have hb' : s.buf.drop (s.read + 1) = b := by rw [← drop_drop, hb, drop_one, tail_cons]
  have hbuf : buf.drop (s.read + 1) = b := by
    rw [← drop_drop, ← h.unread, hb, drop_one, tail_cons]
  refine ⟨?_, ?_, ?_, ?_, ?_, ?_⟩
  · simp only
    omega
  · simp only
    omega
  · rw [length_set, h.length]
  · simp only
    rw [drop_set_of_lt (by omega), hb', hbuf]
  · simp only
    rw [hbuf, take_add_one, take_set_of_le le_rfl,
      getElem?_set_self (by rw [h.length]; omega), ← h.kept, ← h.unread, hb, Patterns.kept,
      Patterns.kept, Matcher.scan_of_none hfind]
    simp
  · simp only
    omega

/-- A turn of the loop. -/
lemma Compacted.step (h : Compacted ps buf s) :
    (s.read = buf.length ∧ removeStep ps.list s = .ok (.inr s)) ∨
      ∃ t, removeStep ps.list s = .ok (.inl t) ∧ Compacted ps buf t := by
  rcases h.read_le.eq_or_lt with heq | hlt
  · left
    refine ⟨heq, ?_⟩
    rw [removeStep, if_neg (by rw [h.length]; omega)]
  · right
    have hread : s.read < s.buf.length := by rw [h.length]; omega
    cases hfind : ps.find (s.buf.drop s.read) with
    | some n =>
      have hle := Patterns.find_le hfind
      rw [length_drop, h.length] at hle
      have hsz := h.sz
      exact ⟨_, removeStep_match hread hfind (by omega), h.skip hfind⟩
    | none =>
      have hb := drop_eq_getElem_cons hread
      rw [hb] at hfind
      exact ⟨_, removeStep_copy hb hfind h.write_le, h.copy hb hfind⟩

lemma compacted_visited (h : Visited (removeStep ps.list) (.start buf) s) : Compacted ps buf s := by
  refine h.invariant compacted_start fun s t hs hstep => ?_
  rcases hs.step with ⟨-, hdone⟩ | ⟨t', hnext, ht'⟩
  · cases hdone.symm.trans hstep
  · cases hnext.symm.trans hstep
    exact ht'

/-- The loop ends when it has read the whole buffer. -/
lemma removePattern_last (ps : Patterns) (buf : Str) :
    ∃ s, Visited (removeStep ps.list) (.start buf) s ∧ s.read = buf.length ∧
      s.write = (ps.kept buf).length ∧
      removePattern ps buf = .ok (padded buf.length (ps.kept buf), s.write) := by
  obtain ⟨s, hloop⟩ : Succeeds (loop (removeStep ps.list) (fun s => s.buf.length - s.read)
      (fun _ _ h => removeStep_lt h) (Removal.start buf)) := by
    refine (loop_succeeds_iff _).mpr fun s hs => ?_
    rcases (compacted_visited hs).step with ⟨-, hdone⟩ | ⟨t, hnext, -⟩
    · exact ⟨_, hdone⟩
    · exact ⟨_, hnext⟩
  obtain ⟨t, ht, hlast⟩ := exists_of_loop_eq_ok hloop
  have hc := compacted_visited ht
  rcases hc.step with ⟨hread, hdone⟩ | ⟨t', hnext, -⟩
  · obtain rfl : t = s := Sum.inr.inj (Except.ok.inj (hdone.symm.trans hlast))
    have hkept := hc.kept
    have hsz := hc.sz
    have hwrite := hc.write_le
    rw [hread, drop_length, Patterns.kept, Matcher.scan_nil, append_nil] at hkept
    have hlen : t.write = (ps.kept buf).length := by
      rw [← hkept, length_take, hc.length]
      omega
    refine ⟨t, ht, hread, hlen, bind_eq_ok.mpr ⟨t, hloop, ?_⟩⟩
    rw [hkept, hc.length, padded, show t.sz = t.write by omega, hlen]
  · cases hnext.symm.trans hlast

/-- **The loop computes the scan of the bytes it was given.**  It returns the number of bytes it
has written, the bytes behind them are zero, and at no turn does it leave the buffer. -/
theorem removePattern_scan (ps : Patterns) (buf : Str) :
    (∃ s, Visited (removeStep ps.list) (.start buf) s ∧ s.read = buf.length ∧
      s.write = (ps.kept buf).length ∧
      removePattern ps buf = .ok (padded buf.length (ps.kept buf), s.write)) ∧
    ∀ s, Visited (removeStep ps.list) (.start buf) s →
      s.write ≤ s.read ∧ s.read ≤ buf.length ∧ s.buf.length = buf.length ∧
      s.buf.drop s.read = buf.drop s.read ∧
      ∀ n, matchPatterns ps.list (s.buf.drop s.read) = .ok (some n) →
        s.read + n ≤ buf.length := by
  refine ⟨removePattern_last ps buf, fun s hs => ?_⟩
  have hc := compacted_visited hs
  refine ⟨hc.write_le, hc.read_le, hc.length, hc.unread, fun n hn => ?_⟩
  have hread := hc.read_le
  rcases eq_or_ne (s.buf.drop s.read) [] with hnil | hne
  · rw [hnil] at hn
    cases hn
  · rw [matchPatterns_eq hne] at hn
    have hle := Patterns.find_le (Except.ok.inj hn)
    rw [length_drop, hc.length] at hle
    omega

lemma removePattern_eq (ps : Patterns) (buf : Str) :
    removePattern ps buf = .ok (padded buf.length (ps.kept buf), (ps.kept buf).length) := by
  obtain ⟨s, -, -, hlen, heq⟩ := removePattern_last ps buf
  rw [heq, hlen]

/-! ### What is left of the patterns -/

lemma Patterns.find_ne_none (hp : p ∈ ps.list) (hb : p <+: b) : ps.find b ≠ none := by
  have hcomma : commaLen b = 0 := by
    obtain ⟨c, p', rfl⟩ := exists_cons_of_ne_nil (ne_nil hp)
    obtain ⟨b', rfl⟩ := hb
    refine if_neg fun h => ?_
    have hc : c = comma := some.inj h
    exact (ps.plain _ hp).1 (hc ▸ mem_cons_self)
  intro hnone
  rw [find, hcomma, map_eq_none_iff, first_none] at hnone
  exact hnone p hp hb

lemma Patterns.kept_eq_self (h : ∀ p ∈ ps.list, ¬p <:+: b) : ps.kept b = b := by
  refine Matcher.scan_eq_self fun b' hb' => ?_
  cases hfind : ps.find b' with
  | none => exact hfind
  | some n =>
    obtain ⟨p, hp, hpre, -⟩ := find_some hfind
    have hsuf : b'.drop (commaLen b') <:+: b :=
      (drop_suffix _ _).isInfix.trans hb'.isInfix
    exact absurd (hpre.isInfix.trans hsuf) (h p hp)

lemma take_padded (n : Nat) (b : Str) : (padded n b).take b.length = b := by
  rw [padded, take_left]

/-- **When no pattern is left**, so that a second patch changes nothing: the scan must not put
a pattern together from parts that had a match between them. -/
theorem kept_clean_iff (ps : Patterns) (buf : Str) :
    (∃ out sz, removePattern ps buf = .ok (out, sz) ∧
      (∀ p ∈ ps.list, ¬p <:+: out.take sz) ∧
      removePattern ps (out.take sz) = .ok (out.take sz, sz)) ↔
    ∀ b, ps.matcher.At buf b → ∀ p ∈ ps.list, ¬ps.matcher.Broken p b := by
  have hbroken (p : Str) (hp : p ∈ ps.list) :=
    Matcher.exists_broken (m := ps.matcher) (l := buf) (Patterns.ne_nil hp)
      fun _ hb => Patterns.find_ne_none hp hb
  constructor
  · rintro ⟨out, sz, heq, hclean, -⟩ b hat p hp hb
    rw [removePattern_eq] at heq
    cases heq
    rw [take_padded] at hclean
    exact hclean p hp ((hbroken p hp).mpr ⟨b, hat, hb⟩)
  · intro h
    have hclean (p : Str) (hp : p ∈ ps.list) : ¬p <:+: ps.kept buf := fun hmem => by
      obtain ⟨b, hat, hb⟩ := (hbroken p hp).mp hmem
      exact h b hat p hp hb
    refine ⟨_, _, removePattern_eq ps buf, ?_⟩
    rw [take_padded]
    refine ⟨hclean, ?_⟩
    rw [removePattern_eq, Patterns.kept_eq_self hclean, padded, Nat.sub_self,
      replicate_zero, append_nil]

/-- In `ververifyify` the pattern in the middle is removed, and the rest of it is a pattern. -/
theorem kept_ververifyify :
    patchVerity (str "ververifyify") = .ok (padded 12 (str "verify"), 6) ∧
      str "verify" ∈ verityPatterns.list ∧
      patchVerity (str "verify") = .ok (padded 6 [], 0) := by
  rw [patchVerity, patchVerity, removePattern_eq, removePattern_eq]
  decide

end Magisk.Boot
