import Magisk.Boot.Patch
import Mathlib.Data.List.TakeWhile

/-!
# Flags of an fstab

The patches look for their patterns in bytes.  Here they are compared with what they are to do
to a list of flags.

* `Flag`, `field`: a flag, and flags with commas between them;
* `Separable`: the fields in which the patterns stand only where flags are to be removed;
* `Patterns.Outcome`: what becomes of flags behind a comma;
* `removePattern_field_iff`: when the patch removes just the flags that it names.
-/

namespace Magisk.Boot

open Magisk.Base Magisk.Lib List Option

variable {ps : Patterns}

/-! ### Flags -/

/-- A flag of an fstab: a name, or a name and a value.  Neither has a comma, a space, a newline
or a NUL. -/
structure Flag where
  name : Str
  value : Option Str
  name_ne : name ≠ []
  name_plain : ∀ c ∈ name, c ≠ comma ∧ c ≠ equals ∧ c ∉ valueEnds
  value_plain : ∀ v ∈ value, ∀ c ∈ v, c ≠ comma ∧ c ∉ valueEnds

/-- A flag as it is written. -/
def Flag.text (f : Flag) : Str :=
  f.name ++ match f.value with
    | none => []
    | some v => equals :: v

/-- Flags with a comma before each of them. -/
def commaField (fs : List Flag) : Str := fs.flatMap fun f => comma :: f.text

/-- Flags with commas between them. -/
def field : List Flag → Str
  | [] => []
  | f :: fs => f.text ++ commaField fs

/-- The patch is to remove the flag. -/
def Patterns.Names (ps : Patterns) (f : Flag) : Prop := f.name ∈ ps.list

instance (f : Flag) : Decidable (ps.Names f) := inferInstanceAs (Decidable (f.name ∈ ps.list))

/-- The flags that the patch is to keep. -/
def Patterns.others (ps : Patterns) (fs : List Flag) : List Flag := fs.filter (¬ps.Names ·)

/-- No pattern stands in the text. -/
def Patterns.Clean (ps : Patterns) (r : Str) : Prop := ∀ p ∈ ps.list, ¬p <:+: r

/-- Flags behind a comma that are patched one by one: no pattern stands in a flag that is to be
kept, and none of those comes after a value that is removed. -/
structure Tidy (ps : Patterns) (fs : List Flag) : Prop where
  clean : ∀ f ∈ fs, ¬ps.Names f → ps.Clean f.text
  last : fs.Pairwise fun f g => ps.Names f → f.value ≠ none → ps.Names g

/-- Flags that are patched one by one.  If the first one is removed, its comma stays, so that
none may be left. -/
structure Separable (ps : Patterns) (fs : List Flag) : Prop extends Tidy ps fs where
  first : ∀ f ∈ fs.head?, ps.Names f → ∀ g ∈ fs, ps.Names g

/-! ### One flag -/

/-- A part of a flag's text has no comma and no byte that ends a value. -/
def FlagBytes (r : Str) : Prop := ∀ c ∈ r, c ≠ comma ∧ c ∉ valueEnds

lemma Flag.text_plain (f : Flag) : FlagBytes f.text := by
  intro c hc
  rw [text, mem_append] at hc
  rcases hc with hc | hc
  · exact ⟨(f.name_plain c hc).1, (f.name_plain c hc).2.2⟩
  · cases hv : f.value with
    | none =>
      rw [hv] at hc
      exact absurd hc not_mem_nil
    | some v =>
      rw [hv] at hc
      rcases mem_cons.mp hc with rfl | hc
      · decide
      · exact f.value_plain v hv c hc

variable {fs : List Flag} {p r pre out : Str} {f : Flag}

lemma notMem_valueEnds_commaField (hc : c ∈ commaField fs) : c ∉ valueEnds := by
  obtain ⟨f, -, hc⟩ := mem_flatMap.mp hc
  rcases mem_cons.mp hc with rfl | hc
  · decide
  · exact (f.text_plain c hc).2

lemma head?_commaField (fs : List Flag) :
    fs = [] ∨ (commaField fs).head? = some comma := by
  cases fs with
  | nil => exact .inl rfl
  | cons f fs => exact .inr rfl

/-- A pattern that stands in front of a field stands in the text before it. -/
lemma prefix_text_iff (hp : p ∈ ps.list) (fs : List Flag) : p <+: r ++ commaField fs ↔ p <+: r := by
  refine ⟨fun h => ?_, fun h => h.trans (prefix_append _ _)⟩
  rcases prefix_or_prefix_of_prefix h (prefix_append r _) with hpr | ⟨q, rfl⟩
  · exact hpr
  · cases q with
    | nil => exact (append_nil r).symm ▸ prefix_rfl
    | cons c q =>
      obtain ⟨t, ht⟩ := (prefix_append_right_inj r).mp h
      rcases head?_commaField fs with rfl | hfs
      · cases ht
      · rw [← ht] at hfs
        obtain rfl : c = comma := some.inj hfs
        exact absurd (mem_append_right r (.head _)) (ps.plain _ hp).1

lemma Patterns.first_text (r : Str) (fs : List Flag) :
    ps.first (r ++ commaField fs) = ps.first r := by
  refine find?_congr fun p hp => ?_
  rw [Bool.eq_iff_iff, isPrefixOf_iff_prefix, isPrefixOf_iff_prefix]
  exact prefix_text_iff hp fs

/-- Where the text has no comma, or one that is put before it. -/
def Opens (pre r : Str) (fs : List Flag) : Prop :=
  commaLen (pre ++ (r ++ commaField fs)) = pre.length

lemma opens_comma (r : Str) (fs : List Flag) : Opens [comma] r fs := rfl

lemma opens_nil (hr : FlagBytes r) (hne : r ≠ []) (fs : List Flag) : Opens [] r fs := by
  obtain ⟨c, r, rfl⟩ := exists_cons_of_ne_nil hne
  refine if_neg fun h => ?_
  exact (hr c (.head _)).1 (some.inj h)

variable (ps) in
lemma Opens.find_eq (h : Opens pre r fs) :
    ps.find (pre ++ (r ++ commaField fs)) = (ps.first r).map fun p =>
      pre.length + p.length + valueLen ((r ++ commaField fs).drop p.length) := by
  rw [Patterns.find, h, drop_left, Patterns.first_text]
  simp only [← drop_drop, drop_left]

lemma Opens.find_eq_none (h : Opens pre r fs) (hfirst : ps.first r = none) :
    ps.find (pre ++ (r ++ commaField fs)) = none := by
  rw [h.find_eq, hfirst, map_none]

/-- A pattern without a value is skipped. -/
lemma Opens.kept_skip (h : Opens pre (p ++ r) fs) (hfirst : ps.first (p ++ r) = some p)
    (hr : r.head? ≠ some equals) :
    ps.kept (pre ++ (p ++ r ++ commaField fs)) = ps.kept (r ++ commaField fs) := by
  have hvalue : valueLen (r ++ commaField fs) = 0 := by
    refine if_neg fun heq => ?_
    cases r with
    | nil =>
      rcases head?_commaField fs with rfl | hfs
      · cases heq
      · rw [nil_append, hfs] at heq
        exact absurd (some.inj heq) (by decide)
    | cons c r => exact hr heq
  have hfind := h.find_eq ps
  rw [hfirst, map_some, append_assoc, drop_left, hvalue, Nat.add_zero] at hfind
  rw [Patterns.kept, append_assoc, Matcher.scan_of_some hfind, ← drop_drop,
    drop_left, drop_left, Patterns.kept]

/-- With a pattern that has a value the rest of the field is skipped. -/
lemma Opens.kept_cut (h : Opens pre (p ++ equals :: r) fs)
    (hfirst : ps.first (p ++ equals :: r) = some p) (hr : FlagBytes r) :
    ps.kept (pre ++ (p ++ equals :: r ++ commaField fs)) = [] := by
  have hvalue : valueLen (equals :: r ++ commaField fs) =
      (equals :: r ++ commaField fs).length := by
    rw [valueLen, cons_append, head?_cons, if_pos rfl, takeWhile_eq_self_iff.mpr]
    intro c hc
    rcases mem_cons.mp hc with rfl | hc
    · decide
    · rw [decide_eq_true_eq]
      rcases mem_append.mp hc with hc | hc
      · exact (hr c hc).2
      · exact notMem_valueEnds_commaField hc
  have hfind := h.find_eq ps
  rw [hfirst, map_some, append_assoc, drop_left, hvalue] at hfind
  rw [Patterns.kept, append_assoc, Matcher.scan_of_some hfind, ← drop_drop,
    ← drop_drop, drop_left, drop_left, drop_length, Matcher.scan_nil]

/-- A pattern that stands in front of a flag stands in front of its name. -/
lemma prefix_name (hp : p ∈ ps.list) (h : p <+: f.text) : p <+: f.name := by
  rcases prefix_or_prefix_of_prefix h (prefix_append f.name _) with hpf | ⟨q, rfl⟩
  · exact hpf
  · cases q with
    | nil => exact (append_nil f.name).symm ▸ prefix_rfl
    | cons c q =>
      obtain ⟨t, ht⟩ := (prefix_append_right_inj f.name).mp h
      cases hv : f.value with
      | none =>
        rw [hv] at ht
        cases ht
      | some v =>
        rw [hv] at ht
        obtain rfl : c = equals := (cons.inj ht).1
        exact absurd (mem_append_right f.name (.head _)) (ps.plain _ hp).2

lemma Patterns.Names.first_text (h : ps.Names f) : ps.first f.text = some f.name := by
  rw [← ps.ordered f.name h]
  refine find?_congr fun p hp => ?_
  rw [Bool.eq_iff_iff, isPrefixOf_iff_prefix, isPrefixOf_iff_prefix]
  exact ⟨prefix_name hp, fun hpre => hpre.trans (prefix_append _ _)⟩

/-- Another flag goes on behind the pattern, and not with a value. -/
lemma Flag.exists_rest (h : ¬ps.Names f) (hfirst : ps.first f.text = some p) :
    ∃ r, f.text = p ++ r ∧ r.head? ≠ some equals := by
  obtain ⟨hp, hpre⟩ := Patterns.first_some hfirst
  obtain ⟨q, hq⟩ := prefix_name hp hpre
  cases q with
  | nil =>
    rw [append_nil] at hq
    exact absurd (hq ▸ hp : f.name ∈ ps.list) h
  | cons c q =>
    refine ⟨c :: q ++ _, by rw [text, ← hq, append_assoc], fun heq => ?_⟩
    obtain rfl : c = equals := some.inj heq
    have hmem : equals ∈ f.name := hq ▸ mem_append_right p (.head _)
    exact (f.name_plain _ hmem).2.1 rfl

/-! ### Tidy fields -/

lemma others_cons_named (h : ps.Names f) : ps.others (f :: fs) = ps.others fs :=
  filter_cons_of_neg (by simpa using h)

lemma others_cons_other (h : ¬ps.Names f) : ps.others (f :: fs) = f :: ps.others fs :=
  filter_cons_of_pos (by simpa using h)

lemma others_eq_nil_iff : ps.others fs = [] ↔ ∀ g ∈ fs, ps.Names g := by
  simp [Patterns.others]

lemma tidy_of_others (h : ps.others fs = []) : Tidy ps fs := by
  rw [others_eq_nil_iff] at h
  exact ⟨fun f hf hnot => absurd (h f hf) hnot,
    pairwise_of_forall_mem_list fun _ _ g hg _ _ => h g hg⟩

lemma tidy_cons_named (h : ps.Names f) (hv : f.value = none) : Tidy ps (f :: fs) ↔ Tidy ps fs := by
  constructor
  · intro ht
    exact ⟨fun g hg => ht.clean g (mem_cons_of_mem f hg), ht.last.of_cons⟩
  · intro ht
    refine ⟨fun g hg hnot => ?_, pairwise_cons.mpr ⟨fun g _ _ hne => absurd hv hne, ht.last⟩⟩
    rcases mem_cons.mp hg with rfl | hg
    · exact absurd h hnot
    · exact ht.clean g hg hnot

lemma tidy_cons_value (h : ps.Names f) (hv : f.value ≠ none) :
    Tidy ps (f :: fs) ↔ ps.others fs = [] := by
  rw [others_eq_nil_iff]
  constructor
  · intro ht g hg
    exact rel_of_pairwise_cons ht.last hg h hv
  · intro hall
    refine tidy_of_others (others_eq_nil_iff.mpr ?_)
    exact forall_mem_cons.mpr ⟨h, hall⟩

lemma tidy_cons_other (h : ¬ps.Names f) : Tidy ps (f :: fs) ↔ ps.Clean f.text ∧ Tidy ps fs := by
  constructor
  · intro ht
    exact ⟨ht.clean f (.head _) h,
      fun g hg => ht.clean g (mem_cons_of_mem f hg), ht.last.of_cons⟩
  · rintro ⟨hclean, ht⟩
    refine ⟨fun g hg hnot => ?_, pairwise_cons.mpr ⟨fun g _ hf => absurd hf h, ht.last⟩⟩
    rcases mem_cons.mp hg with rfl | hg
    · exact hclean
    · exact ht.clean g hg hnot

/-- Either the rest of a flag and the flags behind it are patched one by one, or at least two
bytes too many are lost. -/
def Patterns.Outcome (ps : Patterns) (r : Str) (fs : List Flag) (out : Str) : Prop :=
  (ps.Clean r ∧ Tidy ps fs ∧ out = r ++ commaField (ps.others fs)) ∨
    (¬(ps.Clean r ∧ Tidy ps fs) ∧ out.length + 2 ≤ r.length + (commaField (ps.others fs)).length)

lemma Patterns.Outcome.le (h : ps.Outcome r fs out) :
    out.length ≤ r.length + (commaField (ps.others fs)).length := by
  rcases h with ⟨-, -, rfl⟩ | ⟨-, h⟩
  · rw [length_append]
  · omega

lemma outcome_of_prefix (hp : p ∈ ps.list)
    (h : out.length ≤ r.length + (commaField (ps.others fs)).length) :
    ps.Outcome (p ++ r) fs out := by
  have hlen := ps.two_le p hp
  refine .inr ⟨fun hc => hc.1 p hp (prefix_append p r).isInfix, ?_⟩
  rw [length_append]
  omega

lemma Patterns.Outcome.cons (h : ps.Outcome r fs out)
    (hfirst : ps.first (c :: r) = none) : ps.Outcome (c :: r) fs (c :: out) := by
  have hclean : ps.Clean (c :: r) ↔ ps.Clean r := by
    rw [first_none] at hfirst
    refine forall₂_congr fun p hp => ?_
    rw [infix_cons_iff, or_iff_right (hfirst p hp)]
  rcases h with ⟨hr, ht, rfl⟩ | ⟨hnot, hlen⟩
  · exact .inl ⟨hclean.mpr hr, ht, rfl⟩
  · refine .inr ⟨by rwa [hclean], ?_⟩
    rw [length_cons, length_cons]
    omega

/-- The rest of a flag, once the flags behind it are done. -/
lemma outcome_text (hr : FlagBytes r) (hfs : ps.Outcome [] fs (ps.kept (commaField fs))) :
    ps.Outcome r fs (ps.kept (r ++ commaField fs)) := by
  induction hn : r.length using Nat.strong_induction_on generalizing r with
  | _ n ih =>
    rcases eq_or_ne r [] with rfl | hne
    · exact hfs
    have hopens := opens_nil hr hne fs
    cases hfirst : ps.first r with
    | none =>
      obtain ⟨c, r, rfl⟩ := exists_cons_of_ne_nil hne
      have hkeep : ps.kept (c :: r ++ commaField fs) = c :: ps.kept (r ++ commaField fs) :=
        Matcher.scan_of_none (hopens.find_eq_none hfirst)
      rw [hkeep]
      have hr' : FlagBytes r := fun d hd => hr d (mem_cons_of_mem c hd)
      exact (ih _ (by rw [← hn, length_cons]; omega) hr' rfl).cons hfirst
    | some p =>
      obtain ⟨hp, r', rfl⟩ := Patterns.first_some hfirst
      have hr' : FlagBytes r' := fun d hd => hr d (mem_append_right p hd)
      refine outcome_of_prefix hp ?_
      by_cases heq : r'.head? = some equals
      · obtain ⟨r'', rfl⟩ := head?_eq_some_iff.mp heq
        have hcut := hopens.kept_cut hfirst fun d hd => hr' d (.tail _ hd)
        rw [nil_append] at hcut
        rw [hcut]
        exact Nat.zero_le _
      · have hskip := hopens.kept_skip hfirst heq
        have hlen := ps.two_le p hp
        rw [nil_append] at hskip
        rw [hskip]
        exact (ih _ (by rw [← hn, length_append]; omega) hr' rfl).le

/-- A flag that is to be removed.  With a value, all flags behind it go. -/
lemma kept_named (hopens : Opens pre f.text fs) (h : ps.Names f) :
    ps.kept (pre ++ (f.text ++ commaField fs)) =
      if f.value = none then ps.kept (commaField fs) else [] := by
  have hfirst := h.first_text
  cases hv : f.value with
  | none =>
    have htext : f.text = f.name ++ [] := by rw [Flag.text, hv]
    rw [htext] at hopens hfirst ⊢
    rw [if_pos rfl, hopens.kept_skip hfirst nofun, nil_append]
  | some v =>
    have htext : f.text = f.name ++ equals :: v := by rw [Flag.text, hv]
    rw [htext] at hopens hfirst ⊢
    rw [if_neg nofun, hopens.kept_cut hfirst (f.value_plain v hv)]

lemma two_le_length_commaField (h : fs ≠ []) : 2 ≤ (commaField fs).length := by
  obtain ⟨f, fs, rfl⟩ := exists_cons_of_ne_nil h
  have hf := length_pos_of_ne_nil f.name_ne
  simp only [commaField, flatMap_cons, Flag.text, length_append, length_cons]
  omega

variable (ps) in
/-- Flags with commas before them. -/
lemma outcome_commaField (fs : List Flag) : ps.Outcome [] fs (ps.kept (commaField fs)) := by
  have hnil : ps.Clean [] := fun p hp hmem => Patterns.ne_nil hp (infix_nil.mp hmem)
  induction fs with
  | nil => exact .inl ⟨hnil, tidy_of_others rfl, Matcher.scan_nil _⟩
  | cons f fs ih =>
    have hopens := opens_comma f.text fs
    have hcons : commaField (f :: fs) = [comma] ++ (f.text ++ commaField fs) := rfl
    by_cases hf : ps.Names f
    · rw [hcons, kept_named hopens hf, Patterns.Outcome, others_cons_named hf]
      by_cases hv : f.value = none
      · rw [if_pos hv, tidy_cons_named hf hv]
        exact ih
      · rw [if_neg hv, tidy_cons_value hf hv]
        rcases hfs : ps.others fs with _ | ⟨g, gs⟩
        · exact .inl ⟨hnil, rfl, rfl⟩
        · -- the flag `g` is lost, with its comma
          refine .inr ⟨nofun, ?_⟩
          rw [length_nil, Nat.zero_add, Nat.zero_add]
          exact two_le_length_commaField (cons_ne_nil g gs)
    · have htext := outcome_text f.text_plain ih
      have hlen : (commaField (ps.others (f :: fs))).length =
          1 + (f.text.length + (commaField (ps.others fs)).length) := by
        rw [others_cons_other hf]
        simp only [commaField, flatMap_cons, length_append, length_cons]
        omega
      rw [Patterns.Outcome, tidy_cons_other hf, hlen]
      simp only [hnil, true_and]
      cases hfirst : ps.first f.text with
      | none =>
        have hkeep : ps.kept (commaField (f :: fs)) =
            comma :: ps.kept (f.text ++ commaField fs) :=
          Matcher.scan_of_none (hopens.find_eq_none hfirst)
        rw [hkeep, others_cons_other hf]
        rcases htext with ⟨hclean, ht, hout⟩ | ⟨hnot, hle⟩
        · exact .inl ⟨⟨hclean, ht⟩, by rw [hout]; rfl⟩
        · refine .inr ⟨hnot, ?_⟩
          rw [length_cons]
          omega
      | some p =>
        obtain ⟨r, hr, hhead⟩ := Flag.exists_rest hf hfirst
        have hp := (Patterns.first_some hfirst).1
        have hplen := ps.two_le p hp
        have hplain := f.text_plain
        rw [hr] at hopens hfirst hplain ⊢
        have hrest := (outcome_text (fun c hc => hplain c (mem_append_right p hc)) ih).le
        rw [hcons, hr, hopens.kept_skip hfirst hhead]
        refine .inr ⟨fun hc => hc.1 p hp (prefix_append p r).isInfix, ?_⟩
        rw [length_append]
        omega

lemma length_field (h : fs ≠ []) : (field fs).length + 1 = (commaField fs).length := by
  obtain ⟨f, fs, rfl⟩ := exists_cons_of_ne_nil h
  simp only [field, commaField, flatMap_cons, length_append, length_cons]
  omega

/-- The scan removes just the flags that the patch names if and only if the field is separable. -/
lemma kept_field_iff (ps : Patterns) (fs : List Flag) :
    ps.kept (field fs) = field (ps.others fs) ↔ Separable ps fs := by
  cases fs with
  | nil => exact ⟨fun _ => ⟨tidy_of_others rfl, nofun⟩, fun _ => Matcher.scan_nil _⟩
  | cons f fs =>
    have hne : f.text ≠ [] := fun h => f.name_ne (append_eq_nil_iff.mp h).1
    have hopens := opens_nil f.text_plain hne fs
    have hfs := outcome_commaField ps fs
    by_cases hf : ps.Names f
    · have hkept := kept_named hopens hf
      rw [nil_append] at hkept
      rw [field, hkept, others_cons_named hf]
      by_cases hall : ps.others fs = []
      · -- nothing is to be kept, and nothing is
        have hsep : Separable ps (f :: fs) := by
          refine ⟨tidy_of_others ((others_cons_named hf).trans hall), fun _ _ _ => ?_⟩
          exact forall_mem_cons.mpr ⟨hf, others_eq_nil_iff.mp hall⟩
        refine iff_of_true ?_ hsep
        rw [hall]
        split
        · have hle := hfs.le
          rw [hall] at hle
          exact length_eq_zero_iff.mp (Nat.le_zero.mp hle)
        · rfl
      · -- the comma of the first flag is still there
        refine iff_of_false (fun heq => ?_) fun hsep => hall ?_
        · have hlen := length_field hall
          have htwo := two_le_length_commaField hall
          rw [← heq] at hlen
          split at hlen
          · rcases hfs with ⟨-, -, hout⟩ | ⟨-, hle⟩
            · rw [hout, nil_append] at hlen
              omega
            · rw [length_nil] at hle
              omega
          · rw [length_nil] at hlen
            omega
        · refine others_eq_nil_iff.mpr fun g hg => ?_
          exact hsep.first f rfl hf g (mem_cons_of_mem f hg)
    · have htext := outcome_text f.text_plain hfs
      have hsep : Separable ps (f :: fs) ↔ ps.Clean f.text ∧ Tidy ps fs := by
        rw [← tidy_cons_other hf]
        exact ⟨fun h => h.toTidy, fun h => ⟨h, fun g hg hnames => absurd
          (some.inj hg ▸ hnames) hf⟩⟩
      rw [hsep, others_cons_other hf, field, field]
      rcases htext with ⟨hclean, ht, hout⟩ | ⟨hnot, hle⟩
      · exact iff_of_true hout ⟨hclean, ht⟩
      · refine iff_of_false (fun heq => ?_) hnot
        rw [heq, length_append] at hle
        omega

/-- **When a patch removes just the flags that it names**, with their values, and keeps the other
ones as they are. -/
theorem removePattern_field_iff (ps : Patterns) (fs : List Flag) :
    removePattern ps (field fs) =
      .ok (padded (field fs).length (field (ps.others fs)), (field (ps.others fs)).length) ↔
    Separable ps fs := by
  rw [← kept_field_iff, removePattern_eq]
  constructor
  · intro h
    obtain ⟨hpad, hlen⟩ := Prod.mk.inj (Except.ok.inj h)
    rw [← take_padded (field fs).length (ps.kept (field fs)), hpad, hlen, take_padded]
  · intro h
    rw [h]

lemma forall_of_all {p : UInt8 → Prop} [DecidablePred p] {text : Str}
    (h : text.all (fun c => decide (p c)) = true) : ∀ c ∈ text, p c := by
  simpa using h

/-- `wait,avb=vbmeta,first_stage_mount`. -/
def sampleFlags : List Flag :=
  [⟨str "wait", none, by decide, forall_of_all (by decide), nofun⟩,
    ⟨str "avb", some (str "vbmeta"), by decide, forall_of_all (by decide),
      fun _ h => some.inj h ▸ forall_of_all (by decide)⟩,
    ⟨str "first_stage_mount", none, by decide, forall_of_all (by decide), nofun⟩]

/-- The value that is removed goes on to the end of the field, and takes a flag with it. -/
theorem patchVerity_sampleFlags :
    patchVerity (field sampleFlags) = .ok (padded 33 (str "wait"), 4) ∧
      field (verityPatterns.others sampleFlags) = str "wait,first_stage_mount" := by
  rw [patchVerity, removePattern_eq]
  decide

end Magisk.Boot
