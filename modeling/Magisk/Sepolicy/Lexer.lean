import Magisk.Lib.Words
import Magisk.Sepolicy.Statement

/-!
# Lexing statements

The tokenizer looks for the first `{` of a word, then for the first `}`, then for the first comma,
and takes the parts on both sides apart in the same way.  A plain lexer goes from left to right.

* `pieces`: the words of a text with blanks around its delimiters, with the tildes before them cut
  off;
* `lex`: the plain lexer, with a token for each piece;
* `tokenizeStatement_eq_lex`: the tokenizer finds the same tokens, and nothing but whitespace is
  dropped.
-/

namespace Magisk.Sepolicy

open Magisk.Lib List Option

/-! ### The plain lexer -/

/-- The token of a delimiter. -/
def delimiter : Char → Option Token
  | '{' => some .LB
  | '}' => some .RB
  | ',' => some .CM
  | _ => none

/-- A text with blanks around its delimiters. -/
def spaced (s : List Char) : List Char :=
  s.flatMap fun c => if (delimiter c).isSome then [' ', c, ' '] else [c]

/-- The tildes in front of a word, and the rest of it. -/
def peel : List Char → List (List Char)
  | [] => []
  | c :: s => if c = '~' then ['~'] :: peel s else [c :: s]

/-- The pieces of a text. -/
def pieces (s : List Char) : List (List Char) := (words isWhitespace [] (spaced s)).flatMap peel

/-- The token of a piece. -/
def classify (s : List Char) : Token :=
  match s.head?.bind delimiter with
  | some t => t
  | none =>
    if s = ['~'] then .TL
    else
      match keyword (String.ofList s), parseXpermHex s with
      | some t, _ => t
      | none, some n => .HX n
      | none, none => .ID (String.ofList s)

/-- The plain lexer. -/
def lex (s : List Char) : List Token := (pieces s).map classify

/-! ### Texts that are put together -/

section Lex

variable {a b s : List Char} {c : Char} {t : Token}

lemma delimiter_eq_some :
    delimiter c = some t ↔ c = '{' ∧ t = .LB ∨ c = '}' ∧ t = .RB ∨ c = ',' ∧ t = .CM := by
  unfold delimiter
  split <;> simp_all [eq_comm]

lemma lex_cut (hc : delimiter c = some t) (a b : List Char) :
    lex (a ++ c :: b) = lex a ++ t :: lex b := by
  have hword : words isWhitespace [] [c] = [[c]] ∧ peel [c] = [[c]] := by
    rcases delimiter_eq_some.mp hc with ⟨rfl, -⟩ | ⟨rfl, -⟩ | ⟨rfl, -⟩ <;> decide
  have hspaced : spaced (a ++ c :: b) = spaced a ++ ' ' :: ([c] ++ ' ' :: spaced b) := by
    simp [spaced, hc]
  have hblank : isWhitespace ' ' = true := rfl
  rw [lex, pieces, hspaced, words_append_sep hblank, words_append_sep hblank, hword.1]
  simp [lex, pieces, hword.2, classify, hc]

lemma lex_append_blank (hc : isWhitespace c = true) (a b : List Char) :
    lex (a ++ c :: b) = lex a ++ lex b := by
  have hnone : delimiter c = none := by
    refine eq_none_iff_forall_ne_some.mpr fun t ht => ?_
    rcases delimiter_eq_some.mp ht with ⟨rfl, -⟩ | ⟨rfl, -⟩ | ⟨rfl, -⟩ <;> cases hc
  have hspaced : spaced (a ++ c :: b) = spaced a ++ c :: spaced b := by
    simp [spaced, hnone]
  simp [lex, pieces, hspaced, words_append_sep hc]

lemma lex_of_clean (hs : ∀ c ∈ s, delimiter c = none) (hword : ∀ c ∈ s, isWhitespace c = false) :
    lex s = (peel s).map classify := by
  have hspaced : spaced s = s := by
    rw [spaced, flatMap_congr fun c hc => by rw [hs c hc]]
    simp
  rw [lex, pieces, hspaced, words_of_clean hword]
  by_cases h : s = [] <;> simp [h, peel]

lemma lex_eq_flatMap (ha : ∀ c ∈ a, isWhitespace c = false) (s : List Char) :
    lex (a ++ s) = (words isWhitespace a s).flatMap lex := by
  have hnil : lex [] = [] := rfl
  induction s generalizing a with
  | nil => by_cases h : a = [] <;> simp [words, h, hnil]
  | cons c s ih =>
    by_cases hc : isWhitespace c = true
    · have hrest := ih (a := []) (by simp)
      rw [nil_append] at hrest
      rw [lex_append_blank hc]
      by_cases h : a = [] <;> simp [words, hc, h, hnil, hrest]
    · have hclean : ∀ d ∈ a ++ [c], isWhitespace d = false := by
        simpa [or_imp, forall_and] using And.intro ha (Bool.eq_false_iff.mpr hc)
      simpa [words, hc] using ih hclean

/-! ### The tokenizer -/

lemma takeWhile_append_dropWhile_tail (hc : c ∈ s) :
    s.takeWhile (· ≠ c) ++ c :: (s.dropWhile (· ≠ c)).tail = s := by
  induction s with
  | nil => cases hc
  | cons d s ih =>
    by_cases hd : d = c
    · simp [hd]
    · simpa [takeWhile_cons, dropWhile_cons, hd] using
        ih ((mem_cons.mp hc).resolve_left (Ne.symm hd))

lemma lex_of_keyword (h : keyword (String.ofList s) = some t) : lex s = [t] := by
  have htext : s = (String.ofList s).toList := String.toList_ofList.symm
  generalize String.ofList s = k at h htext
  subst htext
  unfold keyword at h
  split at h <;> cases h
  all_goals decide

/-- **A word is taken apart as by the plain lexer.**  The induction follows the recursion: the parts
beside a delimiter are shorter. -/
lemma extractToken_eq_lex (hfuel : s.length < fuel)
    (hword : ∀ c ∈ s, isWhitespace c = false) : extractToken fuel s = lex s := by
  induction fuel generalizing s with
  | zero => exact absurd hfuel (Nat.not_lt_zero _)
  | succ fuel ih =>
    have hcut : ∀ c t, delimiter c = some t → c ∈ s →
        extractToken fuel (s.takeWhile (· ≠ c)) ++
          t :: extractToken fuel ((s.dropWhile (· ≠ c)).tail) = lex s := by
      intro c t ht hc
      have hs := takeWhile_append_dropWhile_tail hc
      have hlen := congrArg List.length hs
      rw [length_append, length_cons] at hlen
      have hall : ∀ d, d ∈ s.takeWhile (· ≠ c) ∨ d ∈ (s.dropWhile (· ≠ c)).tail →
          isWhitespace d = false := by
        intro d hd
        refine hword d ?_
        rw [← hs, mem_append, mem_cons]
        exact hd.imp_right .inr
      rw [ih (by omega) fun d hd => hall d (.inl hd), ih (by omega) fun d hd => hall d (.inr hd),
        ← lex_cut ht, hs]
    rw [extractToken]
    cases hkey : keyword (String.ofList s) with
    | some t => exact (lex_of_keyword hkey).symm
    | none =>
      split_ifs with hnil hlb hrb hcm htl
      · rw [hnil]
        rfl
      · exact hcut '{' .LB rfl hlb
      · exact hcut '}' .RB rfl hrb
      · exact hcut ',' .CM rfl hcm
      all_goals
        have hclean : ∀ c ∈ s, delimiter c = none := by
          intro c hc
          refine eq_none_iff_forall_ne_some.mpr fun t ht => ?_
          rcases delimiter_eq_some.mp ht with ⟨rfl, -⟩ | ⟨rfl, -⟩ | ⟨rfl, -⟩ <;> contradiction
        rw [lex_of_clean hclean hword]
        obtain ⟨c, r, rfl⟩ := exists_cons_of_ne_nil hnil
      · obtain rfl : c = '~' := by simpa using htl
        have hclean' : ∀ c ∈ r, delimiter c = none := fun c hc => hclean c (by simp [hc])
        have hword' : ∀ c ∈ r, isWhitespace c = false := fun c hc => hword c (by simp [hc])
        rw [tail_cons, ih (by simpa using hfuel) hword', lex_of_clean hclean' hword']
        simp [peel, classify, delimiter]
      · have hne : c ≠ '~' := by simpa using htl
        have hc : delimiter c = none := hclean c (by simp)
        simp only [peel, hne, if_false, map_cons, map_nil, classify, head?_cons,
          bind_some, hc, hkey, List.cons.injEq, false_and]
        cases parseXpermHex (c :: r) <;> rfl

lemma splitWhitespace_eq_words (word s : List Char) :
    splitWhitespace word s = words isWhitespace word s := by
  induction s generalizing word with
  | nil => simp [splitWhitespace, words]
  | cons c s ih => simp [splitWhitespace, words, ih]

lemma flatten_peel : List.flatten ∘ peel = id := by
  funext s
  induction s with
  | nil => rfl
  | cons c s ih => by_cases h : c = '~' <;> simp_all [peel]

/-- **The tokenizer is the plain lexer**, and its tokens stand for the text in order, of which
nothing but whitespace is dropped. -/
theorem tokenizeStatement_eq_lex (s : List Char) :
    tokenizeStatement s = lex s ∧ (pieces s).flatten = s.filter (! isWhitespace ·) := by
  constructor
  · have hwords : ∀ w ∈ words isWhitespace [] s, extractToken (w.length + 1) w = lex w :=
      fun w hw => extractToken_eq_lex (Nat.lt_succ_self _) (mem_words hw (by simp)).2
    rw [tokenizeStatement, splitWhitespace_eq_words, flatMap_congr hwords,
      ← lex_eq_flatMap (by simp), nil_append]
  · have hspaced : (spaced s).filter (! isWhitespace ·) = s.filter (! isWhitespace ·) := by
      rw [spaced, filter_flatMap]
      induction s with
      | nil => rfl
      | cons c s ih =>
        rw [List.flatMap_cons, ih]
        cases hc : delimiter c with
        | none => by_cases h : isWhitespace c = true <;> simp [h]
        | some t =>
          rcases delimiter_eq_some.mp hc with ⟨rfl, -⟩ | ⟨rfl, -⟩ | ⟨rfl, -⟩ <;> simp [isWhitespace]
    calc (pieces s).flatten
        = (words isWhitespace [] (spaced s)).flatten := by
          rw [pieces, List.flatMap, List.flatten_flatten, List.map_map, flatten_peel, List.map_id]
      _ = s.filter (! isWhitespace ·) := by rw [flatten_words, nil_append, hspaced]

end Lex

end Magisk.Sepolicy
