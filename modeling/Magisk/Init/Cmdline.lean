import Magisk.Base.Str
import Mathlib.Tactic

/-!
# The kernel command line

`parse_impl` cuts a text into keys and values.  For `/proc/cmdline` the entries end with a space,
and the newline at the end of the file is not among the characters that it knows.

* `extractQuotedStrUntil`, `parseImpl`: the parser;
* `renderCmdline`, `renderBootconfig`: how the kernel shows its parameters;
* `not_roundTrips`: the last parameter is never read back.
-/

namespace Magisk.Init

open Magisk.Base List

/-- `extract_quoted_str_until`: the string, what is left of the text, and the quote flag. -/
def extractQuotedStrUntil (escapes breaks : Str) : Str → Bool → Str × Str × Bool
  | [], quoted => ([], [], quoted)
  | c :: s, quoted =>
    if c ∈ breaks ∨ (quoted = false ∧ c ∈ escapes) then ([], c :: s, quoted)
    else if c = chr '"' then extractQuotedStrUntil escapes breaks s !quoted
    else
      let r := extractQuotedStrUntil escapes breaks s quoted
      (c :: r.1, r.2)

/-- `parse_impl`, with a bound on the turns of its loop. -/
def parseImpl (delim eq : UInt8) (padding : Str) : Nat → Str → Bool → Option (List (Str × Str))
  | _, [], _ => some []
  | 0, _ :: _, _ => none
  | n + 1, c :: s, quoted =>
    let key := extractQuotedStrUntil (padding ++ [delim]) [eq] (c :: s) quoted
    match key.2.1.dropWhile (· ∈ eq :: padding) with
    | [] => some [(key.1, [])]
    | c :: s =>
      let value :=
        if c = delim then ([], c :: s, key.2.2)
        else extractQuotedStrUntil [delim] [] (c :: s) key.2.2
      (parseImpl delim eq padding n (value.2.1.dropWhile (· = delim)) value.2.2).map
        ((key.1, value.1) :: ·)

/-- `parse_cmdline`. -/
def parseCmdline (n : Nat) (s : Str) : Option (List (Str × Str)) :=
  parseImpl (chr ' ') (chr '=') [] n s false

/-- `parse_bootconfig`. -/
def parseBootconfig (n : Nat) (s : Str) : Option (List (Str × Str)) :=
  parseImpl (chr '\n') (chr '=') [chr ' '] n s false

/-! ### The parameters of the kernel -/

/-- A parameter, which may have no value. -/
structure Param where
  key : Str
  value : Option Str

/-- What the parameter should be parsed as. -/
def Param.pair (p : Param) : Str × Str := (p.key, p.value.getD [])

/-- A parameter of the command line.  A value with a blank is quoted. -/
def Param.text (p : Param) : Str :=
  match p.value with
  | none => p.key
  | some v => p.key ++ str "=" ++
      if v.any (· ∈ [chr ' ', chr '\t', chr '\n']) then str "\"" ++ v ++ str "\"" else v

/-- `/proc/cmdline`. -/
def renderCmdline (ps : List Param) : Str :=
  (ps.map Param.text).intersperse (str " ") |>.flatten |> (· ++ str "\n")

/-- `/proc/bootconfig`. -/
def renderBootconfig (ps : List Param) : Str :=
  ps.flatMap fun p => p.key ++ str " = \"" ++ p.value.getD [] ++ str "\"\n"

/-- The parameters are read back, from both of the files. -/
def RoundTrips (ps : List Param) : Prop :=
  (∃ n, parseCmdline n (renderCmdline ps) = some (ps.map Param.pair)) ∧
    ∃ n, parseBootconfig n (renderBootconfig ps) = some (ps.map Param.pair)

/-! ### Newlines -/

/-- The newlines of a text. -/
def newlines (s : Str) : Nat := s.count (chr '\n')

lemma newlines_append (s t : Str) : newlines (s ++ t) = newlines s + newlines t := count_append

/-- The newlines in some keys and values. -/
def pairNewlines (kv : List (Str × Str)) : Nat := (kv.map fun p => newlines p.1 + newlines p.2).sum

/-- Quotes are all that is lost of a text. -/
lemma newlines_extract (escapes breaks s : Str) (quoted : Bool) :
    newlines (extractQuotedStrUntil escapes breaks s quoted).1 +
      newlines (extractQuotedStrUntil escapes breaks s quoted).2.1 = newlines s := by
  induction s generalizing quoted with
  | nil => rfl
  | cons c s ih =>
    rw [extractQuotedStrUntil]
    split
    · exact Nat.zero_add _
    · split
      · rename_i hc
        rw [ih, hc]
        exact (count_cons_of_ne (by decide)).symm
      · simp only [newlines, count_cons] at ih ⊢
        rw [← ih quoted, Nat.add_right_comm]

lemma newlines_dropWhile (hp : p (chr '\n') = false) (s : Str) :
    newlines (s.dropWhile p) = newlines s := by
  induction s with
  | nil => rfl
  | cons c s ih =>
    rw [dropWhile_cons]
    split
    · rw [ih, newlines, newlines, count_cons_of_ne]
      rintro rfl
      simp_all
    · rfl

/-- **No newline is lost** by the parser of the command line. -/
lemma newlines_parseCmdline
    (h : parseImpl (chr ' ') (chr '=') [] n s quoted = some kv) : pairNewlines kv = newlines s := by
  induction n generalizing s quoted kv with
  | zero => cases s <;> simp_all [parseImpl, pairNewlines, newlines]
  | succ n ih =>
    cases s with
    | nil => simp_all [parseImpl, pairNewlines, newlines]
    | cons c s =>
      rw [parseImpl] at h
      have hkey := newlines_extract ([] ++ [chr ' ']) [chr '='] (c :: s) quoted
      generalize extractQuotedStrUntil _ [chr '='] (c :: s) quoted = key at h hkey
      rw [← newlines_dropWhile (p := (· ∈ [chr '='])) (by decide) key.2.1] at hkey
      split at h
      · rename_i hnil
        rw [hnil] at hkey
        cases h
        simpa [pairNewlines] using hkey
      · rename_i d t hcons
        rw [hcons] at hkey
        obtain ⟨kv', hkv', rfl⟩ := Option.map_eq_some_iff.mp h
        have hrest := ih hkv'
        rw [newlines_dropWhile (by decide)] at hrest
        have hvalue : ∀ v : Str × Str × Bool, v = (if d = chr ' ' then ([], d :: t, key.2.2)
            else extractQuotedStrUntil [chr ' '] [] (d :: t) key.2.2) →
              newlines v.1 + newlines v.2.1 = newlines (d :: t) := by
          rintro v rfl
          split
          · exact Nat.zero_add _
          · exact newlines_extract _ _ _ _
        have := hvalue _ rfl
        simp only [pairNewlines, map_cons, sum_cons] at hrest ⊢
        omega

lemma newlines_text (p : Param) :
    newlines p.text = newlines p.key + newlines (p.value.getD []) := by
  rw [Param.text]
  split
  · simp_all [newlines]
  · rename_i v hv
    have heq : newlines (str "=") = 0 := by decide
    have hquote : newlines (str "\"") = 0 := by decide
    rw [hv, Option.getD_some]
    split <;> simp only [newlines_append] <;> omega

lemma newlines_renderCmdline (ps : List Param) :
    newlines (renderCmdline ps) = pairNewlines (ps.map Param.pair) + 1 := by
  have hspace : newlines (str " ") = 0 := by decide
  rw [renderCmdline, newlines_append]
  congr 1
  induction ps with
  | nil => rfl
  | cons p ps ih =>
    have htext := newlines_text p
    cases ps with
    | nil => simpa [pairNewlines, Param.pair] using htext
    | cons q ps =>
      simp only [map_cons, intersperse_cons_cons, flatten_cons, newlines_append] at ih ⊢
      rw [htext, ih, hspace]
      simp [pairNewlines, Param.pair]

/-- **The parameters are never read back**: the newline of the command line is part of the last
one. -/
theorem not_roundTrips (ps : List Param) : ¬RoundTrips ps := by
  rintro ⟨⟨n, h⟩, -⟩
  have hparse := newlines_parseCmdline h
  rw [newlines_renderCmdline] at hparse
  omega

/-- The value that is read ends with the newline of the file. -/
theorem parseCmdline_newline : parseCmdline 1 (renderCmdline [⟨str "a", some (str "b")⟩]) =
    some [(str "a", str "b\n")] := by
  decide

end Magisk.Init
