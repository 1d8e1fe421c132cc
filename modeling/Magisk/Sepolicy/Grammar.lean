import Magisk.Sepolicy.Statement
import Magisk.Lib.Result

/-!
# The grammar of policy statements

The grammar that stands in the comments of the parser, and the same grammar with
empty brace lists: the parser accepts the second one.

* `Sterm`, `Term`, `XpermsText`, `Rule`: the productions, with the call a statement
  makes;
* `rule_of_parseCall`: what the parser accepts is derivable;
* `exists_parseCall_of_rule`: what is derivable is accepted;
* `hasEmptyBraces_of_rule`: no derivation of the comments' grammar holds an empty
  brace list;
* `faithful_iff`: the parser keeps to the grammar of the comments exactly on the
  statements without an empty brace list.
-/

namespace Magisk.Sepolicy

open List Option

open Token hiding ST
open Magisk.Lib (bind_eq_ok)

/-! ### Productions -/

/-- `names`; stars are names of an `sterm` only. -/
inductive Names (star : Bool) : List Token → Prop
  | id (n : String) : Names star [ID n]
  | st : star = true → Names star [.ST]
  | snocId {ts : List Token} (n : String) : Names star ts → Names star (ts ++ [ID n])
  | snocSt {ts : List Token} : star = true → Names star ts → Names star (ts ++ [.ST])

/-- `sterm`; with `empty`, also an empty brace list. -/
inductive Sterm (empty : Bool) : List Token → Prop
  | st : Sterm empty [.ST]
  | id (n : String) : Sterm empty [ID n]
  | braces {ts : List Token} : Names true ts → Sterm empty (LB :: (ts ++ [RB]))
  | none : empty = true → Sterm empty [LB, RB]

/-- `term`; with `empty`, also an empty brace list. -/
inductive Term (empty : Bool) : List Token → Prop
  | id (n : String) : Term empty [ID n]
  | braces {ts : List Token} : Names false ts → Term empty (LB :: (ts ++ [RB]))
  | none : empty = true → Term empty [LB, RB]

/-- `xperm`. -/
inductive XpermText : List Token → Prop
  | value (low : UInt16) : XpermText [HX low]
  | range (low high : UInt16) : XpermText [HX low, HP, HX high]
  | text {s : String} : (parseXpermRange s.toList).isSome → XpermText [ID s]

/-- `xperm_list`. -/
inductive XpermListText : List Token → Prop
  | one {ts : List Token} : XpermText ts → XpermListText ts
  | snoc {ts us : List Token} : XpermListText ts → XpermText us → XpermListText (ts ++ us)

/-- `xperms`. -/
inductive XpermsText : List Token → Prop
  | value (low : UInt16) : XpermsText [HX low]
  | text {s : String} : (parseXpermRange s.toList).isSome → XpermsText [ID s]
  | braces {ts : List Token} : XpermListText ts → XpermsText (LB :: (ts ++ [RB]))
  | tilde {ts : List Token} : XpermListText ts → XpermsText (TL :: LB :: (ts ++ [RB]))
  | st : XpermsText [.ST]

/-- An `sterm` argument and the list that is passed for it: an empty list, which
matches all, stands for a star. -/
def StermArg (empty : Bool) (ts : List Token) (names : List String) : Prop :=
  Sterm empty ts ∧ (empty = false → names = [] → Token.ST ∈ ts)

/-- A `term` argument and the list that is passed for it. -/
def TermArg (empty : Bool) (ts : List Token) (names : List String) : Prop :=
  Term empty ts ∧ (empty = false → names = [] → Token.ST ∈ ts)

/-- The access vector statements. -/
inductive AvAction : Token → (List String → List String → List String → List String → Call) → Prop
  | allow : AvAction AL .allow
  | deny : AvAction DN .deny
  | auditallow : AvAction AA .auditallow
  | dontaudit : AvAction DA .dontaudit

/-- The extended permission statements. -/
inductive XpermAction : Token → (List String → List String → List String → List Xperm → Call) → Prop
  | allowxperm : XpermAction AX .allowxperm
  | auditallowxperm : XpermAction AY .auditallowxperm
  | dontauditxperm : XpermAction DX .dontauditxperm

/-- The type state statements. -/
inductive StateAction : Token → (List String → Call) → Prop
  | permissive : StateAction PM .permissive
  | enforce : StateAction EF .enforce

/-- The type rule statements. -/
inductive TypeAction : Token → (String → String → String → String → Call) → Prop
  | typeChange : TypeAction TC .typeChange
  | typeMember : TypeAction TM .typeMember

/-- `statement`, and the call it makes.  The parser asks for `ioctl` where the comments
have any identifier. -/
inductive Rule (empty : Bool) : List Token → Call → Prop
  | av {a : Token} {call} {s t c p : List Token} {vs vt vc vp : List String} : AvAction a call →
      StermArg empty s vs → StermArg empty t vt → StermArg empty c vc → StermArg empty p vp →
      Rule empty (a :: (s ++ (t ++ (c ++ p)))) (call vs vt vc vp)
  | xperm {a : Token} {call} {s t c p : List Token} {vs vt vc : List String} {i : String}
      {vp : List Xperm} : XpermAction a call → StermArg empty s vs → StermArg empty t vt →
      StermArg empty c vc → (empty = true → i = "ioctl") → XpermsText p →
      Rule empty (a :: (s ++ (t ++ (c ++ (ID i :: p))))) (call vs vt vc vp)
  | state {a : Token} {call} {t : List Token} {vt : List String} : StateAction a call →
      StermArg empty t vt → Rule empty (a :: t) (call vt)
  | typeattribute {t a : List Token} {vt va : List String} :
      TermArg empty t vt → TermArg empty a va → Rule empty (TA :: (t ++ a)) (.typeattribute vt va)
  | type (t : String) : Rule empty [TY, ID t] (.type t [])
  | typeAttrs (t : String) {a : List Token} {va : List String} : TermArg empty a va →
      Rule empty (TY :: ID t :: a) (.type t va)
  | newAttr (t : String) : Rule empty [AT, ID t] (.attribute t)
  | typeRule {a : Token} {call} (s t c d : String) : TypeAction a call →
      Rule empty [a, ID s, ID t, ID c, ID d] (call s t c d)
  | typeTransition (s t c d : String) :
      Rule empty [TT, ID s, ID t, ID c, ID d] (.typeTransition s t c d "")
  | filenameTransition (s t c d o : String) :
      Rule empty [TT, ID s, ID t, ID c, ID d, ID o] (.typeTransition s t c d o)
  | genfscon (s t c : String) : Rule empty [GF, ID s, ID t, ID c] (.genfscon s t c)

/-! ### Empty brace lists -/

/-- Does an opening brace stand right before a closing one? -/
def hasEmptyBraces : List Token → Bool
  | [] => false
  | t :: ts => (t = LB && ts.head? = some RB) || hasEmptyBraces ts

variable {us seg ts rest : List Token} {xs : List Xperm} {call : Call} {a : Token}

lemma hasEmptyBraces_append_eq_false (h : hasEmptyBraces (ts ++ us) = false) :
    hasEmptyBraces ts = false ∧ hasEmptyBraces us = false := by
  induction ts with
  | nil => exact ⟨rfl, h⟩
  | cons t ts ih =>
    rw [cons_append, hasEmptyBraces, Bool.or_eq_false_iff] at h
    obtain ⟨hts, hus⟩ := ih h.2
    refine ⟨?_, hus⟩
    rw [hasEmptyBraces, hts, Bool.or_false]
    cases ts with
    | nil => simp
    | cons u ts => exact h.1

/-- Parts without empty braces make a whole without, unless a brace is left open at the
seam. -/
lemma hasEmptyBraces_append (hts : hasEmptyBraces ts = false) (hlast : ts.getLast? ≠ some LB)
    (hus : hasEmptyBraces us = false) : hasEmptyBraces (ts ++ us) = false := by
  induction ts with
  | nil => exact hus
  | cons t ts ih =>
    rw [hasEmptyBraces, Bool.or_eq_false_iff] at hts
    cases ts with
    | nil =>
      have ht : t ≠ LB := fun h => hlast (by rw [h]; rfl)
      rw [cons_append, nil_append, hasEmptyBraces, hus]
      simp [ht]
    | cons u ts =>
      rw [cons_append, hasEmptyBraces,
        ih hts.2 (by rwa [getLast?_cons_cons] at hlast), Bool.or_false]
      exact hts.1

/-! ### What the parsers of arguments accept -/

/-- A name, or a star where stars are names. -/
def IsName (star : Bool) (t : Token) : Prop := (∃ n, t = ID n) ∨ (star = true ∧ t = .ST)

/-- `names` are one name or more. -/
lemma names_iff {star : Bool} : Names star ts ↔ ts ≠ [] ∧ ∀ t ∈ ts, IsName star t := by
  constructor
  · intro h
    induction h with
    | id n => exact ⟨cons_ne_nil _ _, by simp [IsName]⟩
    | st hs => exact ⟨cons_ne_nil _ _, by simp [IsName, hs]⟩
    | snocId n _ ih =>
      refine ⟨by simp, fun t ht => ?_⟩
      rcases mem_append.mp ht with ht | ht
      · exact ih.2 t ht
      · exact .inl ⟨n, mem_singleton.mp ht⟩
    | snocSt hs _ ih =>
      refine ⟨by simp, fun t ht => ?_⟩
      rcases mem_append.mp ht with ht | ht
      · exact ih.2 t ht
      · exact .inr ⟨hs, mem_singleton.mp ht⟩
  · rintro ⟨hne, hall⟩
    induction ts using List.reverseRecOn with
    | nil => exact absurd rfl hne
    | append_singleton ts t ih =>
      have hts : ∀ u ∈ ts, IsName star u := fun u hu => hall u (mem_append_left _ hu)
      rcases hall t (mem_append_right _ (.head _)) with ⟨n, rfl⟩ | ⟨hs, rfl⟩
      · by_cases hnil : ts = []
        · rw [hnil]
          exact .id n
        · exact .snocId n (ih hnil hts)
      · by_cases hnil : ts = []
        · rw [hnil]
          exact .st hs
        · exact .snocSt hs (ih hnil hts)

/-- The loop of `parse_sterm` takes names up to a closing brace, and gives no names only
if there are none or a star is among them. -/
lemma stermNames_sound (h : stermNames names ts = .ok (v, rest)) :
    ∃ seg, ts = seg ++ RB :: rest ∧ (∀ t ∈ seg, IsName true t) ∧
      (v = [] → names = none ∨ Token.ST ∈ seg ∨ (names = some [] ∧ seg = [])) := by
  induction ts generalizing names with
  | nil => simp [stermNames] at h
  | cons t ts ih =>
    cases t with
    | ID n =>
      obtain ⟨seg, rfl, hall, hv⟩ := ih h
      refine ⟨ID n :: seg, rfl, ?_, fun hnil => ?_⟩
      · exact forall_mem_cons.mpr ⟨.inl ⟨n, rfl⟩, hall⟩
      · rcases hv hnil with hn | hst | ⟨hn, -⟩
        · exact .inl (map_eq_none_iff.mp hn)
        · exact .inr (.inl (.tail _ hst))
        · -- a name has been pushed
          obtain ⟨l, -, hl⟩ := map_eq_some_iff.mp hn
          simp at hl
    | ST =>
      obtain ⟨seg, rfl, hall, -⟩ := ih h
      refine ⟨.ST :: seg, rfl, ?_, fun _ => .inr (.inl (.head _))⟩
      exact forall_mem_cons.mpr ⟨.inr ⟨rfl, rfl⟩, hall⟩
    | RB =>
      cases h
      refine ⟨[], rfl, by simp, fun hnil => ?_⟩
      cases names with
      | none => exact .inl rfl
      | some l => exact .inr (.inr ⟨by rw [← hnil]; rfl, rfl⟩)
    | _ => simp [stermNames] at h

/-- The loop of `parse_term` takes names up to a closing brace, and gives no names only
if there are none. -/
lemma termNames_sound (h : termNames names ts = .ok (v, rest)) :
    ∃ seg, ts = seg ++ RB :: rest ∧ (∀ t ∈ seg, IsName false t) ∧
      (v = [] → names = [] ∧ seg = []) := by
  induction ts generalizing names with
  | nil => simp [termNames] at h
  | cons t ts ih =>
    cases t with
    | ID n =>
      obtain ⟨seg, rfl, hall, hv⟩ := ih h
      refine ⟨ID n :: seg, rfl, ?_, fun hnil => ?_⟩
      · exact forall_mem_cons.mpr ⟨.inl ⟨n, rfl⟩, hall⟩
      · exact absurd (hv hnil).1 (by simp)
    | RB =>
      cases h
      exact ⟨[], rfl, by simp, fun hnil => ⟨hnil, rfl⟩⟩
    | _ => simp [termNames] at h

section Sound

variable {empty : Bool} {v : List String}

/-- The tokens may hold empty braces only where the grammar has them. -/
def BracesOk (empty : Bool) (ts : List Token) : Prop := empty = true ∨ hasEmptyBraces ts = false

lemma BracesOk.of_append (h : BracesOk empty (seg ++ rest)) : BracesOk empty rest :=
  h.imp_right fun h => (hasEmptyBraces_append_eq_false h).2

lemma BracesOk.of_cons (h : BracesOk empty (t :: ts)) : BracesOk empty ts :=
  (show BracesOk empty ([t] ++ ts) from h).of_append

/-- `parse_sterm` accepts an `sterm`. -/
lemma parseSterm_sound (hb : BracesOk empty ts) (h : parseSterm ts = .ok (v, rest)) :
    ∃ seg, ts = seg ++ rest ∧ StermArg empty seg v := by
  match ts with
  | [] => simp [parseSterm] at h
  | ID n :: ts =>
    cases h
    exact ⟨[ID n], rfl, .id n, by simp⟩
  | .ST :: ts =>
    cases h
    exact ⟨[.ST], rfl, .st, by simp⟩
  | LB :: ts =>
    obtain ⟨seg, rfl, hall, hv⟩ := stermNames_sound h
    refine ⟨LB :: (seg ++ [RB]), by simp, ?_⟩
    by_cases hseg : seg = []
    · subst hseg
      have hempty : empty = true := hb.resolve_right (by simp [hasEmptyBraces])
      exact ⟨.none hempty, fun hf => by rw [hempty] at hf; cases hf⟩
    · refine ⟨.braces (names_iff.mpr ⟨hseg, hall⟩), fun _ hnil => ?_⟩
      rcases hv hnil with hn | hst | ⟨-, hn⟩
      · cases hn
      · exact .tail _ (mem_append_left _ hst)
      · exact absurd hn hseg

/-- `parse_term` accepts a `term`. -/
lemma parseTerm_sound (hb : BracesOk empty ts) (h : parseTerm ts = .ok (v, rest)) :
    ∃ seg, ts = seg ++ rest ∧ TermArg empty seg v := by
  match ts with
  | [] => simp [parseTerm] at h
  | ID n :: ts =>
    cases h
    exact ⟨[ID n], rfl, .id n, by simp⟩
  | LB :: ts =>
    obtain ⟨seg, rfl, hall, hv⟩ := termNames_sound h
    refine ⟨LB :: (seg ++ [RB]), by simp, ?_⟩
    by_cases hseg : seg = []
    · subst hseg
      have hempty : empty = true := hb.resolve_right (by simp [hasEmptyBraces])
      exact ⟨.none hempty, fun hf => by rw [hempty] at hf; cases hf⟩
    · exact ⟨.braces (names_iff.mpr ⟨hseg, hall⟩), fun _ hnil => absurd (hv hnil).2 hseg⟩

lemma parseId_sound (h : parseId ts = .ok (n, rest)) : ts = ID n :: rest := by
  match ts with
  | [] => simp [parseId] at h
  | ID m :: ts =>
    cases h
    rfl

lemma matchString_sound (h : matchString pattern ts = .ok (u, rest)) : ts = ID pattern :: rest := by
  match ts with
  | [] => simp [matchString] at h
  | ID s :: ts =>
    simp only [matchString] at h
    split_ifs at h with hs
    cases h
    rw [hs]

/-- `parse_xperm` accepts an `xperm`. -/
lemma parseXperm_sound (h : parseXperm ts = .ok (x, rest)) :
    ∃ seg, ts = seg ++ rest ∧ XpermText seg := by
  rw [parseXperm.eq_def] at h
  split at h
  · rename_i low high tokens
    cases h
    exact ⟨_, rfl, .range low high⟩
  · cases h
  · rename_i low tokens _ _
    cases h
    exact ⟨_, rfl, .value low⟩
  · rename_i s tokens
    split at h
    · rename_i hr
      cases h
      exact ⟨_, rfl, .text (by rw [hr]; rfl)⟩
    · cases h
  · cases h

/-- The loop of `parse_xperms` accepts an `xperm_list` with its closing brace. -/
lemma xpermList_sound (h : xpermList fuel reset xs ts = .ok (ys, rest)) :
    ∃ seg, ts = seg ++ RB :: rest ∧
      ∀ pre, (pre = [] ∨ XpermListText pre) → XpermListText (pre ++ seg) := by
  induction fuel generalizing xs ts with
  | zero => simp [xpermList] at h
  | succ fuel ih =>
    obtain ⟨⟨x, us⟩, hx, hloop⟩ := bind_eq_ok.mp h
    obtain ⟨one, rfl, hone⟩ := parseXperm_sound hx
    have hpre : ∀ pre, (pre = [] ∨ XpermListText pre) → XpermListText (pre ++ one) := by
      rintro pre (rfl | hpre)
      · exact .one hone
      · exact .snoc hpre hone
    simp only at hloop
    split at hloop
    · cases hloop
      exact ⟨one, rfl, hpre⟩
    · obtain ⟨seg, rfl, hseg⟩ := ih hloop
      refine ⟨one ++ seg, by simp, fun pre hp => ?_⟩
      rw [← append_assoc]
      exact hseg _ (.inr (hpre pre hp))

/-- The second half of `parse_xperms` accepts `xperms` without a tilde; with one, a
brace list. -/
lemma parseXpermsBody_sound (h : parseXpermsBody reset ts = .ok (xs, rest)) :
    ∃ seg, ts = seg ++ rest ∧ XpermsText seg ∧
      (ts.head? = some LB → XpermsText (TL :: seg)) := by
  match ts with
  | [] => simp [parseXpermsBody] at h
  | LB :: ts =>
    obtain ⟨seg, rfl, hseg⟩ := xpermList_sound h
    have hlist := hseg [] (.inl rfl)
    exact ⟨LB :: (seg ++ [RB]), by simp, .braces hlist, fun _ => .tilde hlist⟩
  | .ST :: ts =>
    cases h
    exact ⟨[.ST], rfl, .st, by simp⟩
  | HX low :: ts =>
    simp only [parseXpermsBody] at h
    split_ifs at h <;> cases h <;> exact ⟨[HX low], rfl, .value low, by simp⟩
  | ID s :: ts =>
    simp only [parseXpermsBody] at h
    split at h
    · rename_i hr
      cases h
      exact ⟨[ID s], rfl, .text (by rw [hr]; rfl), by simp⟩
    · cases h

lemma parseXperms_sound (h : parseXperms ts = .ok (xs, rest)) :
    ∃ seg, ts = seg ++ rest ∧ XpermsText seg := by
  rw [parseXperms.eq_def] at h
  split at h
  · obtain ⟨seg, hseg, -, htilde⟩ := parseXpermsBody_sound h
    exact ⟨TL :: seg, by rw [hseg]; rfl, htilde rfl⟩
  · cases h
  · obtain ⟨seg, hseg, hx, -⟩ := parseXpermsBody_sound h
    exact ⟨seg, hseg, hx⟩

/-! The steps of a branch: one argument after the other, and then the end. -/

lemma of_parse {p : Parser (List String)} {P : List Token → List String → Prop}
    (hp : ∀ {v rest}, p ts = .ok (v, rest) → ∃ seg, ts = seg ++ rest ∧ P seg v)
    (hb : BracesOk empty ts) (h : (p ts >>= k) = .ok call) :
    ∃ v rest seg, ts = seg ++ rest ∧ P seg v ∧ BracesOk empty rest ∧ k (v, rest) = .ok call := by
  obtain ⟨⟨v, rest⟩, hok, hk⟩ := bind_eq_ok.mp h
  obtain ⟨seg, rfl, harg⟩ := hp hok
  exact ⟨v, rest, seg, rfl, harg, hb.of_append, hk⟩

lemma of_parseId (h : (parseId ts >>= k) = .ok call) :
    ∃ n rest, ts = ID n :: rest ∧ k (n, rest) = .ok call := by
  obtain ⟨⟨n, rest⟩, hp, hk⟩ := bind_eq_ok.mp h
  exact ⟨n, rest, parseId_sound hp, hk⟩

lemma of_checkAdditionalArgs
    (h : (checkAdditionalArgs ts >>= fun _ => .ok call') = .ok call) : ts = [] ∧ call' = call := by
  cases ts with
  | nil => exact ⟨rfl, Except.ok.inj h⟩
  | cons t ts => cases h

lemma orError_eq_ok : orError r e = .ok call ↔ r = .ok call := by
  cases r with
  | error e' => simp [orError]
  | ok c => simp [orError]

/-- The branch of the access vector statements. -/
lemma parseAv_sound {f} (ha : AvAction a f) (hb : BracesOk empty ts) (h : parseAv f ts = .ok call) :
    Rule empty (a :: ts) call := by
  obtain ⟨vs, _, s, rfl, hs, hb₁, h₁⟩ := of_parse (parseSterm_sound hb) hb h
  obtain ⟨vt, _, t, rfl, ht, hb₂, h₂⟩ := of_parse (parseSterm_sound hb₁) hb₁ h₁
  obtain ⟨vc, _, c, rfl, hc, hb₃, h₃⟩ := of_parse (parseSterm_sound hb₂) hb₂ h₂
  obtain ⟨vp, _, p, rfl, hp, -, h₄⟩ := of_parse (parseSterm_sound hb₃) hb₃ h₃
  obtain ⟨rfl, rfl⟩ := of_checkAdditionalArgs h₄
  rw [append_nil]
  exact .av ha hs ht hc hp

/-- The branch of the extended permission statements. -/
lemma parseAvXperms_sound {f} (ha : XpermAction a f) (hb : BracesOk empty ts)
    (h : parseAvXperms f ts = .ok call) : Rule empty (a :: ts) call := by
  obtain ⟨vs, _, s, rfl, hs, hb₁, h₁⟩ := of_parse (parseSterm_sound hb) hb h
  obtain ⟨vt, _, t, rfl, ht, hb₂, h₂⟩ := of_parse (parseSterm_sound hb₁) hb₁ h₁
  obtain ⟨vc, _, c, rfl, hc, -, h₃⟩ := of_parse (parseSterm_sound hb₂) hb₂ h₂
  obtain ⟨⟨u, ts⟩, hpi, h₄⟩ := bind_eq_ok.mp h₃
  obtain rfl := matchString_sound hpi
  obtain ⟨⟨vp, ts⟩, hpp, h₅⟩ := bind_eq_ok.mp h₄
  obtain ⟨p, rfl, hp⟩ := parseXperms_sound hpp
  obtain ⟨rfl, rfl⟩ := of_checkAdditionalArgs h₅
  rw [append_nil]
  exact .xperm ha hs ht hc (fun _ => rfl) hp

lemma parseTypeState_sound {f} (ha : StateAction a f) (hb : BracesOk empty ts)
    (h : parseTypeState f ts = .ok call) : Rule empty (a :: ts) call := by
  obtain ⟨vt, _, t, rfl, ht, -, h₁⟩ := of_parse (parseSterm_sound hb) hb h
  obtain ⟨rfl, rfl⟩ := of_checkAdditionalArgs h₁
  rw [append_nil]
  exact .state ha ht

lemma parseTypeattribute_sound (hb : BracesOk empty ts) (h : parseTypeattribute ts = .ok call) :
    Rule empty (TA :: ts) call := by
  obtain ⟨vt, _, t, rfl, ht, hb₁, h₁⟩ := of_parse (parseTerm_sound hb) hb h
  obtain ⟨va, _, a, rfl, ha, -, h₂⟩ := of_parse (parseTerm_sound hb₁) hb₁ h₁
  obtain ⟨rfl, rfl⟩ := of_checkAdditionalArgs h₂
  rw [append_nil]
  exact .typeattribute ht ha

/-- The branch of the `type` statement. -/
lemma parseType_sound (hb : BracesOk empty ts) (h : parseType ts = .ok call) :
    Rule empty (TY :: ts) call := by
  obtain ⟨t, _, rfl, h₁⟩ := of_parseId h
  obtain ⟨⟨va, ts⟩, hpa, h₂⟩ := bind_eq_ok.mp h₁
  obtain ⟨rfl, rfl⟩ := of_checkAdditionalArgs h₂
  rw [parseAttrs] at hpa
  split_ifs at hpa with hnil
  · cases hpa
    exact .type t
  · obtain ⟨a, rfl, ha⟩ := parseTerm_sound hb.of_cons hpa
    rw [append_nil]
    exact .typeAttrs t ha

lemma parseAttribute_sound (h : parseAttribute ts = .ok call) : Rule empty (AT :: ts) call := by
  obtain ⟨t, _, rfl, h₁⟩ := of_parseId h
  obtain ⟨rfl, rfl⟩ := of_checkAdditionalArgs h₁
  exact .newAttr t

/-- The branch of the type rule statements. -/
lemma parseTypeRule_sound {f} (ha : TypeAction a f) (h : parseTypeRule f ts = .ok call) :
    Rule empty (a :: ts) call := by
  obtain ⟨s, _, rfl, h₁⟩ := of_parseId h
  obtain ⟨t, _, rfl, h₂⟩ := of_parseId h₁
  obtain ⟨c, _, rfl, h₃⟩ := of_parseId h₂
  obtain ⟨d, _, rfl, h₄⟩ := of_parseId h₃
  obtain ⟨rfl, rfl⟩ := of_checkAdditionalArgs h₄
  exact .typeRule s t c d ha

/-- The branch of the `type_transition` statement. -/
lemma parseTypeTransition_sound (h : parseTypeTransition ts = .ok call) :
    Rule empty (TT :: ts) call := by
  obtain ⟨s, _, rfl, h₁⟩ := of_parseId h
  obtain ⟨t, _, rfl, h₂⟩ := of_parseId h₁
  obtain ⟨c, _, rfl, h₃⟩ := of_parseId h₂
  obtain ⟨d, _, rfl, h₄⟩ := of_parseId h₃
  obtain ⟨⟨o, ts⟩, hpo, h₅⟩ := bind_eq_ok.mp h₄
  obtain ⟨rfl, rfl⟩ := of_checkAdditionalArgs h₅
  rw [parseObject] at hpo
  split_ifs at hpo with hnil
  · cases hpo
    exact .typeTransition s t c d
  · obtain rfl := parseId_sound hpo
    exact .filenameTransition s t c d o

lemma parseGenfscon_sound (h : parseGenfscon ts = .ok call) : Rule empty (GF :: ts) call := by
  obtain ⟨s, _, rfl, h₁⟩ := of_parseId h
  obtain ⟨t, _, rfl, h₂⟩ := of_parseId h₁
  obtain ⟨c, _, rfl, h₃⟩ := of_parseId h₂
  obtain ⟨rfl, rfl⟩ := of_checkAdditionalArgs h₃
  exact .genfscon s t c

/-- What the parser accepts is derivable, empty brace lists allowed or not there. -/
lemma rule_of_parseCall (hb : BracesOk empty ts) (h : parseCall ts = .ok call) :
    Rule empty ts call := by
  cases ts with
  | nil => cases h
  | cons a ts =>
    have hb' := hb.of_cons
    cases a with
    | AL => exact parseAv_sound .allow hb' (orError_eq_ok.mp h)
    | DN => exact parseAv_sound .deny hb' (orError_eq_ok.mp h)
    | AA => exact parseAv_sound .auditallow hb' (orError_eq_ok.mp h)
    | DA => exact parseAv_sound .dontaudit hb' (orError_eq_ok.mp h)
    | AX => exact parseAvXperms_sound .allowxperm hb' (orError_eq_ok.mp h)
    | AY => exact parseAvXperms_sound .auditallowxperm hb' (orError_eq_ok.mp h)
    | DX => exact parseAvXperms_sound .dontauditxperm hb' (orError_eq_ok.mp h)
    | PM => exact parseTypeState_sound .permissive hb' (orError_eq_ok.mp h)
    | EF => exact parseTypeState_sound .enforce hb' (orError_eq_ok.mp h)
    | TA => exact parseTypeattribute_sound hb' (orError_eq_ok.mp h)
    | TY => exact parseType_sound hb' (orError_eq_ok.mp h)
    | AT => exact parseAttribute_sound (orError_eq_ok.mp h)
    | TC => exact parseTypeRule_sound .typeChange (orError_eq_ok.mp h)
    | TM => exact parseTypeRule_sound .typeMember (orError_eq_ok.mp h)
    | TT => exact parseTypeTransition_sound (orError_eq_ok.mp h)
    | GF => exact parseGenfscon_sound (orError_eq_ok.mp h)
    | _ => cases h

end Sound

/-! ### What is derivable is accepted -/

section Complete

variable {empty : Bool}

lemma stermNames_complete (hall : ∀ t ∈ seg, IsName true t) (names : Option (List String)) :
    ∃ v, ∀ rest, stermNames names (seg ++ RB :: rest) = .ok (v, rest) := by
  induction seg generalizing names with
  | nil => exact ⟨names.getD [], fun rest => rfl⟩
  | cons t seg ih =>
    obtain ⟨ht, hseg⟩ := forall_mem_cons.mp hall
    rcases ht with ⟨n, rfl⟩ | ⟨-, rfl⟩
    · exact ih hseg (names.map (· ++ [n]))
    · exact ih hseg none

lemma termNames_complete (hall : ∀ t ∈ seg, IsName false t) (names : List String) :
    ∃ v, ∀ rest, termNames names (seg ++ RB :: rest) = .ok (v, rest) := by
  induction seg generalizing names with
  | nil => exact ⟨names, fun rest => rfl⟩
  | cons t seg ih =>
    obtain ⟨ht, hseg⟩ := forall_mem_cons.mp hall
    rcases ht with ⟨n, rfl⟩ | ⟨hf, -⟩
    · exact ih hseg (names ++ [n])
    · cases hf

lemma Sterm.parse (h : Sterm empty ts) :
    ∃ v, parseSterm ts = .ok (v, []) ∧ ∀ rest, parseSterm (ts ++ rest) = .ok (v, rest) := by
  suffices hrest : ∃ v, ∀ rest, parseSterm (ts ++ rest) = .ok (v, rest) by
    obtain ⟨v, hv⟩ := hrest
    exact ⟨v, by simpa using hv [], hv⟩
  cases h with
  | st => exact ⟨[], fun _ => rfl⟩
  | id n => exact ⟨[n], fun _ => rfl⟩
  | @braces seg hnames =>
    obtain ⟨v, hv⟩ := stermNames_complete (names_iff.mp hnames).2 (some [])
    refine ⟨v, fun rest => ?_⟩
    rw [cons_append, append_assoc]
    exact hv rest
  | none _ => exact ⟨[], fun _ => rfl⟩

lemma Term.parse (h : Term empty ts) :
    ∃ v, parseTerm ts = .ok (v, []) ∧ ∀ rest, parseTerm (ts ++ rest) = .ok (v, rest) := by
  suffices hrest : ∃ v, ∀ rest, parseTerm (ts ++ rest) = .ok (v, rest) by
    obtain ⟨v, hv⟩ := hrest
    exact ⟨v, by simpa using hv [], hv⟩
  cases h with
  | id n => exact ⟨[n], fun _ => rfl⟩
  | @braces seg hnames =>
    obtain ⟨v, hv⟩ := termNames_complete (names_iff.mp hnames).2 []
    refine ⟨v, fun rest => ?_⟩
    rw [cons_append, append_assoc]
    exact hv rest
  | none _ => exact ⟨[], fun _ => rfl⟩

/-- The range an `xperm` stands for. -/
inductive XpermDenotes : List Token → UInt16 → UInt16 → Prop
  | value (low : UInt16) : XpermDenotes [HX low] low low
  | range (low high : UInt16) : XpermDenotes [HX low, HP, HX high] low high
  | text {s : String} {low high : UInt16} : parseXpermRange s.toList = some (low, high) →
      XpermDenotes [ID s] low high

/-- An `xperm` as it is written, with its range. -/
structure XpermItem where
  tokens : List Token
  low : UInt16
  high : UInt16
  denotes : XpermDenotes tokens low high

/-- The range that is passed for an item. -/
def XpermItem.toXperm (item : XpermItem) (reset : Bool) : Xperm := ⟨item.low, item.high, reset⟩

lemma XpermItem.parse (item : XpermItem) (hrest : rest.head? ≠ some HP) :
    parseXperm (item.tokens ++ rest) = .ok (item.toXperm false, rest) := by
  obtain ⟨ts, low, high, h⟩ := item
  cases h with
  | value low =>
    cases rest with
    | nil => rfl
    | cons t rest =>
      have ht : t ≠ HP := fun h => hrest (by rw [h]; rfl)
      cases t <;> first | rfl | exact absurd rfl ht
  | range low high => rfl
  | text hr => simp [parseXperm, hr, XpermItem.toXperm]

lemma XpermItem.tokens_ne (item : XpermItem) :
    item.tokens ≠ [] ∧ item.tokens.head? ≠ some HP ∧ ∀ t ∈ item.tokens, t ≠ LB ∧ t ≠ RB := by
  obtain ⟨ts, low, high, h⟩ := item
  cases h <;> simp

lemma XpermText.exists_item (h : XpermText ts) : ∃ item : XpermItem, item.tokens = ts := by
  cases h with
  | value low => exact ⟨⟨_, _, _, .value low⟩, rfl⟩
  | range low high => exact ⟨⟨_, _, _, .range low high⟩, rfl⟩
  | text hs =>
    obtain ⟨⟨low, high⟩, hr⟩ := isSome_iff_exists.mp hs
    exact ⟨⟨_, _, _, .text hr⟩, rfl⟩

lemma XpermListText.exists_items (h : XpermListText ts) :
    ∃ items : List XpermItem, items ≠ [] ∧ items.flatMap XpermItem.tokens = ts := by
  induction h with
  | one h =>
    obtain ⟨item, rfl⟩ := h.exists_item
    exact ⟨[item], by simp, by simp⟩
  | snoc _ hus ih =>
    obtain ⟨items, -, rfl⟩ := ih
    obtain ⟨item, rfl⟩ := hus.exists_item
    exact ⟨items ++ [item], by simp, by simp⟩

/-- The loop of `parse_xperms` takes one `xperm` after the other, up to the closing
brace. -/
lemma xpermList_items (hne : items ≠ [])
    (hfuel : items.length ≤ fuel) (reset : Bool) (xs : List Xperm) (rest : List Token) :
    xpermList fuel reset xs (items.flatMap XpermItem.tokens ++ RB :: rest) =
      .ok (xs ++ items.map (·.toXperm reset), rest) := by
  induction items generalizing fuel xs with
  | nil => exact absurd rfl hne
  | cons item items ih =>
    cases fuel with
    | zero => simp at hfuel
    | succ fuel =>
      rw [flatMap_cons, append_assoc, xpermList]
      cases items with
      | nil =>
        rw [item.parse (by simp)]
        rfl
      | cons item' items =>
        obtain ⟨hne', hhp, hbrace⟩ := item'.tokens_ne
        obtain ⟨t, ts, hts⟩ := exists_cons_of_ne_nil hne'
        have ih' := ih (by simp) (Nat.le_of_succ_le_succ hfuel) (xs ++ [item.toXperm reset])
        -- the next token is no closing brace, so the loop goes on
        have ht : t ≠ RB := (hbrace t (hts ▸ mem_cons_self)).2
        rw [append_assoc] at ih'
        simp only [flatMap_cons, hts] at ih' hhp ⊢
        rw [item.parse (by simpa using hhp)]
        simp only [bind, Except.bind]
        split
        · rename_i heq
          exact absurd (cons.inj heq).1 ht
        · exact ih'

/-- A brace list of `xperm`s is accepted with or without a tilde. -/
lemma parseXpermsBody_items (hne : items ≠ []) (reset : Bool) (rest : List Token) :
    parseXpermsBody reset (LB :: (items.flatMap XpermItem.tokens ++ [RB]) ++ rest) =
      .ok (items.map (·.toXperm reset), rest) := by
  have hlen : items.length ≤ (items.flatMap XpermItem.tokens ++ RB :: rest).length := by
    have hpos : ∀ item ∈ items, 1 ≤ item.tokens.length := fun item _ =>
      length_pos_iff.mpr item.tokens_ne.1
    have hsum : items.length ≤ (items.flatMap XpermItem.tokens).length := by
      rw [length_flatMap]
      calc items.length = (items.map fun _ => 1).sum := by simp
        _ ≤ (items.map fun item => item.tokens.length).sum := sum_le_sum hpos
    rw [length_append]
    omega
  rw [cons_append, append_assoc]
  exact xpermList_items hne hlen reset [] rest

/-- `parse_xperms` takes `xperms`. -/
lemma XpermsText.parse (h : XpermsText ts) (rest : List Token) :
    ∃ v, parseXperms (ts ++ rest) = .ok (v, rest) := by
  cases h with
  | value low =>
    simp only [singleton_append, parseXperms, parseXpermsBody]
    split_ifs <;> exact ⟨_, rfl⟩
  | @text s hs =>
    obtain ⟨⟨low, high⟩, hr⟩ := isSome_iff_exists.mp hs
    exact ⟨[⟨low, high, false⟩], by
      simp only [singleton_append, parseXperms, parseXpermsBody, hr]⟩
  | braces h =>
    obtain ⟨items, hne, rfl⟩ := h.exists_items
    exact ⟨_, parseXpermsBody_items hne false rest⟩
  | tilde h =>
    obtain ⟨items, hne, rfl⟩ := h.exists_items
    exact ⟨_, parseXpermsBody_items hne true rest⟩
  | st => exact ⟨_, rfl⟩

/-- What is derivable, with empty brace lists, is accepted. -/
lemma exists_parseCall_of_rule (h : Rule true ts call) : ∃ call', parseCall ts = .ok call' := by
  cases h with
  | @av a f s t c p _ _ _ _ ha hs ht hc hp =>
    obtain ⟨vs, -, hs⟩ := hs.1.parse
    obtain ⟨vt, -, ht⟩ := ht.1.parse
    obtain ⟨vc, -, hc⟩ := hc.1.parse
    obtain ⟨vp, hp, -⟩ := hp.1.parse
    have hparse : parseAv f (s ++ (t ++ (c ++ p))) = .ok (f vs vt vc vp) := by
      simp only [parseAv, hs, ht, hc, hp, bind, Except.bind]
      rfl
    exact ⟨f vs vt vc vp, by cases ha <;> exact orError_eq_ok.mpr hparse⟩
  | @xperm a f s t c p _ _ _ i _ ha hs ht hc hi hp =>
    obtain ⟨vs, -, hs⟩ := hs.1.parse
    obtain ⟨vt, -, ht⟩ := ht.1.parse
    obtain ⟨vc, -, hc⟩ := hc.1.parse
    obtain ⟨vp, hp⟩ := hp.parse []
    rw [append_nil] at hp
    obtain rfl := hi rfl
    have hparse : parseAvXperms f (s ++ (t ++ (c ++ (ID "ioctl" :: p)))) =
        .ok (f vs vt vc vp) := by
      simp only [parseAvXperms, hs, ht, hc, hp, matchString, bind, Except.bind, if_true]
      rfl
    exact ⟨f vs vt vc vp, by cases ha <;> exact orError_eq_ok.mpr hparse⟩
  | @state a f t _ ha ht =>
    obtain ⟨vt, ht, -⟩ := ht.1.parse
    have hparse : parseTypeState f t = .ok (f vt) := by
      simp only [parseTypeState, ht]
      rfl
    exact ⟨f vt, by cases ha <;> exact orError_eq_ok.mpr hparse⟩
  | typeattribute ht ha =>
    obtain ⟨vt, -, ht⟩ := ht.1.parse
    obtain ⟨va, ha, -⟩ := ha.1.parse
    refine ⟨.typeattribute vt va, orError_eq_ok.mpr ?_⟩
    simp only [parseTypeattribute, ht, ha, bind, Except.bind]
    rfl
  | type t => exact ⟨_, rfl⟩
  | @typeAttrs t a _ ha =>
    obtain ⟨va, ha, -⟩ := ha.1.parse
    have hne : a ≠ [] := by
      rintro rfl
      cases ha
    refine ⟨.type t va, orError_eq_ok.mpr ?_⟩
    simp only [parseType, parseId, parseAttrs, if_neg hne, ha, bind, Except.bind]
    rfl
  | newAttr t => exact ⟨_, rfl⟩
  | @typeRule a f s t c d ha =>
    refine ⟨f s t c d, ?_⟩
    cases ha <;> rfl
  | typeTransition s t c d => exact ⟨_, rfl⟩
  | filenameTransition s t c d o => exact ⟨_, rfl⟩
  | genfscon s t c => exact ⟨_, rfl⟩

end Complete

/-! ### Derivations of the comments' grammar -/

/-- No empty braces, and no brace left open at the end. -/
def Closed (ts : List Token) : Prop := hasEmptyBraces ts = false ∧ ts.getLast? ≠ some LB

lemma Closed.append (hts : Closed ts) (hus : Closed us) : Closed (ts ++ us) := by
  refine ⟨hasEmptyBraces_append hts.1 hts.2 hus.1, ?_⟩
  cases us with
  | nil =>
    rw [append_nil]
    exact hts.2
  | cons u us =>
    rw [getLast?_append_of_ne_nil _ (cons_ne_nil _ _)]
    exact hus.2

lemma closed_of_notMem (h : LB ∉ ts) : Closed ts := by
  constructor
  · induction ts with
    | nil => rfl
    | cons t ts ih =>
      have ht : t ≠ LB := fun heq => h (heq ▸ mem_cons_self)
      rw [hasEmptyBraces, ih fun hmem => h (.tail _ hmem)]
      simp [ht]
  · exact fun hlast => h (mem_of_getLast? hlast)

/-- A brace list with something in it is closed. -/
lemma closed_braces (hne : ts ≠ []) (hall : ∀ t ∈ ts, t ≠ LB ∧ t ≠ RB) :
    Closed (LB :: (ts ++ [RB])) := by
  have hbody : Closed (ts ++ [RB]) := by
    refine closed_of_notMem fun hmem => ?_
    rcases mem_append.mp hmem with hmem | hmem
    · exact (hall _ hmem).1 rfl
    · cases mem_singleton.mp hmem
  obtain ⟨t, ts, rfl⟩ := exists_cons_of_ne_nil hne
  have ht : t ≠ RB := (hall t (.head _)).2
  refine ⟨?_, ?_⟩
  · rw [hasEmptyBraces, hbody.1]
    simp [ht]
  · rw [← cons_append]
    exact hbody.2

lemma IsName.ne {star : Bool} (h : IsName star t) : t ≠ LB ∧ t ≠ RB := by
  rcases h with ⟨n, rfl⟩ | ⟨-, rfl⟩ <;> simp

lemma Sterm.closed (h : Sterm false ts) : Closed ts := by
  cases h with
  | st => exact closed_of_notMem (by simp)
  | id n => exact closed_of_notMem (by simp)
  | braces hnames =>
    obtain ⟨hne, hall⟩ := names_iff.mp hnames
    exact closed_braces hne fun t ht => (hall t ht).ne
  | none h => cases h

lemma Term.closed (h : Term false ts) : Closed ts := by
  cases h with
  | id n => exact closed_of_notMem (by simp)
  | braces hnames =>
    obtain ⟨hne, hall⟩ := names_iff.mp hnames
    exact closed_braces hne fun t ht => (hall t ht).ne
  | none h => cases h

lemma XpermListText.tokens (h : XpermListText ts) : ts ≠ [] ∧ ∀ t ∈ ts, t ≠ LB ∧ t ≠ RB := by
  obtain ⟨items, hne, rfl⟩ := h.exists_items
  obtain ⟨item, items, rfl⟩ := exists_cons_of_ne_nil hne
  refine ⟨append_ne_nil_of_left_ne_nil item.tokens_ne.1 _, fun t ht => ?_⟩
  obtain ⟨item', -, ht⟩ := mem_flatMap.mp ht
  exact item'.tokens_ne.2.2 t ht

lemma XpermsText.closed (h : XpermsText ts) : Closed ts := by
  cases h with
  | value low => exact closed_of_notMem (by simp)
  | text _ => exact closed_of_notMem (by simp)
  | braces h => exact closed_braces h.tokens.1 h.tokens.2
  | tilde h =>
    exact (closed_of_notMem (by simp) : Closed [TL]).append
      (closed_braces h.tokens.1 h.tokens.2)
  | st => exact closed_of_notMem (by simp)

/-- A derivation of the comments' grammar holds no empty brace list. -/
lemma hasEmptyBraces_of_rule (h : Rule false ts call) : hasEmptyBraces ts = false := by
  -- the action and the identifiers in between are no braces
  have hcons : ∀ {t : Token} {ts : List Token}, t ≠ LB → Closed ts → Closed (t :: ts) :=
    fun {t ts} ht hts => (closed_of_notMem (by simpa using ht.symm) : Closed [t]).append hts
  cases h with
  | av ha hs ht hc hp =>
    refine (hcons ?_ (hs.1.closed.append (ht.1.closed.append (hc.1.closed.append hp.1.closed)))).1
    cases ha <;> simp
  | xperm ha hs ht hc _ hp =>
    refine (hcons ?_ (hs.1.closed.append (ht.1.closed.append (hc.1.closed.append
      (hcons (by simp) hp.closed))))).1
    cases ha <;> simp
  | state ha ht =>
    refine (hcons ?_ ht.1.closed).1
    cases ha <;> simp
  | typeattribute ht ha => exact (hcons (by simp) (ht.1.closed.append ha.1.closed)).1
  | type t => rfl
  | typeAttrs t ha => exact (hcons (by simp) (hcons (by simp) ha.1.closed)).1
  | newAttr t => rfl
  | typeRule s t c d ha => cases ha <;> rfl
  | typeTransition s t c d => rfl
  | filenameTransition s t c d o => rfl
  | genfscon s t c => rfl

/-! ### The parser and the comments -/

section Faithful

variable {σ : Type*} (api : Call → σ → σ) (sepolicy : σ) (statement : List Char)

/-- A statement that is neither empty nor a comment. -/
def IsStatement (statement : List Char) : Prop :=
  ¬ (trim statement = [] ∨ (trim statement).head? = some '#')

/-- The tokens of a statement. -/
def statementTokens (statement : List Char) : List Token := tokenizeStatement (trim statement)

/-- The statement is executed by the call. -/
def Executes (statement : List Char) (call : Call) : Prop :=
  IsStatement statement ∧ parseCall (statementTokens statement) = .ok call

/-- The parser keeps to its comments on the statement: a call it makes is that of a
derivation, with an empty list only for a star, and a statement it rejects
leaves the policy alone. -/
def Faithful : Prop :=
  (∀ call, Executes statement call →
    (parseStatement api sepolicy statement).1 = api call sepolicy ∧
      Rule false (statementTokens statement) call) ∧
  ∀ e, (parseStatement api sepolicy statement).2 = .error e →
    (parseStatement api sepolicy statement).1 = sepolicy

lemma parseStatement_error (h : (parseStatement api sepolicy statement).2 = .error e) :
    (parseStatement api sepolicy statement).1 = sepolicy := by
  simp only [parseStatement] at h ⊢
  split_ifs at h ⊢
  simp only [execStatement] at h ⊢
  cases hcall : parseCall (tokenizeStatement (trim statement)) with
  | ok call =>
    rw [hcall] at h
    cases h
  | error e => rfl

lemma parseStatement_of_executes (h : Executes statement call) :
    (parseStatement api sepolicy statement).1 = api call sepolicy := by
  obtain ⟨hs, hcall⟩ := h
  rw [parseStatement, if_neg hs, execStatement]
  rw [statementTokens] at hcall
  rw [hcall]

/-- **The grammar of the comments.**  The parser keeps to it exactly on the statements
that are not, with empty brace lists allowed, derivable with one. -/
theorem faithful_iff : Faithful api sepolicy statement ↔
    (IsStatement statement → (∃ call, Rule true (statementTokens statement) call) →
      hasEmptyBraces (statementTokens statement) = false) := by
  constructor
  · rintro ⟨hexec, -⟩ hs ⟨call, hrule⟩
    obtain ⟨call', hcall⟩ := exists_parseCall_of_rule hrule
    exact hasEmptyBraces_of_rule (hexec call' ⟨hs, hcall⟩).2
  · intro h
    refine ⟨fun call hcall => ⟨parseStatement_of_executes api sepolicy statement hcall, ?_⟩,
      fun e he => parseStatement_error api sepolicy statement he⟩
    have hloose := rule_of_parseCall (.inl rfl) hcall.2
    exact rule_of_parseCall (.inr (h hcall.1 ⟨call, hloose⟩)) hcall.2

end Faithful

/-- The statement `allow {} b c d` allows every type `d` on `b`. -/
theorem empty_braces_match_all :
    Executes "allow \x7b\x7d b c d".toList (.allow [] ["b"] ["c"] ["d"]) ∧
      ¬ Faithful (fun call calls => call :: calls) [] "allow \x7b\x7d b c d".toList := by
  have hexec : Executes "allow \x7b\x7d b c d".toList (.allow [] ["b"] ["c"] ["d"]) :=
    ⟨by rw [IsStatement]; decide, by decide⟩
  refine ⟨hexec, fun hf => ?_⟩
  have hbraces := hasEmptyBraces_of_rule (hf.1 _ hexec).2
  exact absurd hbraces (by decide)

end Magisk.Sepolicy
