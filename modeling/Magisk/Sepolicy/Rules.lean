import Magisk.Sepolicy.Policy

/-!
# Access vector rules

What `allow`, `deny`, `auditallow` and `dontaudit` statements do to the table.  A
method is a list of rules for single keys (`AvRule`), and a rule changes the nodes of
its key only.

* `runRules`, `avRules_eq`: the methods of the policy as lists of rules;
* `addRuleNode_update`: what a rule does to the nodes of its key;
* `AvStatement`: a statement whose types are named, and its rules: one for every
  combination of its arguments, but none for permissions of all classes;
* `Refines`, `refines_runRules`: the table is a map from keys to access vectors;
* `statements_refine`: a sequence of statements does to the table what its rules do to
  such a map;
* `execStatements_again`: executed again, it changes no vector.
-/

namespace Magisk.Sepolicy

open List Option Function

open Token hiding ST

variable (L : Libsepol)

/-! ### The methods as lists of rules -/

/-- A rule for a key: set or clear a permission, or all of them. -/
structure AvRule where
  key : AvtabKey
  perm : Option PermDatum
  invert : Bool

/-- The rules are added one after the other. -/
def runRules (rules : List AvRule) (h : Avtab) : Avtab :=
  rules.foldl (fun h r => addRuleNode L r.key r.perm r.invert h) h

lemma runRules_flatMap {α : Type} (l : List α) (f : α → List AvRule) (h : Avtab) :
    runRules L (l.flatMap f) h = l.foldl (fun h a => runRules L (f a) h) h :=
  foldl_flatMap

/-- What a pointer stands for. -/
def targets {α : Type} (all : List α) (ptr : Option α) : List α := ptr.elim all fun a => [a]

/-- The rules `add_rule` adds for data. -/
def datumRules (sym : Symbols) (src tgt : Option TypeDatum) (cls : Option ClassDatum)
    (perm : Option PermDatum) (effect : Specified) (invert : Bool) : List AvRule :=
  let types := if stripAv effect invert then sym.allTypes else sym.attributes
  (targets types src).flatMap fun src => (targets types tgt).flatMap fun tgt =>
    (targets sym.allClasses cls).map fun cls => ⟨ruleKey src tgt cls effect, perm, invert⟩

/-- The rules `add_rule` adds for names. -/
def nameRules (sym : Symbols) (s t c p : String) (effect : Specified) (invert : Bool) :
    List AvRule :=
  (resolve sym.types s).toList.flatMap fun src => (resolve sym.types t).toList.flatMap fun tgt =>
    (resolve sym.classes c).toList.flatMap fun cls => (resolvePerm cls p).toList.flatMap fun perm =>
      datumRules sym src tgt cls perm effect invert

/-- The rules a method adds. -/
def methodRules (sym : Symbols) (effect : Specified) (invert : Bool)
    (src tgt cls perm : List String) : List AvRule :=
  (expandNames src).flatMap fun s => (expandNames tgt).flatMap fun t =>
    (expandNames cls).flatMap fun c => (expandNames perm).flatMap fun p =>
      nameRules sym s t c p effect invert

lemma forEach_eq_foldl (all : List α) (ptr : Option α) (f : α → σ → σ) (state : σ) :
    forEach all ptr f state = (targets all ptr).foldl (fun state a => f a state) state := by
  cases ptr <;> rfl

lemma addRuleDatum_eq (sym : Symbols) (src tgt : Option TypeDatum) (cls : Option ClassDatum)
    (perm : Option PermDatum) (effect : Specified) (invert : Bool) (h : Avtab) :
    addRuleDatum L sym src tgt cls perm effect invert h =
      runRules L (datumRules sym src tgt cls perm effect invert) h := by
  simp only [addRuleDatum, forEach_eq_foldl, datumRules, runRules_flatMap]
  simp only [runRules, foldl_map]

/-- `add_rule` on names adds its rules. -/
lemma addRule_eq (sym : Symbols) (s t c p : String) (effect : Specified) (invert : Bool)
    (h : Avtab) :
    (addRule L sym s t c p effect invert h).1 =
      runRules L (nameRules sym s t c p effect invert) h := by
  rw [addRule, nameRules]
  cases resolve sym.types s with
  | none => rfl
  | some src =>
    cases resolve sym.types t with
    | none => rfl
    | some tgt =>
      cases resolve sym.classes c with
      | none => rfl
      | some cls =>
        cases hp : resolvePerm cls p with
        | none => simp [hp, runRules]
        | some perm => simp [hp, addRuleDatum_eq]

lemma avRules_eq (effect : Specified) (invert : Bool) (src tgt cls perm : List String)
    (db : PolicyDb) :
    avRules L effect invert src tgt cls perm db = { db with
      teAvtab := runRules L (methodRules db.toSymbols effect invert src tgt cls perm)
        db.teAvtab } := by
  simp [avRules, expand, methodRules, runRules_flatMap, addRule_eq]

/-! ### One rule -/

section Step

variable {L} {h : Avtab} {key : AvtabKey}

/-- The node after the rule. -/
def AvRule.changed (r : AvRule) (node : AvtabNode) : AvtabNode :=
  { node with datum := { node.datum with data := updateData r.perm r.invert node.datum.data } }

/-- A rule changes the first node of its key, or a new one with the default data, and
removes it if that makes it redundant. -/
lemma addRuleNode_update (hv : L.Valid h) (r : AvRule) (hk : r.key.specified.isXperms = false) :
    ∃ node post, node.key = r.key ∧
      (L.nodes h r.key = node :: post ∨ L.nodes h r.key = [] ∧ post = [] ∧
        node.datum.data = defaultData r.key.specified) ∧
      L.Update h (addRuleNode L r.key r.perm r.invert h) r.key
        (if isRedundant (r.changed node) then post else r.changed node :: post) := by
  obtain ⟨post, hget, hold⟩ := update_get hv hk
  set node := (getAvtabNode L.toLibsepolAvtab h r.key none).2
  have hkey : node.key = r.key := by
    have hmem : node ∈ L.nodes (getAvtabNode L.toLibsepolAvtab h r.key none).1 r.key := by
      rw [hget.self]
      exact .head _
    exact (LibsepolAvtab.mem_nodes.mp hmem).2
  have hwrite := hget.trans (update_write hget.valid [] hget.self
    fun d => { d with data := updateData r.perm r.invert d.data })
  refine ⟨node, post, hkey, hold, ?_⟩
  change L.Update h (if isRedundant (r.changed node) then _ else _) r.key _
  split_ifs with hred
  · exact hwrite.trans (update_remove hwrite.valid [] hwrite.self)
  · exact hwrite

end Step

/-! ### The table as a map -/

/-- Is this the key of an access vector? -/
def AvtabKey.isAv (key : AvtabKey) : Bool :=
  match key.specified with
  | .allowed | .auditallow | .auditdeny => true
  | _ => false

/-- A plain map from keys to access vectors. -/
abbrev AvMap := AvtabKey → BitVec 32

/-- A rule on a plain map. -/
def AvRule.apply (r : AvRule) (m : AvMap) : AvMap :=
  update m r.key (updateData r.perm r.invert (m r.key))

/-- Rules on a plain map, one after the other. -/
def applyRules (rules : List AvRule) (m : AvMap) : AvMap := rules.foldl (fun m r => r.apply m) m

lemma applyRules_concat (rules : List AvRule) (r : AvRule) (m : AvMap) :
    applyRules (rules ++ [r]) m = r.apply (applyRules rules m) := by
  rw [applyRules, foldl_append]
  rfl

/-- The vector that is in effect for a key: without a node, the default data. -/
def vector (h : Avtab) : AvMap := fun key =>
  ((L.nodes h key).head?.map (·.datum.data)).getD (defaultData key.specified)

/-- Access vector keys have one node at most. -/
def Unique (h : Avtab) : Prop := ∀ key : AvtabKey, key.isAv → (L.nodes h key).length ≤ 1

/-- After the rules, a table is what the plain map says, keys with a rule have no redundant
node, and all other keys have the nodes they had. -/
structure Refines (h₀ : Avtab) (rules : List AvRule) (h : Avtab) : Prop where
  valid : L.Valid h
  unique : Unique L h
  vector_eq : vector L h = applyRules rules (vector L h₀)
  clean : ∀ r ∈ rules, ∀ node ∈ L.nodes h r.key, isRedundant node = false
  frame : ∀ key, (∀ r ∈ rules, r.key ≠ key) → L.nodes h key = L.nodes h₀ key

section Refines

variable {L} {h h₀ : Avtab} {rules : List AvRule}

lemma AvtabKey.isXperms_of_isAv {key : AvtabKey} (hk : key.isAv) :
    key.specified.isXperms = false := by
  revert hk
  rw [AvtabKey.isAv]
  cases key.specified <;> decide

lemma data_of_isRedundant (hred : isRedundant node) :
    node.datum.data = defaultData node.key.specified := by
  rw [isRedundant] at hred
  rw [defaultData]
  split at hred
  · rename_i heq
    rw [if_pos heq]
    exact of_decide_eq_true hred
  · rename_i hne
    rw [if_neg hne]
    exact of_decide_eq_true hred

/-- Where a key has one node at most, a rule does to its vector what it does to a map. -/
lemma addRuleNode_single (hv : L.Valid h) (hu : Unique L h) (r : AvRule) (hk : r.key.isAv) :
    ∃ nodes, L.Update h (addRuleNode L r.key r.perm r.invert h) r.key nodes ∧ nodes.length ≤ 1 ∧
      (∀ node ∈ nodes, isRedundant node = false) ∧
      (nodes.head?.map (·.datum.data)).getD (defaultData r.key.specified) =
        updateData r.perm r.invert (vector L h r.key) := by
  obtain ⟨node, post, hkey, hold, hup⟩ := addRuleNode_update hv r (AvtabKey.isXperms_of_isAv hk)
  have hpost : post = [] := by
    rcases hold with hold | ⟨-, rfl, -⟩
    · have hlen := hu r.key hk
      rw [hold, length_cons] at hlen
      exact length_eq_zero_iff.mp (by omega)
    · rfl
  have hvec : vector L h r.key = node.datum.data := by
    rcases hold with hold | ⟨hold, -, hdata⟩
    · simp [vector, hold]
    · simp [vector, hold, hdata]
  refine ⟨_, hup, ?_⟩
  rw [hpost, hvec]
  split_ifs with hred
  · refine ⟨Nat.zero_le _, by simp, ?_⟩
    have hdata := data_of_isRedundant hred
    rw [AvRule.changed, hkey] at hdata
    simpa using hdata.symm
  · exact ⟨le_rfl, by simpa using hred, rfl⟩

lemma Refines.nil (hv : L.Valid h) (hu : Unique L h) : Refines L h [] h :=
  ⟨hv, hu, rfl, by simp, fun _ _ => rfl⟩

/-- One more rule. -/
lemma Refines.snoc (hr : Refines L h₀ rules h) (r : AvRule) (hk : r.key.isAv) :
    Refines L h₀ (rules ++ [r]) (addRuleNode L r.key r.perm r.invert h) := by
  obtain ⟨nodes, hup, hlen, hclean, hdata⟩ := addRuleNode_single hr.valid hr.unique r hk
  refine ⟨hup.valid, fun key hav => ?_, ?_, fun r' hr' node hnode => ?_, fun key hne => ?_⟩
  · by_cases hkey : key = r.key
    · rw [hkey, hup.self]
      exact hlen
    · rw [hup.ne key hkey]
      exact hr.unique key hav
  · rw [applyRules_concat, ← hr.vector_eq]
    funext key
    rw [AvRule.apply]
    by_cases hkey : key = r.key
    · rw [hkey, update_self, ← hdata, vector, hup.self]
    · rw [update_of_ne hkey, vector, hup.ne key hkey, vector]
  · by_cases hkey : r'.key = r.key
    · rw [hkey, hup.self] at hnode
      exact hclean node hnode
    · rw [hup.ne _ hkey] at hnode
      rcases mem_append.mp hr' with hr' | hr'
      · exact hr.clean r' hr' node hnode
      · rw [mem_singleton.mp hr'] at hkey
        exact absurd rfl hkey
  · rw [hup.ne key (hne r (by simp)).symm]
    exact hr.frame key fun r' hr' => hne r' (mem_append_left _ hr')

lemma refines_runRules (hv : L.Valid h) (hu : Unique L h) (rules : List AvRule)
    (hrules : ∀ r ∈ rules, r.key.isAv) : Refines L h rules (runRules L rules h) := by
  induction rules using List.reverseRecOn with
  | nil => exact .nil hv hu
  | append_singleton rules r ih =>
    rw [runRules, foldl_append]
    exact (ih fun r' hr' => hrules r' (mem_append_left _ hr')).snoc r (hrules r (by simp))

end Refines

/-! ### Statements -/

/-- A list of names in a statement. -/
structure NameList where
  names : List String
  ne_nil : names ≠ []
  ne_empty : ∀ n ∈ names, n ≠ ""

/-- The access vector statements. -/
inductive AvKind where
  | allow | deny | auditallow | dontaudit
  deriving DecidableEq

/-- A statement whose types are named; a class or permission that is left out is a star. -/
structure AvStatement where
  kind : AvKind
  src : NameList
  tgt : NameList
  cls : Option NameList
  perm : Option NameList

/-- The kind of key a statement is about. -/
def AvKind.effect : AvKind → Specified
  | .allow | .deny => .allowed
  | .auditallow => .auditallow
  | .dontaudit => .auditdeny

/-- Does the statement clear bits? -/
def AvKind.invert : AvKind → Bool
  | .allow | .auditallow => false
  | .deny | .dontaudit => true

/-- The first word of a statement. -/
def AvKind.token : AvKind → Token
  | .allow => AL
  | .deny => DN
  | .auditallow => AA
  | .dontaudit => DA

/-- An argument as it is written. -/
def stermTokens : Option NameList → List Token
  | none => [.ST]
  | some ⟨[n], _, _⟩ => [ID n]
  | some l => LB :: (l.names.map ID ++ [RB])

/-- The tokens of a statement. -/
def AvStatement.tokens (st : AvStatement) : List Token :=
  st.kind.token :: (stermTokens (some st.src) ++ (stermTokens (some st.tgt) ++
    (stermTokens st.cls ++ stermTokens st.perm)))

/-- The data that is named; names that are not in the table name nothing. -/
def NameList.find {α : Type} (l : NameList) (table : Hashtab α) : List α :=
  l.names.flatMap fun n => (hashtabFind table n).toList

/-- A permission of a class, its own or a common one. -/
def ClassDatum.findPerm (cls : ClassDatum) (p : String) : Option PermDatum :=
  (hashtabFind cls.permissions p).or (cls.comdatum.bind (hashtabFind · p))

/-- The classes of a statement. -/
def AvStatement.classes (st : AvStatement) (sym : Symbols) : List ClassDatum :=
  match st.cls with
  | none => sym.allClasses
  | some cls => cls.find sym.classes

/-- The permissions of a statement, in a class. -/
def AvStatement.perms (st : AvStatement) (cls : ClassDatum) : List (Option PermDatum) :=
  match st.perm with
  | none => [none]
  | some perm => perm.names.flatMap fun p => (cls.findPerm p).toList.map some

/-- The product of the arguments of a statement. -/
def AvStatement.product (st : AvStatement) (sym : Symbols) : List AvRule :=
  (st.src.find sym.types).flatMap fun src => (st.tgt.find sym.types).flatMap fun tgt =>
    (st.classes sym).flatMap fun cls => (st.perms cls).map fun perm =>
      ⟨ruleKey src tgt cls st.kind.effect, perm, st.kind.invert⟩

/-- The rules of a statement: the product of its arguments, and nothing where permissions are
named and the class is a star. -/
def AvStatement.rules (st : AvStatement) (sym : Symbols) : List AvRule :=
  if st.cls.isNone && st.perm.isSome then [] else st.product sym

/-- The names of an argument; a star is passed as an empty vector. -/
def argNames (arg : Option NameList) : List String := arg.elim [] NameList.names

section Statements

variable {sym : Symbols}

lemma expandNames_names (l : NameList) : expandNames l.names = l.names := if_neg l.ne_nil

lemma resolve_of_ne (table : Hashtab α) (hn : n ≠ "") :
    resolve table n = (hashtabFind table n).map some := if_neg hn

lemma resolvePerm_of_ne (cls : ClassDatum) (hp : p ≠ "") :
    resolvePerm (some cls) p = (cls.findPerm p).map some := by
  rw [resolvePerm, if_neg hp, ClassDatum.findPerm]
  cases hashtabFind cls.permissions p <;> rfl

lemma datumRules_some (src tgt : TypeDatum) (cls : Option ClassDatum) (perm : Option PermDatum)
    (effect : Specified) (invert : Bool) :
    datumRules sym (some src) (some tgt) cls perm effect invert =
      (targets sym.allClasses cls).map fun cls => ⟨ruleKey src tgt cls effect, perm, invert⟩ := by
  simp [datumRules, targets]

/-- The rules for two types. -/
lemma classRules_eq (st : AvStatement) (src tgt : TypeDatum) (effect : Specified) (invert : Bool) :
    ((expandNames (argNames st.cls)).flatMap fun c =>
      (expandNames (argNames st.perm)).flatMap fun p =>
        (resolve sym.classes c).toList.flatMap fun cls => (resolvePerm cls p).toList.flatMap
          fun perm => datumRules sym (some src) (some tgt) cls perm effect invert) =
      if st.cls.isNone && st.perm.isSome then []
      else (st.classes sym).flatMap fun cls => (st.perms cls).map fun perm =>
        (⟨ruleKey src tgt cls effect, perm, invert⟩ : AvRule) := by
  simp only [datumRules_some, AvStatement.classes, AvStatement.perms]
  cases st.cls with
  | none =>
    cases st.perm with
    | none =>
      simp [argNames, expandNames, resolve, resolvePerm, targets, map_eq_flatMap]
    | some perm =>
      -- no class is specified, and none of the permissions is the empty name
      have hnone : ∀ p ∈ perm.names, resolvePerm none p = none := fun p hp =>
        if_neg (perm.ne_empty p hp)
      simp only [argNames, elim_none, elim_some, expandNames_names,
        isNone_none, isSome_some, Bool.and_self, if_true,
        flatMap_eq_nil_iff]
      intro c hc p hp cls hcls
      obtain rfl : c = "" := by simpa [expandNames] using hc
      obtain rfl : cls = none := by simpa [resolve] using hcls
      simp [hnone p hp]
  | some cls =>
    simp only [argNames, elim_some, isNone_some, Bool.false_and,
      Bool.false_eq_true, if_false, expandNames_names, NameList.find, flatMap_assoc]
    refine flatMap_congr fun c hc => ?_
    rw [resolve_of_ne _ (cls.ne_empty c hc)]
    cases hashtabFind sym.classes c with
    | none => simp
    | some cls =>
      simp only [map_some, toList_some, flatMap_singleton]
      cases st.perm with
      | none => simp [expandNames, resolvePerm, targets]
      | some perm =>
        simp only [elim_some, expandNames_names, map_flatMap]
        refine flatMap_congr fun p hp => ?_
        rw [resolvePerm_of_ne _ (perm.ne_empty p hp)]
        cases cls.findPerm p <;> rfl

/-- The rules of a statement are those of the method it calls. -/
lemma methodRules_eq (st : AvStatement) :
    methodRules sym st.kind.effect st.kind.invert st.src.names st.tgt.names (argNames st.cls)
      (argNames st.perm) = st.rules sym := by
  have hrules : st.rules sym = (st.src.find sym.types).flatMap fun src =>
      (st.tgt.find sym.types).flatMap fun tgt =>
        if st.cls.isNone && st.perm.isSome then []
        else (st.classes sym).flatMap fun cls => (st.perms cls).map fun perm =>
          ⟨ruleKey src tgt cls st.kind.effect, perm, st.kind.invert⟩ := by
    rw [AvStatement.rules, AvStatement.product]
    split_ifs <;> simp
  simp only [hrules, methodRules, nameRules, expandNames_names, NameList.find, flatMap_assoc]
  refine flatMap_congr fun s hs => ?_
  rw [resolve_of_ne _ (st.src.ne_empty s hs)]
  cases hashtabFind sym.types s with
  | none => simp
  | some src =>
    simp only [toList_some, flatMap_singleton]
    refine flatMap_congr fun t ht => ?_
    rw [resolve_of_ne _ (st.tgt.ne_empty t ht)]
    cases hashtabFind sym.types t with
    | none => simp
    | some tgt =>
      simp only [map_some, toList_some, flatMap_singleton]
      exact classRules_eq st src tgt _ _

lemma stermNames_names (names acc : List String) (rest : List Token) :
    stermNames (some acc) (names.map ID ++ RB :: rest) = .ok (acc ++ names, rest) := by
  induction names generalizing acc with
  | nil => simp [stermNames]
  | cons n names ih =>
    rw [map_cons, cons_append, stermNames, map_some, ih, append_assoc]
    rfl

lemma parseSterm_stermTokens (arg : Option NameList) (rest : List Token) :
    parseSterm (stermTokens arg ++ rest) = .ok (argNames arg, rest) := by
  match arg with
  | none => rfl
  | some ⟨[n], _, _⟩ => rfl
  | some ⟨[], h, _⟩ => exact absurd rfl h
  | some ⟨n :: m :: names, _, _⟩ =>
    rw [stermTokens, cons_append, parseSterm, append_assoc, singleton_append,
      stermNames_names]
    · rfl
    · simp

lemma parseAv_tokens (call : List String → List String → List String → List String → Call)
    (s t c p : Option NameList) :
    parseAv call (stermTokens s ++ (stermTokens t ++ (stermTokens c ++ stermTokens p))) =
      .ok (call (argNames s) (argNames t) (argNames c) (argNames p)) := by
  have hp := parseSterm_stermTokens p []
  rw [append_nil] at hp
  simp only [parseAv, parseSterm_stermTokens, hp, bind, Except.bind]
  rfl

lemma execStatement_tokens (other : Call → PolicyDb → PolicyDb) (db : PolicyDb)
    (st : AvStatement) :
    (execStatement (api L other) db st.tokens).1 =
      { db with teAvtab := runRules L (st.rules db.toSymbols) db.teAvtab } := by
  rw [← methodRules_eq, ← avRules_eq]
  obtain ⟨kind, src, tgt, cls, perm⟩ := st
  cases kind <;>
    simp only [execStatement, AvStatement.tokens, AvKind.token, parseCall, parseAv_tokens,
      orError] <;>
    rfl

/-- Statements, one after the other. -/
def execStatements (other : Call → PolicyDb → PolicyDb) (sts : List AvStatement)
    (db : PolicyDb) : PolicyDb :=
  sts.foldl (fun db st => (execStatement (api L other) db st.tokens).1) db

lemma execStatements_eq (other : Call → PolicyDb → PolicyDb) (sts : List AvStatement)
    (db : PolicyDb) :
    execStatements L other sts db =
      { db with teAvtab := runRules L (sts.flatMap (·.rules db.toSymbols)) db.teAvtab } := by
  induction sts generalizing db with
  | nil => rfl
  | cons st sts ih =>
    rw [execStatements, foldl_cons, execStatement_tokens, ← execStatements, ih]
    simp [runRules]

lemma AvStatement.isAv_of_mem_rules {st : AvStatement} (hr : r ∈ st.rules sym) : r.key.isAv := by
  rw [AvStatement.rules] at hr
  split_ifs at hr
  · cases hr
  · simp only [AvStatement.product, List.mem_flatMap, List.mem_map] at hr
    obtain ⟨_, _, _, _, _, _, _, _, rfl⟩ := hr
    cases st.kind <;> rfl

/-- **A sequence of statements does to the table what its rules do to a plain map.**
Keys that no rule is for keep their nodes, and keys with a rule have no redundant one. -/
theorem statements_refine (other : Call → PolicyDb → PolicyDb) (db : PolicyDb)
    (hv : L.Valid db.teAvtab) (hu : Unique L db.teAvtab) (sts : List AvStatement) :
    let h := (execStatements L other sts db).teAvtab
    let rules := sts.flatMap (·.rules db.toSymbols)
    (∀ key : AvtabKey, key.isAv →
      vector L h key = applyRules rules (vector L db.teAvtab) key) ∧
    (∀ r ∈ rules, ∀ node ∈ L.nodes h r.key, isRedundant node = false) ∧
    (∀ key, (∀ r ∈ rules, r.key ≠ key) → L.nodes h key = L.nodes db.teAvtab key) ∧
    Unique L h := by
  intro h rules
  have hrules : ∀ r ∈ rules, r.key.isAv := by
    intro r hr
    obtain ⟨st, -, hst⟩ := mem_flatMap.mp hr
    exact AvStatement.isAv_of_mem_rules hst
  have href : Refines L db.teAvtab rules h := by
    have heq : h = runRules L rules db.teAvtab :=
      congrArg PolicyDb.teAvtab (execStatements_eq L other sts db)
    rw [heq]
    exact refines_runRules hv hu rules hrules
  exact ⟨fun key _ => congrFun href.vector_eq key, href.clean, href.frame, href.unique⟩

/-- A list of one name. -/
def NameList.single (n : String) (hn : n ≠ "") : NameList :=
  ⟨[n], cons_ne_nil _ _, fun _ h => mem_singleton.mp h ▸ hn⟩

/-- `allow t t file *`, `deny t t file read` and `dontaudit t t * *`. -/
def sampleStatements : List AvStatement :=
  let t := NameList.single "t" (by decide)
  let file := NameList.single "file" (by decide)
  [⟨.allow, t, t, some file, none⟩,
    ⟨.deny, t, t, some file, some (NameList.single "read" (by decide))⟩,
    ⟨.dontaudit, t, t, none, none⟩]

theorem sampleStatements_refine :
    let h := (execStatements .reference (fun _ db => db) sampleStatements smallPolicy).teAvtab
    vector .reference h ⟨2, 2, 1, .allowed⟩ = 0xFFFFFFFE#32 ∧
      vector .reference h ⟨2, 2, 1, .auditdeny⟩ = 0#32 ∧
      vector .reference h ⟨2, 2, 1, .auditallow⟩ = 0#32 := by
  have hu : Unique .reference smallPolicy.teAvtab := fun key _ => Nat.zero_le 1
  obtain ⟨hvec, -⟩ := statements_refine .reference (fun _ db => db) smallPolicy smallPolicy_valid hu
    sampleStatements
  refine ⟨(hvec _ rfl).trans ?_, (hvec _ rfl).trans ?_, (hvec _ rfl).trans ?_⟩
  all_goals decide

/-- `allow t t * read` is not added for the class that has the permission. -/
theorem starClass_not_product :
    let t := NameList.single "t" (by decide)
    let st : AvStatement := ⟨.allow, t, t, none, some (NameList.single "read" (by decide))⟩
    let h := (execStatements .reference (fun _ db => db) [st] smallPolicy).teAvtab
    ¬ ∀ key : AvtabKey, key.isAv → vector .reference h key =
      applyRules (st.product smallPolicy.toSymbols) (vector .reference smallPolicy.teAvtab)
        key := by
  intro t st h hvec
  have hne : vector .reference h ⟨2, 2, 1, .allowed⟩ ≠ applyRules (st.product smallPolicy.toSymbols)
      (vector .reference smallPolicy.teAvtab) ⟨2, 2, 1, .allowed⟩ := by decide
  exact hne (hvec _ rfl)

end Statements

/-! ### Executing statements again -/

section Again

variable {L} {db : PolicyDb} (other : Call → PolicyDb → PolicyDb) (hv : L.Valid db.teAvtab)
  (hu : Unique L db.teAvtab) (sts : List AvStatement)

/-- Rules keep some bits of a vector and set some. -/
lemma exists_applyRules_eq (rules : List AvRule) (key : AvtabKey) :
    ∃ kept set : BitVec 32, ∀ m, applyRules rules m key = m key &&& kept ||| set := by
  induction rules using reverseRecOn with
  | nil => exact ⟨BitVec.allOnes 32, 0#32, fun m => by rw [BitVec.and_allOnes, BitVec.or_zero]; rfl⟩
  | append_singleton rules r ih =>
    obtain ⟨kept, set, ih⟩ := ih
    simp only [applyRules_concat, AvRule.apply]
    by_cases hkey : key = r.key
    · simp only [hkey, update_self] at ih ⊢
      simp only [ih, updateData]
      cases r.perm with
      | none => exact ⟨0#32, if r.invert then 0#32 else BitVec.allOnes 32, fun m => by simp⟩
      | some perm =>
        set bit := 1#32 <<< (perm.value - 1)
        cases r.invert with
        | true => exact ⟨kept &&& ~~~bit, set &&& ~~~bit, fun m => by simp only [if_true]; grind⟩
        | false => exact ⟨kept, set ||| bit, fun m => BitVec.or_assoc _ _ _⟩
    · exact ⟨kept, set, fun m => by rw [update_of_ne hkey, ih]⟩

include hv hu

lemma refines_execStatements : Refines L db.teAvtab (sts.flatMap (·.rules db.toSymbols))
    (execStatements L other sts db).teAvtab := by
  rw [execStatements_eq]
  refine refines_runRules hv hu _ fun r hr => ?_
  obtain ⟨st, -, hst⟩ := mem_flatMap.mp hr
  exact AvStatement.isAv_of_mem_rules hst

/-- **Statements that are executed again change no vector.** -/
theorem execStatements_again :
    vector L (execStatements L other sts (execStatements L other sts db)).teAvtab =
      vector L (execStatements L other sts db).teAvtab := by
  have hone := refines_execStatements other hv hu sts
  have htwo := refines_execStatements other hone.valid hone.unique sts
  have hsym : (execStatements L other sts db).toSymbols = db.toSymbols := by rw [execStatements_eq]
  funext key
  obtain ⟨kept, set, hrules⟩ := exists_applyRules_eq (sts.flatMap (·.rules db.toSymbols)) key
  rw [htwo.vector_eq, hsym, hrules, hone.vector_eq, hrules]
  grind

end Again

theorem sampleStatements_again :
    let run := execStatements .reference (fun _ db => db) sampleStatements
    vector .reference (run (run smallPolicy)).teAvtab = vector .reference (run smallPolicy).teAvtab :=
  execStatements_again _ smallPolicy_valid (fun _ _ => Nat.zero_le 1) _

end Magisk.Sepolicy
