import Magisk.Sepolicy.Rules

/-!
# Rules for all types

What a match-all source or target of an `allow` statement gives to the types of a
policy.  A type has the permissions of its own keys and of those of its attributes; the
statement adds rules for the attributes only.

* `Effective`: the permissions a type has on another;
* `granted_runRules`: the permissions after a list of rules that add one;
* `matchAll_iff`: the statement reaches all types exactly when those that have no
  attribute need no rule.
-/

namespace Magisk.Sepolicy

open List

open Token hiding ST

variable (L : Libsepol)

/-! ### Effective permissions -/

/-- The types whose keys count for a type: itself and its attributes. -/
def PolicyDb.keyTypes (db : PolicyDb) (type : TypeDatum) : Finset UInt16 :=
  insert type.value.toUInt16
    ((db.typeAttrMap.getD (type.value - 1).toNat ∅).image fun i => (i + 1).toUInt16)

/-- Some node of the key has the bit of the permission. -/
def Granted (h : Avtab) (key : AvtabKey) (perm : PermDatum) : Prop :=
  ∃ node ∈ L.nodes h key, node.datum.data.getLsbD (perm.value - 1) = true

/-- A type has a permission of a class on another type. -/
def Effective (db : PolicyDb) (x y : TypeDatum) (cls : ClassDatum) (perm : PermDatum) : Prop :=
  ∃ s ∈ db.keyTypes x, ∃ t ∈ db.keyTypes y,
    Granted L db.teAvtab ⟨s, t, cls.value.toUInt16, .allowed⟩ perm

/-- The types an argument matches: a star matches every declared type. -/
def PolicyDb.matched (db : PolicyDb) : Option String → List TypeDatum
  | none => db.allTypes.filter (·.flavor = .type)
  | some name => (hashtabFind db.types name).toList

/-- All that match have the permission. -/
def GrantedToAll (db : PolicyDb) (src tgt : Option String) (cls : ClassDatum) (perm : PermDatum) :
    Prop :=
  ∀ x ∈ db.matched src, ∀ y ∈ db.matched tgt, Effective L db x y cls perm

instance (db : PolicyDb) (src tgt : Option String) (cls : ClassDatum) (perm : PermDatum) :
    Decidable (GrantedToAll L db src tgt cls perm) := by
  unfold GrantedToAll Effective Granted
  infer_instance

/-! ### Rules that add a permission -/

section Granted

variable {L} {h : Avtab} {perm : PermDatum}

lemma getLsbD_updateData (perm : PermDatum) (data : BitVec 32) :
    (updateData (some perm) false data).getLsbD (perm.value - 1) = true := by
  have hlt : perm.value - 1 < 32 := by have := perm.pos; have := perm.le; omega
  simp [updateData, hlt]

/-- A rule that adds the permission adds it to its key and to no other. -/
lemma granted_addRuleNode (hv : L.Valid h) (hkey : key.specified = .allowed)
    (perm : PermDatum) (k : AvtabKey) :
    Granted L (addRuleNode L key (some perm) false h) k perm ↔ Granted L h k perm ∨ key = k := by
  obtain ⟨node, post, hnode, hold, hup⟩ :=
    addRuleNode_update hv ⟨key, some perm, false⟩ (by rw [hkey]; rfl)
  set node' := AvRule.changed ⟨key, some perm, false⟩ node
  have hbit : node'.datum.data.getLsbD (perm.value - 1) = true := getLsbD_updateData perm _
  -- the bit keeps the node from being redundant
  have hred : isRedundant node' = false := by
    have hne : node'.datum.data ≠ 0#32 := fun h0 => by simp [h0] at hbit
    have hspec : node'.key.specified = .allowed := by rw [← hkey]; exact congrArg _ hnode
    rw [isRedundant, hspec]
    exact decide_eq_false hne
  rw [hred] at hup
  by_cases hk : k = key
  · subst hk
    refine ⟨fun _ => .inr rfl, fun _ => ⟨node', ?_, hbit⟩⟩
    rw [hup.self]
    exact .head _
  · rw [Granted, hup.ne k hk]
    exact (or_iff_left fun heq => hk heq.symm).symm

lemma granted_runRules (hv : L.Valid h) (rules : List AvRule)
    (hrules : ∀ r ∈ rules, r.key.specified = .allowed ∧ r.perm = some perm ∧ r.invert = false)
    (k : AvtabKey) :
    Granted L (runRules L rules h) k perm ↔ Granted L h k perm ∨ ∃ r ∈ rules, r.key = k := by
  induction rules generalizing h with
  | nil => simp [runRules]
  | cons r rules ih =>
    obtain ⟨⟨hkey, hperm, hinv⟩, hrules⟩ := forall_mem_cons.mp hrules
    obtain ⟨_, _, _, _, hup⟩ := addRuleNode_update hv r (by rw [hkey]; rfl)
    have hstep := granted_addRuleNode hv hkey perm k
    rw [runRules, foldl_cons, ← runRules, ih hup.valid hrules, hperm, hinv, hstep]
    simp only [mem_cons, exists_eq_or_imp, or_assoc]

end Granted

/-! ### A star for the types -/

/-- An argument of one name or a star. -/
def nameToken : Option String → Token
  | none => .ST
  | some name => ID name

/-- A type that a star matches is reached if it has an attribute; a type that is named
always is. -/
def PolicyDb.Covered (db : PolicyDb) (arg : Option String) (x : TypeDatum) : Prop :=
  arg = none → ∃ a ∈ db.attributes, a.value.toUInt16 ∈ db.keyTypes x

section MatchAll

variable {db : PolicyDb}

lemma covered_iff (harg : arg ≠ some "") (hx : x ∈ db.matched arg) :
    ∃ ptr, resolve db.types (arg.getD "") = some ptr ∧
      ((∃ a ∈ targets db.attributes ptr, a.value.toUInt16 ∈ db.keyTypes x) ↔ db.Covered arg x) := by
  cases arg with
  | none => exact ⟨none, rfl, by simp [targets, PolicyDb.Covered]⟩
  | some name =>
    have hne : name ≠ "" := fun h => harg (by rw [h])
    have hfind : hashtabFind db.types name = some x := by simpa [PolicyDb.matched] using hx
    refine ⟨some x, ?_, by simp [targets, PolicyDb.Covered, PolicyDb.keyTypes]⟩
    rw [Option.getD_some, resolve_of_ne _ hne, hfind]
    rfl

/-- The statement calls the method. -/
lemma execStatement_allow (other : Call → PolicyDb → PolicyDb) (src tgt : Option String)
    (c p : String) :
    (execStatement (api L other) db [AL, nameToken src, nameToken tgt, ID c, ID p]).1 =
      { db with
        teAvtab := runRules L (nameRules db.toSymbols (src.getD "") (tgt.getD "") c p .allowed
          false) db.teAvtab } := by
  have hexec : (execStatement (api L other) db [AL, nameToken src, nameToken tgt, ID c, ID p]).1 =
      avRules L .allowed false src.toList tgt.toList [c] [p] db := by
    cases src <;> cases tgt <;> rfl
  have hnames : ∀ arg : Option String, expandNames arg.toList = [arg.getD ""] := by
    intro arg
    cases arg <;> rfl
  rw [hexec, avRules_eq, methodRules, hnames, hnames]
  simp [expandNames]

lemma mem_datumRules : r ∈ datumRules sym src tgt (some cls) (some perm) .allowed false ↔
      ∃ a ∈ targets sym.attributes src, ∃ b ∈ targets sym.attributes tgt,
        (⟨ruleKey a b cls .allowed, some perm, false⟩ : AvRule) = r := by
  rw [datumRules]
  simp only [mem_flatMap, mem_map, targets, Option.elim_some, mem_singleton,
    exists_eq_left]
  rfl

/-- A pair of types has the permission if it had it before, or if both are reached by the
statement. -/
lemma effective_iff (hv : L.Valid db.teAvtab) (src tgt : Option TypeDatum) (x y : TypeDatum)
    (cls : ClassDatum) (perm : PermDatum) :
    Effective L { db with teAvtab := runRules L (datumRules db.toSymbols src tgt (some cls)
        (some perm) .allowed false) db.teAvtab } x y cls perm ↔
      ((∃ a ∈ targets db.attributes src, a.value.toUInt16 ∈ db.keyTypes x) ∧
        ∃ b ∈ targets db.attributes tgt, b.value.toUInt16 ∈ db.keyTypes y) ∨
      Effective L db x y cls perm := by
  have hrules : ∀ r ∈ datumRules db.toSymbols src tgt (some cls) (some perm) .allowed false,
      r.key.specified = .allowed ∧ r.perm = some perm ∧ r.invert = false := by
    intro r hr
    obtain ⟨a, -, b, -, rfl⟩ := mem_datumRules.mp hr
    exact ⟨rfl, rfl, rfl⟩
  constructor
  · rintro ⟨s, hs, t, ht, hgr⟩
    rcases (granted_runRules hv _ hrules _).mp hgr with hgr | ⟨r, hr, hkey⟩
    · exact .inr ⟨s, hs, t, ht, hgr⟩
    · obtain ⟨a, ha, b, hb, rfl⟩ := mem_datumRules.mp hr
      obtain ⟨rfl, rfl, -⟩ := AvtabKey.mk.inj hkey
      exact .inl ⟨⟨a, ha, hs⟩, ⟨b, hb, ht⟩⟩
  · rintro (⟨⟨a, ha, hs⟩, ⟨b, hb, ht⟩⟩ | ⟨s, hs, t, ht, hgr⟩)
    · have hr : (⟨ruleKey a b cls .allowed, some perm, false⟩ : AvRule) ∈ datumRules db.toSymbols
          src tgt (some cls) (some perm) .allowed false := mem_datumRules.mpr ⟨a, ha, b, hb, rfl⟩
      exact ⟨_, hs, _, ht, (granted_runRules hv _ hrules _).mpr (.inr ⟨_, hr, rfl⟩)⟩
    · exact ⟨s, hs, t, ht, (granted_runRules hv _ hrules _).mpr (.inl hgr)⟩

/-- **A match-all source or target of an `allow` statement.**  All types have the permission
after it exactly when each pair of them is reached through its attributes, or had the
permission before. -/
theorem matchAll_iff (other : Call → PolicyDb → PolicyDb) (db : PolicyDb)
    (hv : L.Valid db.teAvtab) (src tgt : Option String) (hs : src ≠ some "") (ht : tgt ≠ some "")
    (c p : String) (cls : ClassDatum) (perm : PermDatum)
    (hc : resolve db.classes c = some (some cls))
    (hp : resolvePerm (some cls) p = some (some perm)) :
    GrantedToAll L (execStatement (api L other) db [AL, nameToken src, nameToken tgt, ID c, ID p]).1
        src tgt cls perm ↔
      ∀ x ∈ db.matched src, ∀ y ∈ db.matched tgt,
        (db.Covered src x ∧ db.Covered tgt y) ∨ Effective L db x y cls perm := by
  rw [execStatement_allow]
  refine forall₂_congr fun x (hx : x ∈ db.matched src) =>
    forall₂_congr fun y (hy : y ∈ db.matched tgt) => ?_
  obtain ⟨ptrs, hptrs, hcovs⟩ := covered_iff hs hx
  obtain ⟨ptrt, hptrt, hcovt⟩ := covered_iff ht hy
  have hrules : nameRules db.toSymbols (src.getD "") (tgt.getD "") c p .allowed false =
      datumRules db.toSymbols ptrs ptrt (some cls) (some perm) .allowed false := by
    simp [nameRules, hptrs, hptrt, hc, hp]
  rw [hrules, effective_iff L hv, hcovs, hcovt]

/-- Every type of the small policy has an attribute. -/
theorem smallPolicy_matchAll :
    GrantedToAll .reference (execStatement (api .reference fun _ db => db) smallPolicy
      [AL, .ST, ID "t", ID "file", ID "read"]).1 none (some "t") fileClass readPerm := by
  refine (matchAll_iff .reference (fun _ db => db) smallPolicy smallPolicy_valid none (some "t")
    (by decide) (by decide) "file" "read" fileClass readPerm (by decide) (by decide)).mpr
    fun x hx y hy => .inl ⟨fun _ => ?_, fun h => absurd h (by decide)⟩
  revert x
  decide

/-- A type that is declared without attributes does not get the permission. -/
theorem newType_not_matched :
    let exec (db : PolicyDb) (statement : String) : PolicyDb :=
      (parseStatement (api .reference fun _ db => db) db statement.toList).1
    ¬ GrantedToAll .reference (exec (exec smallPolicy "type T") "allow * t file read") none
      (some "t") fileClass readPerm := by
  decide

end MatchAll

end Magisk.Sepolicy
