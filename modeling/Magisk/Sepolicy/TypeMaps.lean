import Magisk.Sepolicy.Policy

/-!
# The maps of types and attributes

`type_attr_map` and `attr_type_map` have one set for each declared type: the attributes of a type,
and the types of an attribute.

* `Consistent`: the two maps agree, and every type is in its own set;
* `Numbers`: a new type gets the next value;
* `Consistent.addType`, `Consistent.addTypeattribute`: what a method keeps;
* `consistent_statements`: the statements on types keep it.
-/

namespace Magisk.Sepolicy

open Magisk.Base List

/-- The maps agree, and have a set for each type; every type is in its own set. -/
structure Consistent (db : PolicyDb) : Prop where
  typeAttr : db.typeAttrMap.length = db.typesNprim.toNat
  attrType : db.attrTypeMap.length = db.typesNprim.toNat
  values : ∀ t ∈ db.allTypes, 0 < t.value.toNat ∧ t.value.toNat ≤ db.typesNprim.toNat
  self : ∀ i : UInt32, i.toNat < db.typesNprim.toNat → i ∈ db.typeAttrMap.getD i.toNat ∅
  dual : ∀ i j : UInt32, i ≠ j →
    (j ∈ db.typeAttrMap.getD i.toNat ∅ ↔ i ∈ db.attrTypeMap.getD j.toNat ∅)

/-- `symtab_insert` gives a new type the next value. -/
def Numbers (L : Libsepol) : Prop :=
  ∀ sym name type sym' value, L.symtabInsert sym name type = some (sym', value) →
    value.toNat = sym.typesNprim.toNat + 1 ∧ sym'.typesNprim = value ∧
      ∀ entry ∈ sym'.types, entry ∈ sym.types ∨ entry.1 = name

section Maps

variable {db : PolicyDb} {map : List (Finset UInt32)} {x : Finset UInt32}

lemma getD_grow (hn : map.length = n) (k : Nat) :
    ((resize map (n + 1)).set n x).getD k ∅ = if k = n then x else map.getD k ∅ := by
  have hgrow : resize map (n + 1) = map ++ [∅] := by
    rw [resize, take_of_length_le (by omega), hn, Nat.add_sub_cancel_left]
    rfl
  rw [hgrow, getD_eq_getElem?_getD, getD_eq_getElem?_getD, getElem?_set]
  by_cases hk : k = n
  · simp [hk, hn]
  · rcases Nat.lt_or_gt_of_ne hk with hlt | hlt
    · rw [if_neg (Ne.symm hk), if_neg hk, getElem?_append_left (by omega)]
    · simp [hk, Ne.symm hk, getElem?_eq_none, hn, hlt.le, Nat.succ_le_of_lt hlt]

lemma mem_getD_modify {a b i j : UInt32} (ha : a.toNat < map.length) :
    j ∈ (map.modify a.toNat (insert b)).getD i.toNat ∅ ↔
      i = a ∧ j = b ∨ j ∈ map.getD i.toNat ∅ := by
  by_cases hi : i = a
  · subst hi
    simp [getElem?_eq_getElem ha]
  · have hne : a.toNat ≠ i.toNat := fun h => hi (UInt32.toNat_inj.mp h).symm
    simp [hi, hne]

/-- A new type has a set of its own, with nothing else in it. -/
lemma Consistent.addType (hL : Numbers L) (h : Consistent db) (name : String)
    (flavor : Flavor) : Consistent (addType L name flavor db).1 := by
  rw [Sepolicy.addType]
  split
  · exact h
  dsimp only
  split
  · exact h
  rename_i sym value hinsert
  obtain ⟨hvalue, hnprim, htypes⟩ := hL _ _ _ _ _ hinsert
  have hone : (1 : UInt32) ≤ value := by
    rw [UInt32.le_iff_toNat_le, hvalue]
    simp
  have hn : (value - 1).toNat = db.typesNprim.toNat := by
    rw [UInt32.toNat_sub_of_le _ _ hone, hvalue]
    simp
  have hnew : ∀ i : UInt32, i.toNat = db.typesNprim.toNat ↔ i = value - 1 := fun i => by
    rw [← hn, UInt32.toNat_inj]
  have hsize : sym.typesNprim.toNat = db.typesNprim.toNat + 1 := by rw [hnprim, hvalue]
  constructor
  · simp [resize, hsize, h.typeAttr]
  · simp [resize, hsize, h.attrType]
  · intro t ht
    obtain ⟨entry, hentry, rfl⟩ := mem_map.mp ht
    obtain ⟨⟨n, t⟩, hmem, rfl⟩ := mem_map.mp hentry
    dsimp only
    split
    · simp [hsize, hvalue]
    · rename_i hne
      have hold := h.values t (mem_map.mpr ⟨_, (htypes _ hmem).resolve_right hne, rfl⟩)
      omega
  · intro i hi
    simp only [hsize, hn, getD_grow h.typeAttr, hnew] at hi ⊢
    split
    · simp [*]
    · rename_i hne
      have hold := mt (hnew i).mp hne
      exact h.self i (by omega)
  · intro i j hij
    -- nothing refers to a value that is not in use
    have hnone : ∀ i : UInt32, i = value - 1 →
        db.typeAttrMap.getD i.toNat ∅ = ∅ ∧ db.attrTypeMap.getD i.toNat ∅ = ∅ := fun i hi => by
      simp [(hnew i).mpr hi, ← h.typeAttr, ← h.attrType.trans h.typeAttr.symm]
    have hdual := h.dual i j hij
    simp only [hsize, hn, getD_grow h.typeAttr, getD_grow h.attrType, hnew]
    by_cases hi : i = value - 1
    · have hj : j ≠ value - 1 := fun hj => hij (hi.trans hj.symm)
      rw [(hnone i hi).1] at hdual
      simp [hi, hj] at hdual ⊢
      exact hdual
    · by_cases hj : j = value - 1
      · rw [(hnone j hj).2] at hdual
        simpa [hi, hj] using hdual
      · simpa [hi, hj] using hdual

lemma Consistent.addTypeattribute (h : Consistent db) (type attr : String) :
    Consistent (addTypeattribute type attr db).1 := by
  have hdatum : ∀ t ∈ db.allTypes, ∀ a ∈ db.allTypes,
      Consistent (addTypeattributeDatum t a db) := by
    intro t ht a ha
    have hindex : ∀ d ∈ db.allTypes, (d.value - 1).toNat < db.typesNprim.toNat := fun d hd => by
      obtain ⟨hpos, hle⟩ := h.values d hd
      have hone : (1 : UInt32) ≤ d.value := UInt32.le_iff_toNat_le.mpr hpos
      rw [UInt32.toNat_sub_of_le _ _ hone, UInt32.toNat_one]
      omega
    have htype := (hindex t ht).trans_eq h.typeAttr.symm
    have hattr := (hindex a ha).trans_eq h.attrType.symm
    refine ⟨by simpa [addTypeattributeDatum] using h.typeAttr,
      by simpa [addTypeattributeDatum] using h.attrType, h.values, fun i hi => ?_,
      fun i j hij => ?_⟩
    · exact (mem_getD_modify htype).mpr (.inr (h.self i hi))
    · rw [addTypeattributeDatum, mem_getD_modify htype, mem_getD_modify hattr, h.dual i j hij,
        and_comm]
  have hfind : ∀ {key : String} {d : TypeDatum}, hashtabFind db.types key = some d →
      d ∈ db.allTypes := fun hd => by
    obtain ⟨l₁, l₂, hl, -⟩ := lookup_eq_some_iff.mp hd
    simp [Symbols.allTypes, hl]
  rw [Sepolicy.addTypeattribute]
  split
  · exact h
  split_ifs
  · exact h
  split
  · exact h
  split_ifs
  · exact h
  · exact hdatum _ (hfind ‹_›) _ (hfind ‹_›)

end Maps

/-- The statements on types. -/
def Call.onTypes : Call → Bool
  | .type _ _ | .attribute _ | .typeattribute _ _ => true
  | _ => false

/-- **The maps of types and attributes** agree after any number of statements on types, also of
ones that fail or declare a type again. -/
theorem consistent_statements (L : Libsepol) (other : Call → PolicyDb → PolicyDb) (hL : Numbers L)
    (statements : List (List Char)) (db : PolicyDb) (h : Consistent db)
    (hcalls : ∀ s ∈ statements, ∀ call ∈ (parseCall (tokenizeStatement (trim s))).toOption,
      call.onTypes = true) :
    Consistent (statements.foldl (fun db s => (parseStatement (api L other) db s).1) db) := by
  have hexpand : ∀ (vec : List String) (f : String → PolicyDb → PolicyDb),
      (∀ s db, Consistent db → Consistent (f s db)) → ∀ db, Consistent db →
        Consistent (expand vec f db) := by
    intro vec f hf db h
    exact List.foldlRecOn (motive := Consistent) _ _ h fun db h s _ => hf s db h
  have hcall : ∀ call : Call, call.onTypes = true → ∀ db, Consistent db →
      Consistent (api L other call db) := by
    intro call hon db h
    match call with
    | .typeattribute types attrs =>
      exact hexpand _ _ (fun t => hexpand _ _ fun a db h => h.addTypeattribute t a) db h
    | .type t attrs =>
      refine hexpand _ _ (fun a db h => ?_) db h
      have hadd := h.addType hL t .type
      split
      · rename_i heq
        rw [heq] at hadd
        exact hadd.addTypeattribute t a
      · rename_i heq
        rwa [heq] at hadd
    | .attribute name => exact h.addType hL name .attrib
  refine List.foldlRecOn (motive := Consistent) _ _ h fun db h s hs => ?_
  rw [parseStatement]
  split_ifs
  · exact h
  rw [execStatement]
  cases hparse : parseCall (tokenizeStatement (trim s)) with
  | ok call => exact hcall call (hcalls s hs call (by rw [hparse]; rfl)) db h
  | error e => exact h

/-- A library that has room for one more type as long as a value is left. -/
def Libsepol.bounded : Libsepol :=
  { Libsepol.reference with
    symtabInsert := fun sym name type =>
      if sym.typesNprim.toNat + 1 < 2 ^ 32 then Libsepol.reference.symtabInsert sym name type
      else none }

/-- An attribute and a type that has it, which is declared twice; a statement that fails. -/
theorem consistent_statements_empty :
    let empty := { smallPolicy with
      types := [], typesNprim := 0, typeAttrMap := [], attrTypeMap := [] }
    Consistent ((["attribute d", "type u d", "type u d", "typeattribute d u"].map
      String.toList).foldl (fun db s =>
        (parseStatement (api .bounded fun _ db => db) db s).1) empty) := by
  refine consistent_statements .bounded _ ?_ _ _ ?_ ?_
  · intro sym name type sym' value h
    simp only [Libsepol.bounded] at h
    split_ifs at h with hroom
    cases h
    refine ⟨?_, rfl, fun entry hentry => ?_⟩
    · rw [UInt32.toNat_add]
      exact Nat.mod_eq_of_lt hroom
    · rcases mem_append.mp hentry with hentry | hentry
      · exact .inl hentry
      · exact .inr (congrArg Prod.fst (mem_singleton.mp hentry))
  · exact ⟨rfl, rfl, by simp [Symbols.allTypes], by simp, by simp⟩
  · decide

end Magisk.Sepolicy
