import Mathlib

/-!
# Ordered maps

What a program finds in an ordered map after entries of a list were inserted, and
the walk over two lists that are sorted by their keys.

* `getElem?_insertMany_of_mem`, `getElem?_insertMany_of_ne`: lookups after a list of
  insertions;
* `getElem?_insertMany_toList`: inserting the entries of one map into another;
* `SortedKeys.filterMap_eq`: the one value of a key in a sorted list;
* `upsert`, `lookup_upsert`, `SortedKeys.ext`: sorted lists as maps;
* `nextKey`, `nextKey_eq`: the key an iterator comes to next;
* `outerJoin`, `mem_outerJoin`: two sorted lists, walked side by side, give what
  each key is mapped to on both sides.
-/

namespace Magisk.Lib

open List Option

open Std

universe u v w

variable {α : Type u} {β : Type v} {γ : Type w} {cmp : α → α → Ordering} {l : List (α × β)} {k : α}

/-! ### Lists of insertions -/

variable {m : ExtTreeMap α β cmp} {p : α × β}

section Insert

variable [TransCmp cmp]

lemma insertMany_cons (m : ExtTreeMap α β cmp) (p : α × β) (l : List (α × β)) :
    m.insertMany (p :: l) = (m.insert p.1 p.2).insertMany l := by
  rw [ExtTreeMap.insertMany_list_eq_foldl, ExtTreeMap.insertMany_list_eq_foldl, foldl_cons]

variable [LawfulEqCmp cmp]

lemma getElem?_insertMany_of_ne (h : ∀ p ∈ l, p.1 ≠ k) : (m.insertMany l)[k]? = m[k]? := by
  induction l generalizing m with
  | nil => rfl
  | cons p l ih =>
    have hne : cmp p.1 k ≠ .eq := fun heq =>
      h p (.head _) (LawfulEqCmp.compare_eq_iff_eq.mp heq)
    rw [insertMany_cons, ih fun q hq => h q (.tail _ hq),
      ExtTreeMap.getElem?_insert, if_neg hne]

/-- A key that is inserted, always with the same value. -/
lemma getElem?_insertMany_of_mem (hmem : (k, v) ∈ l) (h : ∀ p ∈ l, p.1 = k → p.2 = v) :
    (m.insertMany l)[k]? = some v := by
  induction l generalizing m with
  | nil => exact absurd hmem not_mem_nil
  | cons p l ih =>
    have htail : ∀ q ∈ l, q.1 = k → q.2 = v := fun q hq => h q (.tail _ hq)
    rw [insertMany_cons]
    by_cases hl : (k, v) ∈ l
    · exact ih hl htail
    · obtain rfl : (k, v) = p := (mem_cons.mp hmem).resolve_right hl
      rw [getElem?_insertMany_of_ne, ExtTreeMap.getElem?_insert_self]
      rintro ⟨k', v'⟩ hq rfl
      obtain rfl := htail _ hq rfl
      exact hl hq

/-- The entries of another map are inserted. -/
lemma getElem?_insertMany_toList (m t : ExtTreeMap α β cmp) (k : α) :
    (m.insertMany t.toList)[k]? = (t[k]?).or m[k]? := by
  cases hk : t[k]? with
  | some v =>
    refine getElem?_insertMany_of_mem (ExtTreeMap.mem_toList_iff_getElem?_eq_some.mpr hk) ?_
    rintro ⟨k', v'⟩ hp rfl
    have hv' := ExtTreeMap.mem_toList_iff_getElem?_eq_some.mp hp
    exact some.inj (hv'.symm.trans hk)
  | none =>
    refine getElem?_insertMany_of_ne ?_
    rintro ⟨k', v'⟩ hp rfl
    have hv' := ExtTreeMap.mem_toList_iff_getElem?_eq_some.mp hp
    rw [hk] at hv'
    cases hv'

end Insert

/-! ### Sorted lists -/

/-- A list that is sorted by its keys. -/
def SortedKeys (cmp : α → α → Ordering) (l : List (α × β)) : Prop :=
  l.Pairwise fun p q => cmp p.1 q.1 = .lt

lemma sortedKeys_toList [TransCmp cmp] (m : ExtTreeMap α β cmp) : SortedKeys cmp m.toList :=
  ExtTreeMap.ordered_keys_toList

lemma SortedKeys.head_lt (h : SortedKeys cmp (p :: l)) (hq : q ∈ l) :
    cmp p.1 q.1 = .lt := rel_of_pairwise_cons h hq

lemma SortedKeys.not_mem [TransCmp cmp] (h : SortedKeys cmp (p :: l)) (hk : cmp k p.1 = .lt)
    (v : β) :
    (k, v) ∉ p :: l := by
  intro hmem
  have hlt : cmp k k = .lt := by
    rcases mem_cons.mp hmem with rfl | hmem
    · exact hk
    · exact TransCmp.lt_trans hk (h.head_lt hmem)
  exact absurd (hlt.symm.trans ReflCmp.compare_self) (by decide)

lemma SortedKeys.head_not_mem [TransCmp cmp] (h : SortedKeys cmp (p :: l)) (v : β) :
    (p.1, v) ∉ l := by
  intro hmem
  have hlt := h.head_lt hmem
  exact absurd (hlt.symm.trans ReflCmp.compare_self) (by decide)

/-- A key has one value. -/
lemma SortedKeys.filterMap_eq {δ : Type*} [TransCmp cmp] [DecidableEq α] (h : SortedKeys cmp l)
    {v : β} (hv : (k, v) ∈ l) (f : β → Option δ) :
    (l.filterMap fun p => if p.1 = k then f p.2 else none) = (f v).toList := by
  induction l with
  | nil => exact absurd hv not_mem_nil
  | cons p l ih =>
    by_cases hp : p.1 = k
    · have htail : (l.filterMap fun p => if p.1 = k then f p.2 else none) = [] := by
        refine filterMap_eq_nil_iff.mpr fun q hq => if_neg fun hk => ?_
        exact h.head_not_mem q.2 (by rw [hp, ← hk]; exact hq)
      have hpv : (k, v) = p := by
        refine (mem_cons.mp hv).resolve_right fun hmem => ?_
        exact h.head_not_mem v (hp ▸ hmem)
      subst hpv
      rw [filterMap_cons, if_pos rfl, htail]
      cases f v <;> rfl
    · have hmem : (k, v) ∈ l := (mem_cons.mp hv).resolve_left fun he => hp (he ▸ rfl)
      rw [filterMap_cons, if_neg hp, ih h.of_cons hmem]

/-! ### Sorted lists as maps -/

section Lookup

variable [BEq α] [LawfulBEq α] {l' : List (α × β)} {v : β}

lemma lookup_cons_of_ne (h : k ≠ k') : ((k', v) :: l).lookup k = l.lookup k := by
  rw [lookup_cons, beq_eq_false_iff_ne.mpr h]

lemma mem_of_lookup (h : l.lookup k = some v) : (k, v) ∈ l := by
  induction l with
  | nil => cases h
  | cons p l ih =>
    obtain ⟨k', v'⟩ := p
    by_cases hk : k = k'
    · subst hk
      rw [lookup_cons_self] at h
      exact some.inj h ▸ .head _
    · rw [lookup_cons_of_ne hk] at h
      exact .tail _ (ih h)

/-- An entry of a list with different keys is found. -/
lemma lookup_of_mem (hl : (l.map Prod.fst).Nodup) (h : (k, v) ∈ l) : l.lookup k = some v := by
  induction l with
  | nil => cases h
  | cons p l ih =>
    obtain ⟨k', v'⟩ := p
    rw [map_cons, nodup_cons] at hl
    rcases mem_cons.mp h with heq | hmem
    · obtain ⟨rfl, rfl⟩ := Prod.mk.inj heq
      exact lookup_cons_self
    · have hkey : k ∈ l.map Prod.fst := mem_map_of_mem hmem
      have hne : k ≠ k' := fun heq => hl.1 (heq ▸ hkey)
      rw [lookup_cons_of_ne hne]
      exact ih hl.2 hmem

omit [BEq α] [LawfulBEq α] in
lemma SortedKeys.nodup [TransCmp cmp] (h : SortedKeys cmp l) : (l.map Prod.fst).Nodup := by
  rw [Nodup, pairwise_map]
  refine h.imp fun {p q} hlt heq => ?_
  rw [heq] at hlt
  exact absurd (hlt.symm.trans ReflCmp.compare_self) (by decide)

/-- Changes what a key is mapped to, or inserts it at its place. -/
def upsert (cmp : α → α → Ordering) (k : α) (f : Option β → β) : List (α × β) → List (α × β)
  | [] => [(k, f none)]
  | (k', v) :: l =>
    match cmp k k' with
    | .lt => (k, f none) :: (k', v) :: l
    | .eq => (k', f (some v)) :: l
    | .gt => (k', v) :: upsert cmp k f l

lemma SortedKeys.lookup_eq_none [TransCmp cmp] (h : SortedKeys cmp (p :: l))
    (hk : cmp k p.1 = .lt) :
    (p :: l).lookup k = none :=
  eq_none_iff_forall_ne_some.mpr fun v hv => h.not_mem hk v (mem_of_lookup hv)

lemma SortedKeys.lookup_head [TransCmp cmp] (h : SortedKeys cmp (p :: l)) : l.lookup p.1 = none :=
  eq_none_iff_forall_ne_some.mpr fun v hv => h.head_not_mem v (mem_of_lookup hv)

variable [TransCmp cmp] [LawfulEqCmp cmp]

/-- What is found after a change. -/
lemma lookup_upsert [DecidableEq α] (h : SortedKeys cmp l) (k : α) (f : Option β → β) (k₁ : α) :
    (upsert cmp k f l).lookup k₁ = if k₁ = k then some (f (l.lookup k)) else l.lookup k₁ := by
  fun_induction upsert cmp k f l with
  | case1 =>
    split_ifs with hk
    · rw [hk, lookup_cons_self, lookup_nil]
    · rw [lookup_cons_of_ne hk]
  | case2 k' v l hcmp =>
    rw [h.lookup_eq_none hcmp]
    split_ifs with hk
    · rw [hk, lookup_cons_self]
    · rw [lookup_cons_of_ne hk]
  | case3 k' v l hcmp =>
    obtain rfl : k = k' := LawfulEqCmp.compare_eq_iff_eq.mp hcmp
    rw [lookup_cons_self]
    split_ifs with hk
    · rw [hk, lookup_cons_self]
    · rw [lookup_cons_of_ne hk, lookup_cons_of_ne hk]
  | case4 k' v l hcmp ih =>
    have hne : k ≠ k' := by
      rintro rfl
      cases hcmp.symm.trans ReflCmp.compare_self
    rw [lookup_cons_of_ne hne]
    by_cases hk : k₁ = k'
    · rw [hk, lookup_cons_self, lookup_cons_self, if_neg hne.symm]
    · rw [lookup_cons_of_ne hk, lookup_cons_of_ne hk, ih h.of_cons]

omit [BEq α] [LawfulBEq α] [TransCmp cmp] in
/-- The keys after a change. -/
lemma key_of_mem_upsert (h : p ∈ upsert cmp k f l) : p.1 = k ∨ ∃ q ∈ l, q.1 = p.1 := by
  fun_induction upsert cmp k f l with
  | case1 => exact .inl (congrArg Prod.fst (mem_singleton.mp h))
  | case2 k' v l hcmp =>
    rcases mem_cons.mp h with rfl | hmem
    · exact .inl rfl
    · exact .inr ⟨p, hmem, rfl⟩
  | case3 k' v l hcmp =>
    rcases mem_cons.mp h with rfl | hmem
    · exact .inl (LawfulEqCmp.compare_eq_iff_eq.mp hcmp).symm
    · exact .inr ⟨p, .tail _ hmem, rfl⟩
  | case4 k' v l hcmp ih =>
    rcases mem_cons.mp h with rfl | hmem
    · exact .inr ⟨_, .head _, rfl⟩
    · exact (ih hmem).imp_right fun ⟨q, hq, heq⟩ => ⟨q, .tail _ hq, heq⟩

omit [BEq α] [LawfulBEq α] in
/-- A change keeps the list sorted. -/
lemma SortedKeys.upsert (h : SortedKeys cmp l) (k : α) (f : Option β → β) :
    SortedKeys cmp (upsert cmp k f l) := by
  fun_induction Lib.upsert cmp k f l with
  | case1 => exact pairwise_singleton _ _
  | case2 k' v l hcmp =>
    refine pairwise_cons.mpr ⟨fun q hq => ?_, h⟩
    rcases mem_cons.mp hq with rfl | hmem
    · exact hcmp
    · exact TransCmp.lt_trans hcmp (h.head_lt hmem)
  | case3 k' v l hcmp => exact pairwise_cons.mpr ⟨fun q hq => h.head_lt hq, h.of_cons⟩
  | case4 k' v l hcmp ih =>
    refine pairwise_cons.mpr ⟨fun q hq => ?_, ih h.of_cons⟩
    rcases key_of_mem_upsert hq with hk | ⟨q', hq', hk⟩
    · rw [hk]
      exact OrientedCmp.gt_iff_lt.mp hcmp
    · rw [← hk]
      exact h.head_lt hq'

/-- Sorted lists that map keys alike are equal. -/
lemma SortedKeys.ext (h : SortedKeys cmp l) (h' : SortedKeys cmp l')
    (heq : ∀ k, l.lookup k = l'.lookup k) : l = l' := by
  induction l generalizing l' with
  | nil =>
    cases l' with
    | nil => rfl
    | cons p' l' =>
      have hk := heq p'.1
      rw [lookup_cons_self] at hk
      cases hk
  | cons p l ih =>
    obtain ⟨k, v⟩ := p
    have hk := heq k
    rw [lookup_cons_self] at hk
    cases l' with
    | nil => cases hk
    | cons p' l' =>
      obtain ⟨k', v'⟩ := p'
      have hk' := heq k'
      rw [lookup_cons_self] at hk'
      cases hcmp : cmp k k' with
      | lt =>
        rw [h'.lookup_eq_none hcmp] at hk
        cases hk
      | gt =>
        rw [h.lookup_eq_none (OrientedCmp.gt_iff_lt.mp hcmp)] at hk'
        cases hk'
      | eq =>
        obtain rfl : k = k' := LawfulEqCmp.compare_eq_iff_eq.mp hcmp
        rw [lookup_cons_self] at hk
        cases hk
        rw [ih h.of_cons h'.of_cons fun k₁ => ?_]
        by_cases hk₁ : k₁ = k
        · rw [hk₁, h.lookup_head, h'.lookup_head]
        · have htail := heq k₁
          rwa [lookup_cons_of_ne hk₁, lookup_cons_of_ne hk₁] at htail

end Lookup

/-! ### Two sorted lists side by side -/

/-- Two lists, key by key: what each side has under it. -/
def outerJoin (cmp : α → α → Ordering) :
    List (α × β) → List (α × γ) → List (α × Option β × Option γ)
  | [], [] => []
  | (k, b) :: l, [] => (k, some b, none) :: outerJoin cmp l []
  | [], (k, c) :: r => (k, none, some c) :: outerJoin cmp [] r
  | (k, b) :: l, (k', c) :: r =>
    match cmp k k' with
    | .lt => (k, some b, none) :: outerJoin cmp l ((k', c) :: r)
    | .gt => (k', none, some c) :: outerJoin cmp ((k, b) :: l) r
    | .eq => (k, some b, some c) :: outerJoin cmp l r

/-- What stands in the join: a key of one of the lists, with its values in both. -/
def Joined (l : List (α × β)) (r : List (α × γ)) (j : α × Option β × Option γ) : Prop :=
  ¬ (j.2.1 = none ∧ j.2.2 = none) ∧ (∀ b, (j.1, b) ∈ l ↔ j.2.1 = some b) ∧
    ∀ c, (j.1, c) ∈ r ↔ j.2.2 = some c

section Joined

variable {r : List (α × γ)} {b : β} {c : γ} {j : α × Option β × Option γ}

lemma Joined.unique (h : Joined l r (k, x, y)) (h' : Joined l r (k, x', y')) : x = x' ∧ y = y' :=
  ⟨Option.ext fun b => (h.2.1 b).symm.trans (h'.2.1 b),
    Option.ext fun c => (h.2.2 c).symm.trans (h'.2.2 c)⟩

lemma not_joined (hl : ∀ v, (k, v) ∉ l) (hr : ∀ v, (k, v) ∉ r) (x : Option β) (y : Option γ) :
    ¬ Joined l r (k, x, y) := by
  rintro ⟨hsome, hx, hy⟩
  refine hsome ⟨eq_none_iff_forall_ne_some.mpr fun b hb => hl b ((hx b).mpr hb), ?_⟩
  exact eq_none_iff_forall_ne_some.mpr fun c hc => hr c ((hy c).mpr hc)

/-- A new key is added to the join; the others stay. -/
lemma joined_iff {l' : List (α × β)}
    (hnew : Joined l' r' (k, x, y)) (hl : ∀ v, (k, v) ∉ l) (hr : ∀ v, (k, v) ∉ r)
    (hl' : ∀ k' ≠ k, ∀ v, (k', v) ∈ l' ↔ (k', v) ∈ l)
    (hr' : ∀ k' ≠ k, ∀ v, (k', v) ∈ r' ↔ (k', v) ∈ r) :
    Joined l' r' j ↔ j = (k, x, y) ∨ Joined l r j := by
  obtain ⟨k', x', y'⟩ := j
  by_cases hk : k' = k
  · subst hk
    rw [or_iff_left (not_joined hl hr _ _)]
    constructor
    · intro h
      obtain ⟨rfl, rfl⟩ := h.unique hnew
      rfl
    · intro h
      rw [h]
      exact hnew
  · rw [or_iff_right fun h => hk (Prod.mk.inj h).1]
    simp [Joined, hl' k' hk, hr' k' hk]

lemma mem_cons_of_key_ne (hk : k' ≠ k) (v : β) : (k', v) ∈ (k, b) :: l ↔ (k', v) ∈ l := by
  rw [mem_cons, or_iff_right fun h => hk (Prod.mk.inj h).1]

/-- The walk over two sorted lists meets every key of both. -/
lemma mem_outerJoin [TransCmp cmp] [LawfulEqCmp cmp] (hl : SortedKeys cmp l)
    (hr : SortedKeys cmp r) : j ∈ outerJoin cmp l r ↔ Joined l r j := by
  fun_induction outerJoin cmp l r with
  | case1 =>
    rw [iff_false_intro (not_joined (fun _ => not_mem_nil) (fun _ => not_mem_nil) _ _),
      iff_false_intro not_mem_nil]
  | case2 k b l ih =>
    have hnil : ∀ v : γ, (k, v) ∉ [] := fun _ => not_mem_nil
    rw [mem_cons, ih hl.of_cons hr, joined_iff _ hl.head_not_mem hnil
      (fun _ => mem_cons_of_key_ne) fun _ _ _ => Iff.rfl]
    exact ⟨by simp, by simp [hl.head_not_mem, eq_comm], by simp⟩
  | case3 k c r ih =>
    have hnil : ∀ v : β, (k, v) ∉ [] := fun _ => not_mem_nil
    rw [mem_cons, ih hl hr.of_cons, joined_iff _ hnil hr.head_not_mem
      (fun _ _ _ => Iff.rfl) fun _ => mem_cons_of_key_ne]
    exact ⟨by simp, by simp, by simp [hr.head_not_mem, eq_comm]⟩
  | case4 k b l k' c r hcmp ih =>
    have hr' := hr.not_mem hcmp
    rw [mem_cons, ih hl.of_cons hr, joined_iff _ hl.head_not_mem hr'
      (fun _ => mem_cons_of_key_ne) fun _ _ _ => Iff.rfl]
    exact ⟨by simp, by simp [hl.head_not_mem, eq_comm], by simp [hr']⟩
  | case5 k b l k' c r hcmp ih =>
    have hl' := hl.not_mem (OrientedCmp.gt_iff_lt.mp hcmp)
    rw [mem_cons, ih hl hr.of_cons, joined_iff _ hl' hr.head_not_mem
      (fun _ _ _ => Iff.rfl) fun _ => mem_cons_of_key_ne]
    exact ⟨by simp, by simp [hl'], by simp [hr.head_not_mem, eq_comm]⟩
  | case6 k b l k' c r hcmp ih =>
    obtain rfl : k = k' := LawfulEqCmp.compare_eq_iff_eq.mp hcmp
    rw [mem_cons, ih hl.of_cons hr.of_cons, joined_iff _ hl.head_not_mem hr.head_not_mem
      (fun _ => mem_cons_of_key_ne) fun _ => mem_cons_of_key_ne]
    exact ⟨by simp, by simp [hl.head_not_mem, eq_comm], by simp [hr.head_not_mem, eq_comm]⟩

lemma Joined.mem (h : Joined l r j) : (∃ b, (j.1, b) ∈ l) ∨ ∃ c, (j.1, c) ∈ r := by
  obtain ⟨k, x, y⟩ := j
  obtain ⟨hsome, hx, hy⟩ := h
  cases x with
  | some b => exact .inl ⟨b, (hx b).mpr rfl⟩
  | none =>
    cases y with
    | some c => exact .inr ⟨c, (hy c).mpr rfl⟩
    | none => exact absurd ⟨rfl, rfl⟩ hsome

/-- The walk meets the keys in order. -/
lemma sortedKeys_outerJoin [TransCmp cmp] [LawfulEqCmp cmp] (hl : SortedKeys cmp l)
    (hr : SortedKeys cmp r) : SortedKeys cmp (outerJoin cmp l r) := by
  -- what is left on either side lies behind the key
  have hcons : ∀ {l' : List (α × β)} {r' : List (α × γ)} {k : α} (x : Option β) (y : Option γ),
      SortedKeys cmp l' → SortedKeys cmp r' → (∀ p ∈ l', cmp k p.1 = .lt) →
      (∀ p ∈ r', cmp k p.1 = .lt) → SortedKeys cmp (outerJoin cmp l' r') →
      SortedKeys cmp ((k, x, y) :: outerJoin cmp l' r') := by
    intro l' r' k x y hl' hr' hkl hkr hrest
    refine pairwise_cons.mpr ⟨fun q hq => ?_, hrest⟩
    rcases ((mem_outerJoin hl' hr').mp hq).mem with ⟨b, hb⟩ | ⟨c, hc⟩
    · exact hkl _ hb
    · exact hkr _ hc
  fun_induction outerJoin cmp l r with
  | case1 => exact List.Pairwise.nil
  | case2 k b l ih =>
    exact hcons _ _ hl.of_cons hr (fun p => hl.head_lt) (fun _ hp => absurd hp not_mem_nil)
      (ih hl.of_cons hr)
  | case3 k c r ih =>
    exact hcons _ _ hl hr.of_cons (fun _ hp => absurd hp not_mem_nil) (fun p => hr.head_lt)
      (ih hl hr.of_cons)
  | case4 k b l k' c r hcmp ih =>
    refine hcons _ _ hl.of_cons hr (fun p => hl.head_lt) (fun p hp => ?_) (ih hl.of_cons hr)
    rcases mem_cons.mp hp with rfl | hp
    · exact hcmp
    · exact TransCmp.lt_trans hcmp (hr.head_lt hp)
  | case5 k b l k' c r hcmp ih =>
    have hlt := OrientedCmp.gt_iff_lt.mp hcmp
    refine hcons _ _ hl hr.of_cons (fun p hp => ?_) (fun p => hr.head_lt) (ih hl hr.of_cons)
    rcases mem_cons.mp hp with rfl | hp
    · exact hlt
    · exact TransCmp.lt_trans hlt (hl.head_lt hp)
  | case6 k b l k' c r hcmp ih =>
    obtain rfl : k = k' := LawfulEqCmp.compare_eq_iff_eq.mp hcmp
    exact hcons _ _ hl.of_cons hr.of_cons (fun p => hl.head_lt) (fun p => hr.head_lt)
      (ih hl.of_cons hr.of_cons)

end Joined

lemma mem_outerJoin_toList [TransCmp cmp] [LawfulEqCmp cmp] (m : ExtTreeMap α β cmp)
    (t : ExtTreeMap α γ cmp) (k : α) (x : Option β) (y : Option γ) :
    (k, x, y) ∈ outerJoin cmp m.toList t.toList ↔
      ¬ (x = none ∧ y = none) ∧ x = m[k]? ∧ y = t[k]? := by
  rw [mem_outerJoin (sortedKeys_toList m) (sortedKeys_toList t), Joined]
  simp only [ExtTreeMap.mem_toList_iff_getElem?_eq_some]
  rw [← Option.ext_iff, ← Option.ext_iff, eq_comm (a := m[k]?), eq_comm (a := t[k]?)]

/-! ### The next key -/

section NextKey

variable [TransCmp cmp]

/-- The first key behind a key. -/
def nextKey (m : ExtTreeMap α β cmp) (k : α) : Option α :=
  m.keys.find? fun q => cmp k q = .lt

lemma find?_lt_eq {l : List α} (hl : l.Pairwise fun a b => cmp a b = .lt)
    (h : l[i]? = some k) : (l.find? fun q => cmp k q = .lt) = l[i + 1]? := by
  induction l generalizing i with
  | nil => cases h
  | cons a l ih =>
    obtain ⟨ha, hl⟩ := pairwise_cons.mp hl
    cases i with
    | zero =>
      obtain rfl := some.inj h
      have hself : cmp a a = .eq := ReflCmp.compare_self
      rw [find?_cons_of_neg (by rw [hself]; decide)]
      cases l with
      | nil => rfl
      | cons b l => exact find?_cons_of_pos (decide_eq_true (ha b (.head _)))
    | succ i =>
      have hk : l[i]? = some k := h
      have hgt : cmp k a = .gt := OrientedCmp.gt_of_lt (ha k (mem_of_getElem? hk))
      rw [find?_cons_of_neg (by rw [hgt]; decide)]
      exact ih hl hk

lemma nextKey_eq (h : m.keys[i]? = some k) : nextKey m k = m.keys[i + 1]? :=
  find?_lt_eq ExtTreeMap.ordered_keys h

/-- Keys that are not behind the key do not matter. -/
lemma nextKey_congr [LawfulEqCmp cmp] {m' : ExtTreeMap α β cmp}
    (h : ∀ q, cmp k q = .lt → (q ∈ m ↔ q ∈ m')) : nextKey m k = nextKey m' k := by
  have hantisymm : Std.Antisymm fun a b => cmp a b = .lt :=
    ⟨fun a b hab hba => by cases (OrientedCmp.gt_of_lt hab).symm.trans hba⟩
  have hirrefl : Std.Irrefl fun a b => cmp a b = .lt :=
    ⟨fun a h => by cases (ReflCmp.compare_self : cmp a a = .eq).symm.trans h⟩
  have hfilter : (m.keys.filter fun q => cmp k q = .lt) =
      m'.keys.filter fun q => cmp k q = .lt := by
    refine (ExtTreeMap.ordered_keys.filter _).eq_of_mem_iff (ExtTreeMap.ordered_keys.filter _) ?_
    intro q
    rw [mem_filter, mem_filter, ExtTreeMap.mem_keys, ExtTreeMap.mem_keys,
      decide_eq_true_eq]
    exact and_congr_left (h q)
  rw [nextKey, nextKey, ← head?_filter, hfilter, head?_filter]

end NextKey

end Magisk.Lib
