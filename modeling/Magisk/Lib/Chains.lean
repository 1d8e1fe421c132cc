import Mathlib.Data.List.Nodup
import Mathlib.Logic.Function.Basic
import Mathlib.Tactic

/-!
# Chained hash tables of nodes with an identity

A table of linked lists, one for each bucket.  A node has an identity (its address),
a key, and a datum that can be overwritten in place.  A key may have several
nodes; they are what a search for the key goes through.

* `Chains.chain`: the nodes of a key, in the order of its bucket;
* `Chains.WellFormed`: nodes stand in the bucket of their key, and no two share an
  identity;
* `Chains.write`, `Chains.unlink`, `Chains.insertAt`: the operations;
* `chain_write_self`, `chain_unlink_self`, `chain_insertAt_self`: what they do to the chain of the
  key, and that all other chains stay.
-/

namespace Magisk.Lib

open List Function

/-- A node of the table. -/
structure Node (κ δ : Type*) where
  id : Nat
  key : κ
  datum : δ

/-- A chained hash table, and the next identity to hand out. -/
structure Chains (κ δ : Type*) where
  buckets : Nat → List (Node κ δ)
  fresh : Nat

namespace Chains

variable {κ δ : Type*} {n : Node κ δ}

/-- Overwrite the datum of the node with this identity. -/
def write (t : Chains κ δ) (id : Nat) (f : δ → δ) : Chains κ δ :=
  { t with
    buckets := fun i => (t.buckets i).map fun n =>
      if n.id = id then { n with datum := f n.datum } else n }

/-- Take the node with this identity out of a bucket. -/
def unlink (t : Chains κ δ) (i id : Nat) : Chains κ δ :=
  { t with buckets := update t.buckets i ((t.buckets i).eraseP (·.id = id)) }

/-- Put a new node into a bucket. -/
def insertAt (t : Chains κ δ) (i pos : Nat) (k : κ) (d : δ) : Chains κ δ where
  buckets := update t.buckets i
    ((t.buckets i).take pos ++ ⟨t.fresh, k, d⟩ :: (t.buckets i).drop pos)
  fresh := t.fresh + 1

variable (hash : κ → Nat)

/-- Nodes stand in the bucket of their key and have identities of their own. -/
structure WellFormed (t : Chains κ δ) : Prop where
  hashed : ∀ i, ∀ n ∈ t.buckets i, hash n.key = i
  lt_fresh : ∀ i, ∀ n ∈ t.buckets i, n.id < t.fresh
  nodup : ∀ i, ((t.buckets i).map Node.id).Nodup
  bucket_eq : ∀ i j, ∀ n ∈ t.buckets i, ∀ m ∈ t.buckets j, n.id = m.id → i = j

variable {hash} {t : Chains κ δ}

lemma WellFormed.eq_of_id_eq (h : t.WellFormed hash)
    (hn : n ∈ t.buckets i) (hm : m ∈ t.buckets j) (hid : n.id = m.id) : n = m := by
  obtain rfl := h.bucket_eq i j n hn m hm hid
  exact inj_on_of_nodup_map (h.nodup i) hn hm hid

@[simp]
lemma unlink_buckets_self (t : Chains κ δ) (i id : Nat) :
    (t.unlink i id).buckets i = (t.buckets i).eraseP (·.id = id) := update_self ..

@[simp]
lemma unlink_buckets_ne (t : Chains κ δ) (id : Nat) (h : j ≠ i) :
    (t.unlink i id).buckets j = t.buckets j := update_of_ne h ..

@[simp]
lemma insertAt_buckets_self (t : Chains κ δ) (i pos : Nat) (k : κ) (d : δ) :
    (t.insertAt i pos k d).buckets i =
      (t.buckets i).take pos ++ ⟨t.fresh, k, d⟩ :: (t.buckets i).drop pos :=
  update_self ..

@[simp]
lemma insertAt_buckets_ne (t : Chains κ δ) (pos : Nat) (k : κ) (d : δ) (h : j ≠ i) :
    (t.insertAt i pos k d).buckets j = t.buckets j := update_of_ne h ..

lemma eraseP_id {l pre post : List (Node κ δ)} (hl : l = pre ++ n :: post)
    (hnodup : (l.map Node.id).Nodup) : l.eraseP (·.id = n.id) = pre ++ post := by
  rw [hl, map_append, nodup_append] at hnodup
  have hpre : ∀ m ∈ pre, ¬ decide (m.id = n.id) = true := by
    intro m hm heq
    exact hnodup.2.2 m.id (mem_map_of_mem hm) n.id (.head _) (of_decide_eq_true heq)
  rw [hl, eraseP_append_right _ hpre, eraseP_cons_of_pos (by simp)]

/-! ### The operations keep a table well formed -/

/-- Overwriting keeps a table well formed. -/
lemma WellFormed.write (h : t.WellFormed hash) (id : Nat) (f : δ → δ) :
    (t.write id f).WellFormed hash := by
  have hnode : ∀ i, ∀ n ∈ (t.write id f).buckets i,
      ∃ m ∈ t.buckets i, m.id = n.id ∧ m.key = n.key := by
    intro i n hn
    obtain ⟨m, hm, rfl⟩ := mem_map.mp hn
    refine ⟨m, hm, ?_⟩
    split_ifs <;> exact ⟨rfl, rfl⟩
  refine ⟨fun i n hn => ?_, fun i n hn => ?_, fun i => ?_, fun i j n hn m hm hid => ?_⟩
  · obtain ⟨m, hm, -, hkey⟩ := hnode i n hn
    rw [← hkey]
    exact h.hashed i m hm
  · obtain ⟨m, hm, hid, -⟩ := hnode i n hn
    rw [← hid]
    exact h.lt_fresh i m hm
  · have hids : ((t.write id f).buckets i).map Node.id = (t.buckets i).map Node.id := by
      rw [Chains.write, map_map]
      refine map_congr_left fun n _ => ?_
      simp only [Function.comp_apply]
      split_ifs <;> rfl
    rw [hids]
    exact h.nodup i
  · obtain ⟨n', hn', hidn, -⟩ := hnode i n hn
    obtain ⟨m', hm', hidm, -⟩ := hnode j m hm
    exact h.bucket_eq i j n' hn' m' hm' (hidn.trans (hid.trans hidm.symm))

/-- Unlinking keeps a table well formed. -/
lemma WellFormed.unlink (h : t.WellFormed hash) (i id : Nat) :
    (t.unlink i id).WellFormed hash := by
  have hsub : ∀ j, ((t.unlink i id).buckets j).Sublist (t.buckets j) := by
    intro j
    by_cases hj : j = i
    · subst hj
      rw [unlink_buckets_self]
      exact eraseP_sublist
    · rw [unlink_buckets_ne _ _ hj]
  exact ⟨fun j n hn => h.hashed j n ((hsub j).subset hn),
    fun j n hn => h.lt_fresh j n ((hsub j).subset hn),
    fun j => (h.nodup j).sublist ((hsub j).map _),
    fun j j' n hn m hm => h.bucket_eq j j' n ((hsub j).subset hn) m ((hsub j').subset hm)⟩

lemma mem_insertAt (hn : n ∈ (t.insertAt i pos k d).buckets j) :
    n ∈ t.buckets j ∨ (j = i ∧ n = ⟨t.fresh, k, d⟩) := by
  by_cases hj : j = i
  · subst hj
    simp only [insertAt_buckets_self, mem_append, mem_cons] at hn
    rcases hn with hn | rfl | hn
    · exact .inl (mem_of_mem_take hn)
    · exact .inr ⟨rfl, rfl⟩
    · exact .inl (mem_of_mem_drop hn)
  · rw [insertAt_buckets_ne _ _ _ _ hj] at hn
    exact .inl hn

lemma map_id_insertAt (t : Chains κ δ) (i pos : Nat) (k : κ) (d : δ) :
    (((t.insertAt i pos k d).buckets i).map Node.id).Perm
      (t.fresh :: (t.buckets i).map Node.id) := by
  rw [insertAt_buckets_self, map_append]
  refine perm_middle.trans (Perm.cons _ ?_)
  rw [← map_append, take_append_drop]

/-- Inserting keeps a table well formed. -/
lemma WellFormed.insertAt (h : t.WellFormed hash) (pos : Nat) (k : κ) (d : δ) :
    (t.insertAt (hash k) pos k d).WellFormed hash := by
  refine ⟨fun i n hn => ?_, fun i n hn => ?_, fun i => ?_, fun i j n hn m hm hid => ?_⟩
  · rcases mem_insertAt hn with hn | ⟨rfl, rfl⟩
    · exact h.hashed i n hn
    · rfl
  · rcases mem_insertAt hn with hn | ⟨rfl, rfl⟩
    · exact (h.lt_fresh i n hn).trans (Nat.lt_succ_self _)
    · exact Nat.lt_succ_self _
  · by_cases hi : i = hash k
    · subst hi
      have hold : t.fresh ∉ (t.buckets (hash k)).map Node.id := by
        intro hmem
        obtain ⟨n, hn, hid⟩ := mem_map.mp hmem
        exact absurd hid (h.lt_fresh _ n hn).ne
      exact (map_id_insertAt ..).nodup_iff.mpr (nodup_cons.mpr ⟨hold, h.nodup _⟩)
    · rw [insertAt_buckets_ne _ _ _ _ hi]
      exact h.nodup i
  · rcases mem_insertAt hn with hn | ⟨rfl, rfl⟩
    · rcases mem_insertAt hm with hm | ⟨rfl, rfl⟩
      · exact h.bucket_eq i j n hn m hm hid
      · exact absurd hid (h.lt_fresh i n hn).ne
    · rcases mem_insertAt hm with hm | ⟨rfl, rfl⟩
      · exact absurd hid.symm (h.lt_fresh j m hm).ne
      · rfl

/-! ### Chains -/

section Chain

variable [DecidableEq κ] {k k' : κ}

variable (hash) in
/-- The nodes of a key, in the order a search finds them. -/
def chain (t : Chains κ δ) (k : κ) : List (Node κ δ) := (t.buckets (hash k)).filter (·.key = k)

lemma mem_chain : n ∈ t.chain hash k ↔ n ∈ t.buckets (hash k) ∧ n.key = k := by
  rw [chain, mem_filter, decide_eq_true_iff]

lemma WellFormed.nodup_chain (h : t.WellFormed hash) (k : κ) :
    ((t.chain hash k).map Node.id).Nodup :=
  (h.nodup (hash k)).sublist (Sublist.map _ filter_sublist)

lemma WellFormed.id_ne_of_key_ne (h : t.WellFormed hash) (hn : n ∈ t.chain hash k)
    (hm : m ∈ t.chain hash k') (hk : k' ≠ k) : m.id ≠ n.id := by
  intro hid
  obtain ⟨hn, rfl⟩ := mem_chain.mp hn
  obtain ⟨hm, rfl⟩ := mem_chain.mp hm
  exact hk (congrArg Node.key (h.eq_of_id_eq hm hn hid))

lemma chain_write (t : Chains κ δ) (id : Nat) (f : δ → δ) (k : κ) :
    (t.write id f).chain hash k = (t.chain hash k).map fun n =>
      if n.id = id then { n with datum := f n.datum } else n := by
  rw [write, chain, filter_map]
  congr 2
  funext n
  simp only [Function.comp_apply]
  split_ifs <;> rfl

section

variable (h : t.WellFormed hash)

include h

/-- Overwriting a node of a chain. -/
lemma chain_write_self {pre post : List (Node κ δ)}
    (hk : t.chain hash k = pre ++ n :: post) (f : δ → δ) :
    (t.write n.id f).chain hash k = pre ++ { n with datum := f n.datum } :: post := by
  have hnodup := h.nodup_chain k
  rw [hk, map_append, map_cons, nodup_append, nodup_cons] at hnodup
  obtain ⟨-, ⟨hpost, -⟩, hpre⟩ := hnodup
  have hkeep : ∀ l : List (Node κ δ), (∀ m ∈ l, m.id ≠ n.id) →
      l.map (fun m => if m.id = n.id then { m with datum := f m.datum } else m) = l := by
    intro l hl
    refine (map_congr_left fun m hm => ?_).trans (map_id l)
    rw [if_neg (hl m hm)]
    rfl
  rw [chain_write, hk, map_append, map_cons, if_pos rfl]
  congr 2
  · exact hkeep pre fun m hm heq => hpre m.id (mem_map_of_mem hm) n.id (.head _) heq
  · exact hkeep post fun m hm heq => hpost (heq ▸ mem_map_of_mem hm)

lemma chain_write_ne (hn : n ∈ t.chain hash k) (hk : k' ≠ k) (f : δ → δ) :
    (t.write n.id f).chain hash k' = t.chain hash k' := by
  rw [chain_write]
  refine (map_congr_left fun m hm => ?_).trans (map_id _)
  rw [if_neg (h.id_ne_of_key_ne hn hm hk)]
  rfl

/-- Unlinking a node of a chain. -/
lemma chain_unlink_self {pre post : List (Node κ δ)}
    (hk : t.chain hash k = pre ++ n :: post) :
    (t.unlink (hash k) n.id).chain hash k = pre ++ post := by
  have hn : n ∈ t.chain hash k := hk ▸ mem_append_right _ (.head _)
  obtain ⟨hmem, hkey⟩ := mem_chain.mp hn
  obtain ⟨l₁, l₂, hl⟩ := append_of_mem hmem
  rw [chain, unlink_buckets_self, eraseP_id hl (h.nodup _), filter_append]
  -- the bucket splits around the node as the chain does
  have hsplit : t.chain hash k = l₁.filter (·.key = k) ++ n :: l₂.filter (·.key = k) := by
    rw [chain, hl, filter_append, filter_cons_of_pos (by simpa using hkey)]
  have hnodup := h.nodup_chain k
  have herase := eraseP_id hsplit hnodup
  rw [eraseP_id hk hnodup] at herase
  exact herase.symm

lemma chain_unlink_ne (hn : n ∈ t.chain hash k) (hk : k' ≠ k) :
    (t.unlink (hash k) n.id).chain hash k' = t.chain hash k' := by
  rw [chain]
  by_cases hb : hash k' = hash k
  · obtain ⟨hmem, hkey⟩ := mem_chain.mp hn
    obtain ⟨l₁, l₂, hl⟩ := append_of_mem hmem
    rw [hb, unlink_buckets_self, eraseP_id hl (h.nodup _), chain, hb, hl, filter_append,
      filter_append, filter_cons_of_neg]
    rw [hkey]
    simpa using hk.symm
  · rw [unlink_buckets_ne _ _ hb]
    rfl

end

lemma chain_insertAt_self (hash : κ → Nat) (t : Chains κ δ) (pos : Nat) (k : κ) (d : δ) :
    ∃ pre post, t.chain hash k = pre ++ post ∧
      (t.insertAt (hash k) pos k d).chain hash k = pre ++ ⟨t.fresh, k, d⟩ :: post := by
  refine ⟨((t.buckets (hash k)).take pos).filter (·.key = k),
    ((t.buckets (hash k)).drop pos).filter (·.key = k), ?_, ?_⟩
  · rw [← filter_append, take_append_drop]
    rfl
  · rw [chain, insertAt_buckets_self, filter_append, filter_cons_of_pos (by simp)]

lemma chain_insertAt_ne (hash : κ → Nat) (t : Chains κ δ) (pos : Nat) (d : δ) (hk : k' ≠ k) :
    (t.insertAt (hash k) pos k d).chain hash k' = t.chain hash k' := by
  rw [chain]
  by_cases hb : hash k' = hash k
  · rw [hb, insertAt_buckets_self, filter_append,
      filter_cons_of_neg (by simpa using hk.symm), ← filter_append,
      take_append_drop, chain, hb]
  · rw [insertAt_buckets_ne _ _ _ _ hb]
    rfl

end Chain

end Chains

end Magisk.Lib
