import Mathlib.Data.UInt
import Magisk.Lib.Chains

/-!
# The access vector table

The table libsepol keeps the rules of a policy in, and the functions that look up,
insert and remove its nodes.  The code of libsepol is not part of the repository: the
functions of it that are called are a parameter, with what they promise.

* `LibsepolAvtab`: `avtab_hash`, `avtab_search_node` and the like; `reference` is a
  table that keeps their promises;
* `insertAvtabNode`, `findAvtabNode`, `getAvtabNode`, `avtabRemoveNode`,
  `isRedundant`: the functions on nodes;
* `LibsepolAvtab.Update`: from one table to another, only the nodes of one key change;
* `update_write`, `update_remove`, `update_insert`, `update_get`: what the functions do
  to the nodes of a key.
-/

namespace Magisk.Sepolicy

open Magisk.Lib List

/-! ### Keys and data -/

/-- The kinds of rules, the `specified` field of a key. -/
inductive Specified where
  | allowed | auditallow | auditdeny
  | transition | member | change
  | xpermsAllowed | xpermsAuditallow | xpermsDontaudit
  deriving DecidableEq

/-- `specified & AVTAB_XPERMS`. -/
def Specified.isXperms : Specified → Bool
  | .xpermsAllowed | .xpermsAuditallow | .xpermsDontaudit => true
  | _ => false

/-- `avtab_key_t`. -/
structure AvtabKey where
  sourceType : UInt16
  targetType : UInt16
  targetClass : UInt16
  specified : Specified
  deriving DecidableEq

/-- What the bits of an extended permission node stand for. -/
inductive XpermsSpecified where
  | ioctlfunction
  | ioctldriver
  | other (n : UInt8)
  deriving DecidableEq

/-- `avtab_extended_perms_t`. -/
structure AvtabExtendedPerms where
  specified : XpermsSpecified
  driver : UInt8
  perms : BitVec 256
  deriving DecidableEq

/-- `avtab_datum_t`. -/
structure AvtabDatum where
  data : BitVec 32
  xperms : Option AvtabExtendedPerms
  deriving DecidableEq

/-- `avtab_ptr_t`. -/
abbrev AvtabNode := Node AvtabKey AvtabDatum

/-- `avtab_t`. -/
structure Avtab where
  htable : Chains AvtabKey AvtabDatum
  nel : UInt32
  mask : UInt32

/-- An assignment to the datum of a node. -/
def Avtab.write (h : Avtab) (node : AvtabNode) (f : AvtabDatum → AvtabDatum) : Avtab :=
  { h with htable := h.htable.write node.id f }

/-! ### What is called of libsepol -/

/-- The nodes of a key, in the order of their bucket. -/
def Avtab.nodes (avtabHash : AvtabKey → UInt32 → Nat) (h : Avtab) (key : AvtabKey) :
    List AvtabNode := h.htable.chain (avtabHash · h.mask) key

/-- The functions of libsepol on access vector tables.  A search finds the nodes of a key
one after the other, an insertion adds one node and does not look for others of its key. -/
structure LibsepolAvtab where
  avtabHash : AvtabKey → UInt32 → Nat
  avtabSearchNode : Avtab → AvtabKey → Option AvtabNode
  avtabSearchNodeNext : Avtab → AvtabNode → Specified → Option AvtabNode
  avtabInsertNonunique : Avtab → AvtabKey → AvtabDatum → Avtab × AvtabNode
  /-- The tables that libsepol hands out and keeps. -/
  Valid : Avtab → Prop
  wellFormed {h : Avtab} : Valid h → h.htable.WellFormed (avtabHash · h.mask)
  search {h : Avtab} (key : AvtabKey) : Valid h →
    avtabSearchNode h key = (h.nodes avtabHash key).head?
  searchNext {h : Avtab} {key : AvtabKey} {pre post : List AvtabNode} {node : AvtabNode} :
    Valid h → h.nodes avtabHash key = pre ++ node :: post →
    avtabSearchNodeNext h node key.specified = post.head?
  /-- The data word of the new node is the one given. -/
  insert {h : Avtab} (key : AvtabKey) (datum : AvtabDatum) : Valid h →
    ∃ pos datum', datum'.data = datum.data ∧ avtabInsertNonunique h key datum =
      ({ h with htable := h.htable.insertAt (avtabHash key h.mask) pos key datum'
                nel := h.nel + 1 }, ⟨h.htable.fresh, key, datum'⟩)
  valid_insert {h : Avtab} (key : AvtabKey) (datum : AvtabDatum) : Valid h →
    Valid (avtabInsertNonunique h key datum).1
  /-- The order of a bucket does not depend on the data. -/
  valid_write {h : Avtab} (node : AvtabNode) (f : AvtabDatum → AvtabDatum) : Valid h →
    Valid (h.write node f)
  valid_unlink {h : Avtab} {key : AvtabKey} {node : AvtabNode} : Valid h →
    node ∈ h.nodes avtabHash key →
    Valid { h with htable := h.htable.unlink (avtabHash key h.mask) node.id
                   nel := h.nel - 1 }

/-- The rest of the nodes of a key begins after the node with the identity. -/
lemma dropWhile_nodes {hash : AvtabKey → UInt32 → Nat} {h : Avtab} (hv : h.htable.WellFormed (hash · h.mask))
    (hn : h.nodes hash key = pre ++ node :: post) :
    ((h.nodes hash { node.key with specified := key.specified }).dropWhile
      (·.id ≠ node.id)).tail.head? = post.head? := by
  have hmem : node ∈ h.nodes hash key := hn ▸ mem_append_right pre (.head _)
  obtain ⟨-, rfl⟩ := (@Chains.mem_chain _ _ node (hash · h.mask) h.htable _ key).mp hmem
  have hids : ((pre ++ node :: post).map Node.id).Nodup := hn ▸ hv.nodup_chain node.key
  rw [map_append, nodup_append] at hids
  have hpre : ∀ m ∈ pre, m.id ≠ node.id := fun m hm =>
    hids.2.2 m.id (mem_map_of_mem hm) node.id (.head _)
  rw [hn, dropWhile_append_of_pos (by simpa using hpre),
    dropWhile_cons_of_neg (by simp), tail_cons]

/-- A table of hashed buckets with new nodes in front keeps the promises. -/
def LibsepolAvtab.reference : LibsepolAvtab :=
  let hash (key : AvtabKey) (mask : UInt32) : Nat :=
    (key.targetClass.toNat + 4 * key.targetType.toNat + 512 * key.sourceType.toNat) &&& mask.toNat
  { avtabHash := hash
    avtabSearchNode := fun h key => (h.nodes hash key).head?
    avtabSearchNodeNext := fun h node specified =>
      ((h.nodes hash { node.key with specified := specified }).dropWhile
        (·.id ≠ node.id)).tail.head?
    avtabInsertNonunique := fun h key datum =>
      ({ h with htable := h.htable.insertAt (hash key h.mask) 0 key datum, nel := h.nel + 1 },
        ⟨h.htable.fresh, key, datum⟩)
    Valid := fun h => h.htable.WellFormed (hash · h.mask)
    wellFormed := id
    search := fun _ _ => rfl
    searchNext := fun hv hn => dropWhile_nodes hv hn
    insert := fun _ datum _ => ⟨0, datum, rfl, rfl⟩
    valid_insert := fun key datum hv => hv.insertAt 0 key datum
    valid_write := fun node f hv => hv.write node.id f
    valid_unlink := fun hv _ => hv.unlink _ _ }

variable (L : LibsepolAvtab)

/-- The nodes of a key. -/
def LibsepolAvtab.nodes (h : Avtab) (key : AvtabKey) : List AvtabNode := h.nodes L.avtabHash key

/-! ### Functions on nodes -/

/-- `avtab_remove_node`; nothing is returned where the node is not found. -/
def avtabRemoveNode (h : Avtab) (node : AvtabNode) : Option Avtab :=
  let hvalue := L.avtabHash node.key h.mask
  if ∃ cur ∈ h.htable.buckets hvalue, cur.id = node.id then
    some { h with htable := h.htable.unlink hvalue node.id, nel := h.nel - 1 }
  else none

/-- `is_redundant`.  The label `AVTAB_XPERMS` of its `switch` is a mask of three bits,
which no key has for its kind. -/
def isRedundant (node : AvtabNode) : Bool :=
  match node.key.specified with
  | .auditdeny => node.datum.data = BitVec.allOnes 32
  | _ => node.datum.data = 0#32

/-- `find_avtab_node`.  For extended permissions, both ends of its loop leave a null
pointer behind. -/
def findAvtabNode (h : Avtab) (key : AvtabKey) (_xperms : Option AvtabExtendedPerms) :
    Option AvtabNode :=
  if key.specified.isXperms then none else L.avtabSearchNode h key

/-- The data of a new node. -/
def defaultData (specified : Specified) : BitVec 32 :=
  if specified = .auditdeny then BitVec.allOnes 32 else 0#32

/-- `insert_avtab_node`. -/
def insertAvtabNode (h : Avtab) (key : AvtabKey) : Avtab × AvtabNode :=
  L.avtabInsertNonunique h key ⟨defaultData key.specified, none⟩

/-- `get_avtab_node`. -/
def getAvtabNode (h : Avtab) (key : AvtabKey) (xperms : Option AvtabExtendedPerms) :
    Avtab × AvtabNode :=
  match findAvtabNode L h key xperms with
  | some node => (h, node)
  | none => insertAvtabNode L h key

/-- The loop over `avtab_search_node_next` that starts at a node. -/
def searchNodes (h : Avtab) (key : AvtabKey) : Nat → Option AvtabNode → List AvtabNode
  | fuel + 1, some node =>
    node :: searchNodes h key fuel (L.avtabSearchNodeNext h node key.specified)
  | _, _ => []

/-- All that the loop finds for a key; it stays in one bucket. -/
def searchAll (h : Avtab) (key : AvtabKey) : List AvtabNode :=
  searchNodes L h key (h.htable.buckets (L.avtabHash key h.mask)).length (L.avtabSearchNode h key)

/-! ### What the functions do -/

/-- From one table to another, the nodes of one key become these, and those of all other
keys stay. -/
structure LibsepolAvtab.Update (h h' : Avtab) (key : AvtabKey) (nodes : List AvtabNode) :
    Prop where
  valid : L.Valid h'
  self : L.nodes h' key = nodes
  ne : ∀ key', key' ≠ key → L.nodes h' key' = L.nodes h key'

variable {L} {h h' h'' : Avtab} {key : AvtabKey} {post : List AvtabNode} {node : AvtabNode}

lemma LibsepolAvtab.Update.refl (hv : L.Valid h) (key : AvtabKey) :
    L.Update h h key (L.nodes h key) := ⟨hv, rfl, fun _ _ => rfl⟩

lemma LibsepolAvtab.Update.trans {nodes nodes' : List AvtabNode} (h₁ : L.Update h h' key nodes)
    (h₂ : L.Update h' h'' key nodes') : L.Update h h'' key nodes' :=
  ⟨h₂.valid, h₂.self, fun k hk => (h₂.ne k hk).trans (h₁.ne k hk)⟩

lemma LibsepolAvtab.mem_nodes : node ∈ L.nodes h key ↔
    node ∈ h.htable.buckets (L.avtabHash key h.mask) ∧ node.key = key :=
  @Chains.mem_chain _ _ node (L.avtabHash · h.mask) h.htable _ key

section

variable (hv : L.Valid h) (pre : List AvtabNode) (hn : L.nodes h key = pre ++ node :: post)

include hv pre hn

lemma update_write (f : AvtabDatum → AvtabDatum) :
    L.Update h (h.write node f) key (pre ++ { node with datum := f node.datum } :: post) := by
  have hmem : node ∈ L.nodes h key := hn ▸ mem_append_right _ (.head _)
  have hwf := L.wellFormed hv
  exact ⟨L.valid_write node f hv, Chains.chain_write_self hwf hn f,
    fun k hk => Chains.chain_write_ne hwf hmem hk f⟩

lemma update_remove :
    L.Update h ((avtabRemoveNode L h node).getD h) key (pre ++ post) := by
  have hmem : node ∈ L.nodes h key := hn ▸ mem_append_right _ (.head _)
  obtain ⟨hbucket, hkey⟩ := LibsepolAvtab.mem_nodes.mp hmem
  have hwf := L.wellFormed hv
  rw [avtabRemoveNode, hkey, if_pos ⟨node, hbucket, rfl⟩]
  exact ⟨L.valid_unlink hv hmem, Chains.chain_unlink_self hwf hn,
    fun k hk => Chains.chain_unlink_ne hwf hmem hk⟩

end

/-- A new node stands among the nodes of its key and has the default data. -/
lemma update_insert (hv : L.Valid h) (key : AvtabKey) :
    ∃ pre post, L.nodes h key = pre ++ post ∧
      L.Update h (insertAvtabNode L h key).1 key (pre ++ (insertAvtabNode L h key).2 :: post) ∧
      (insertAvtabNode L h key).2.key = key ∧
      (insertAvtabNode L h key).2.datum.data = defaultData key.specified := by
  obtain ⟨pos, datum, hdata, hins⟩ := L.insert key ⟨defaultData key.specified, none⟩ hv
  obtain ⟨pre, post, hold, hnew⟩ :=
    Chains.chain_insertAt_self (L.avtabHash · h.mask) h.htable pos key datum
  have hvalid := L.valid_insert key ⟨defaultData key.specified, none⟩ hv
  rw [insertAvtabNode]
  rw [hins] at hvalid ⊢
  exact ⟨pre, post, hold, ⟨hvalid, hnew, fun k hk =>
    Chains.chain_insertAt_ne (L.avtabHash · h.mask) h.htable pos datum hk⟩, rfl, hdata⟩

/-- The first node of a key, a new one if there is none. -/
lemma update_get (hv : L.Valid h) (hk : key.specified.isXperms = false) :
    ∃ post, L.Update h (getAvtabNode L h key none).1 key ((getAvtabNode L h key none).2 :: post) ∧
      (L.nodes h key = (getAvtabNode L h key none).2 :: post ∨
        L.nodes h key = [] ∧ post = [] ∧
          (getAvtabNode L h key none).2.datum.data = defaultData key.specified) := by
  have hfind : findAvtabNode L h key none = (L.nodes h key).head? := by
    rw [findAvtabNode, hk, L.search key hv]
    rfl
  rw [getAvtabNode, hfind]
  cases hnodes : L.nodes h key with
  | nil =>
    obtain ⟨pre, post, hold, hup, -, hdata⟩ := update_insert hv key
    rw [hnodes] at hold
    obtain ⟨rfl, rfl⟩ := append_eq_nil_iff.mp hold.symm
    exact ⟨[], hup, .inr ⟨rfl, rfl, hdata⟩⟩
  | cons node post =>
    refine ⟨post, ?_, .inl rfl⟩
    rw [head?_cons, ← hnodes]
    exact .refl hv key

/-- From one table to another, the nodes of one key become those with a property, and those
of all other keys stay: what is left of `Update` where the order does not matter. -/
structure LibsepolAvtab.Becomes (L : LibsepolAvtab) (h h' : Avtab) (key : AvtabKey)
    (P : AvtabNode → Prop) : Prop where
  valid : L.Valid h'
  mem : ∀ node, node ∈ L.nodes h' key ↔ P node
  ne : ∀ key', key' ≠ key → L.nodes h' key' = L.nodes h key'

lemma LibsepolAvtab.Update.becomes {nodes : List AvtabNode}
    (hup : L.Update h h' key nodes) (hP : ∀ node, node ∈ nodes ↔ P node) :
    L.Becomes h h' key P := ⟨hup.valid, fun node => hup.self ▸ hP node, hup.ne⟩

lemma LibsepolAvtab.Becomes.trans (h₁ : L.Becomes h h' key P)
    (h₂ : L.Becomes h' h'' key Q) : L.Becomes h h'' key Q :=
  ⟨h₂.valid, h₂.mem, fun k hk => (h₂.ne k hk).trans (h₁.ne k hk)⟩

lemma LibsepolAvtab.Becomes.refl (hv : L.Valid h) (key : AvtabKey) :
    L.Becomes h h key (· ∈ L.nodes h key) := ⟨hv, fun _ => Iff.rfl, fun _ _ => rfl⟩

lemma LibsepolAvtab.Becomes.congr (hb : L.Becomes h h' key P)
    (hPQ : ∀ node, P node ↔ Q node) : L.Becomes h h' key Q :=
  ⟨hb.valid, fun node => (hb.mem node).trans (hPQ node), hb.ne⟩

variable (hv : L.Valid h)

include hv

lemma LibsepolAvtab.nodup_nodes (key : AvtabKey) : (L.nodes h key).Nodup :=
  Nodup.of_map _ ((L.wellFormed hv).nodup_chain key)

/-- The nodes around a node are the others. -/
lemma mem_around (hn : L.nodes h key = pre ++ node :: post) (m : AvtabNode) :
    m ∈ pre ++ post ↔ m ∈ L.nodes h key ∧ m ≠ node := by
  have hnodup := L.nodup_nodes hv key
  rw [hn, nodup_middle, nodup_cons] at hnodup
  rw [hn, mem_append, mem_append, mem_cons]
  constructor
  · rintro hm
    refine ⟨hm.imp_right .inr, ?_⟩
    rintro rfl
    exact hnodup.1 (mem_append.mpr hm)
  · rintro ⟨hm | rfl | hm, hne⟩
    · exact .inl hm
    · exact absurd rfl hne
    · exact .inr hm

lemma becomes_write (hn : node ∈ L.nodes h key)
    (f : AvtabDatum → AvtabDatum) :
    L.Becomes h (h.write node f) key fun m =>
      m = { node with datum := f node.datum } ∨ (m ∈ L.nodes h key ∧ m ≠ node) := by
  obtain ⟨pre, post, hsplit⟩ := append_of_mem hn
  refine (update_write hv pre hsplit f).becomes fun m => ?_
  rw [← mem_around hv hsplit, mem_append, mem_append, mem_cons]
  exact or_left_comm

lemma becomes_remove (hn : node ∈ L.nodes h key) :
    L.Becomes h ((avtabRemoveNode L h node).getD h) key fun m => m ∈ L.nodes h key ∧ m ≠ node := by
  obtain ⟨pre, post, hsplit⟩ := append_of_mem hn
  exact (update_remove hv pre hsplit).becomes fun m => mem_around hv hsplit m

lemma searchNodes_eq (hn : L.nodes h key = pre ++ post) (hfuel : post.length ≤ fuel) :
    searchNodes L h key fuel post.head? = post := by
  induction post generalizing pre fuel with
  | nil => cases fuel <;> rfl
  | cons node post ih =>
    cases fuel with
    | zero => simp at hfuel
    | succ fuel =>
      rw [head?_cons, searchNodes, L.searchNext hv hn]
      have hn' : L.nodes h key = (pre ++ [node]) ++ post := by rw [hn]; simp
      rw [ih hn' (Nat.le_of_succ_le_succ hfuel)]

lemma searchAll_eq (key : AvtabKey) : searchAll L h key = L.nodes h key := by
  rw [searchAll, L.search key hv]
  exact searchNodes_eq hv (nil_append _).symm (length_filter_le _ _)

end Magisk.Sepolicy
