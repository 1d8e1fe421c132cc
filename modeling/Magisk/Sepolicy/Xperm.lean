import Magisk.Lib.Bits
import Magisk.Sepolicy.Grammar
import Magisk.Sepolicy.Policy

/-!
# Extended permission rules

What the `allowxperm` statements do to the set of ioctl commands that is allowed for a
key.  The set is kept in nodes of two kinds: a driver node has a bit for all commands of
a driver, a function node has a bit for every command of one driver.

* `Allowed`: the set of allowed commands;
* `Xperm.Covers`: what the code sets or clears for a range; a range over more than one
  driver is taken for all commands of its drivers;
* `allowed_setXperm`, `allowed_resetXperm`: the set after one range;
* `xpermsUnique_runXperms`: a key keeps one node for each purpose;
* `allowxperm_iff`: a list of ranges adds just its commands exactly when the commands it
  covers in excess were allowed anyway;
* `allowxperm_complement_iff`: the complement of a list is allowed exactly when its last
  range covers the list;
* `zero_clears_iff`: the value 0, which should clear the set, fills it.
-/

namespace Magisk.Sepolicy

open Token hiding ST
open List

variable (L : Libsepol)

/-! ### Commands and ranges -/

/-- Does a node allow a command? -/
def allows (node : AvtabNode) (cmd : UInt16) : Bool :=
  match node.datum.xperms with
  | some x =>
    match x.specified with
    | .ioctldriver => x.perms.getLsbD (ioctlDriver cmd).toNat
    | .ioctlfunction => x.driver = ioctlDriver cmd && x.perms.getLsbD (ioctlFunc cmd).toNat
    | .other _ => false
  | none => false

/-- A command is allowed for a key. -/
def Allowed (h : Avtab) (key : AvtabKey) (cmd : UInt16) : Prop :=
  ∃ node ∈ L.nodes h key, allows node cmd = true

/-- What the bits from one to another stand for in a node of this place. -/
def SlotCovers (slot : Option UInt8) (low high : UInt8) (cmd : UInt16) : Prop :=
  match slot with
  | none => low ≤ ioctlDriver cmd ∧ ioctlDriver cmd ≤ high
  | some driver => driver = ioctlDriver cmd ∧ low ≤ ioctlFunc cmd ∧ ioctlFunc cmd ≤ high

/-- Does a range start and end in different drivers? -/
def Xperm.crosses (p : Xperm) : Bool := ioctlDriver p.low ≠ ioctlDriver p.high

/-- The node a range is kept in. -/
def Xperm.slot (p : Xperm) : Option UInt8 := if p.crosses then none else some (ioctlDriver p.low)

/-- The first bit of a range. -/
def Xperm.first (p : Xperm) : UInt8 := if p.crosses then ioctlDriver p.low else ioctlFunc p.low

/-- The last bit of a range. -/
def Xperm.last (p : Xperm) : UInt8 := if p.crosses then ioctlDriver p.high else ioctlFunc p.high

/-- The commands that are set or cleared for a range. -/
def Xperm.Covers (p : Xperm) (cmd : UInt16) : Prop := SlotCovers p.slot p.first p.last cmd

lemma toNat_ioctlDriver (x : UInt16) : (ioctlDriver x).toNat = x.toNat / 256 :=
  Lib.toNat_highByte x

lemma toNat_ioctlFunc (x : UInt16) : (ioctlFunc x).toNat = x.toNat % 256 := Lib.toNat_lowByte x

/-- A range covers its commands and, if it runs through several drivers, all of theirs. -/
lemma Xperm.covers_iff (p : Xperm) (cmd : UInt16) :
    p.Covers cmd ↔ (p.low ≤ cmd ∧ cmd ≤ p.high) ∨ (ioctlDriver p.low ≠ ioctlDriver p.high ∧
      ioctlDriver p.low ≤ ioctlDriver cmd ∧ ioctlDriver cmd ≤ ioctlDriver p.high) := by
  rw [Xperm.Covers, Xperm.slot, Xperm.first, Xperm.last, Xperm.crosses]
  by_cases hc : ioctlDriver p.low = ioctlDriver p.high
  · have hdiv := congrArg UInt8.toNat hc
    rw [toNat_ioctlDriver, toNat_ioctlDriver] at hdiv
    simp only [hc, ne_eq, not_true_eq_false, decide_false, Bool.false_eq_true, if_false, SlotCovers,
      false_and, or_false, UInt16.le_iff_toNat_le, UInt8.le_iff_toNat_le, ← UInt8.toNat_inj,
      toNat_ioctlDriver, toNat_ioctlFunc]
    omega
  · simp only [hc, ne_eq, not_false_eq_true, decide_true, if_true, SlotCovers, true_and,
      UInt16.le_iff_toNat_le, UInt8.le_iff_toNat_le, toNat_ioctlDriver]
    omega

lemma XpermItem.covers_iff (item : XpermItem) (reset : Bool) (cmd : UInt16) :
    (item.toXperm reset).Covers cmd ↔
      (item.low ≤ cmd ∧ cmd ≤ item.high) ∨ (ioctlDriver item.low ≠ ioctlDriver item.high ∧
        ioctlDriver item.low ≤ ioctlDriver cmd ∧ ioctlDriver cmd ≤ ioctlDriver item.high) :=
  Xperm.covers_iff (item.toXperm reset) cmd

/-! ### Bits -/

lemma mem_forBits {low high i : UInt8} :
    i.toNat ∈ List.range' low.toNat (high.toNat + 1 - low.toNat) ↔ low ≤ i ∧ i ≤ high := by
  rw [mem_range'_1, UInt8.le_iff_toNat_le, UInt8.le_iff_toNat_le]
  omega

lemma getLsbD_forBits_set (low high : UInt8) (perms : BitVec 256) (i : UInt8) :
    (forBits xpermSet low high perms).getLsbD i.toNat = true ↔
      perms.getLsbD i.toNat = true ∨ (low ≤ i ∧ i ≤ high) := by
  have hbit := Lib.getLsbD_foldl_set (List.range' low.toNat (high.toNat + 1 - low.toNat)) perms
    i.toNat_lt
  simp only [forBits, xpermSet, hbit, Bool.or_eq_true, decide_eq_true_eq, mem_forBits]

lemma getLsbD_forBits_clear (low high : UInt8) (perms : BitVec 256) (i : UInt8) :
    (forBits xpermClear low high perms).getLsbD i.toNat = true ↔
      perms.getLsbD i.toNat = true ∧ ¬ (low ≤ i ∧ i ≤ high) := by
  have hbit := Lib.getLsbD_foldl_clear (List.range' low.toNat (high.toNat + 1 - low.toNat)) perms
    i.toNat_lt
  simp only [forBits, xpermClear, hbit, Bool.and_eq_true, Bool.not_eq_true',
    decide_eq_false_iff_not, mem_forBits]

/-! ### Nodes -/

/-- The bits of a node. -/
def nodePerms (node : AvtabNode) : BitVec 256 := (node.datum.xperms.map (·.perms)).getD 0#256

/-- The command a bit of a node of this place stands for. -/
def SlotBit (slot : Option UInt8) (perms : BitVec 256) (cmd : UInt16) : Prop :=
  match slot with
  | none => perms.getLsbD (ioctlDriver cmd).toNat = true
  | some driver => driver = ioctlDriver cmd ∧ perms.getLsbD (ioctlFunc cmd).toNat = true

/-- A node of a place, with its bits. -/
structure AtSlot (slot : Option UInt8) (perms : BitVec 256) (node : AvtabNode) : Prop where
  slot : nodeSlot node = some slot
  perms : nodePerms node = perms

section Nodes

variable {node : AvtabNode} {slot : Option UInt8} {perms : BitVec 256} {cmd : UInt16}

/-- What a node allows, by its place. -/
lemma AtSlot.allows_iff (h : AtSlot slot perms node) :
    allows node cmd = true ↔ SlotBit slot perms cmd := by
  obtain ⟨id, key, data, xperms⟩ := node
  obtain ⟨hs, rfl⟩ := h
  cases xperms with
  | none => cases hs
  | some x =>
    obtain ⟨specified, driver, perms⟩ := x
    cases specified with
    | ioctldriver =>
      cases hs
      rfl
    | ioctlfunction =>
      cases hs
      simp [allows, SlotBit, nodePerms]
    | other n => cases hs

lemma allows_of_nodeSlot_eq_none (hs : nodeSlot node = none) : allows node cmd = false := by
  obtain ⟨id, key, data, xperms⟩ := node
  cases xperms with
  | none => rfl
  | some x =>
    obtain ⟨specified, driver, perms⟩ := x
    cases specified with
    | other n => rfl
    | _ => cases hs

/-- A node with other bits. -/
def withPerms (f : BitVec 256 → BitVec 256) (node : AvtabNode) : AvtabNode :=
  { node with datum := setPerms f node.datum }

lemma AtSlot.withPerms (h : AtSlot slot perms node) (f : BitVec 256 → BitVec 256) :
    AtSlot slot (f perms) (withPerms f node) := by
  obtain ⟨id, key, data, xperms⟩ := node
  obtain ⟨hs, rfl⟩ := h
  cases xperms with
  | none => cases hs
  | some x => exact ⟨hs, rfl⟩

lemma slotBit_set (slot : Option UInt8) (low high : UInt8) (perms : BitVec 256) (cmd : UInt16) :
    SlotBit slot (forBits xpermSet low high perms) cmd ↔
      SlotBit slot perms cmd ∨ SlotCovers slot low high cmd := by
  cases slot with
  | none => exact getLsbD_forBits_set low high perms _
  | some driver =>
    rw [SlotBit, getLsbD_forBits_set, SlotBit, SlotCovers]
    tauto

lemma slotBit_clear (slot : Option UInt8) (low high : UInt8) (cmd : UInt16) :
    SlotBit slot (forBits xpermClear low high (BitVec.allOnes 256)) cmd ↔
      SlotBit slot (BitVec.allOnes 256) cmd ∧ ¬ SlotCovers slot low high cmd := by
  cases slot with
  | none => exact getLsbD_forBits_clear low high _ _
  | some driver =>
    rw [SlotBit, getLsbD_forBits_clear, SlotBit, SlotCovers]
    tauto

lemma not_slotBit_zero (slot : Option UInt8) (cmd : UInt16) : ¬ SlotBit slot 0#256 cmd := by
  cases slot <;> simp [SlotBit]

end Nodes

/-! ### The list of nodes -/

section NodeList

variable {nodes : List AvtabNode} {i : Option UInt8} {node : AvtabNode}

lemma nodeList_concat (nodes : List AvtabNode) (m : AvtabNode) (i : Option UInt8) :
    nodeList (nodes ++ [m]) i = if nodeSlot m = some i then some m else nodeList nodes i := by
  rw [nodeList, foldl_append, ← nodeList, foldl_cons]
  cases hm : nodeSlot m with
  | none => rfl
  | some j =>
    by_cases hij : i = j
    · simp [hij]
    · simp [Function.update_of_ne hij, Ne.symm hij]

lemma nodeList_eq_some (h : nodeList nodes i = some node) :
    node ∈ nodes ∧ nodeSlot node = some i := by
  induction nodes using List.reverseRecOn with
  | nil => cases h
  | append_singleton nodes m ih =>
    rw [nodeList_concat] at h
    split_ifs at h with hm
    · cases h
      exact ⟨by simp, hm⟩
    · exact ⟨mem_append_left _ (ih h).1, (ih h).2⟩

lemma nodeList_eq_none (h : nodeList nodes i = none) (hn : node ∈ nodes) :
    nodeSlot node ≠ some i := by
  induction nodes using List.reverseRecOn with
  | nil => cases hn
  | append_singleton nodes m ih =>
    rw [nodeList_concat] at h
    split_ifs at h with hm
    rcases mem_append.mp hn with hn | hn
    · exact ih h hn
    · rwa [mem_singleton.mp hn]

end NodeList

/-! ### Setting -/

variable {R : AvtabNode → Prop} {list : NodeList} {driver : UInt8}

section Set

variable {L} {h h' : Avtab} {key : AvtabKey}

lemma allowed_of_becomes (hb : L.Becomes h h' key P) (cmd : UInt16) :
    Allowed L h' key cmd ↔ ∃ node, P node ∧ allows node cmd = true := by
  simp [Allowed, hb.mem]

/-- A new node has its place and no bits. -/
lemma becomes_new (hv : L.Valid h) (key : AvtabKey) (slot : Option UInt8) :
    L.Becomes h (newXpermsNode L key slot h).1 key
        (fun m => m = (newXpermsNode L key slot h).2 ∨ m ∈ L.nodes h key) ∧
      (newXpermsNode L key slot h).2 ∉ L.nodes h key ∧
      AtSlot slot 0#256 (newXpermsNode L key slot h).2 := by
  obtain ⟨pre, post, hold, hup, -, -⟩ := update_insert hv key
  have hw := update_write hup.valid pre hup.self fun d =>
    { d with
      xperms := some (match slot with
        | none => ⟨.ioctldriver, 0, 0#256⟩
        | some driver => ⟨.ioctlfunction, driver, 0#256⟩) }
  refine ⟨(hup.trans hw).becomes fun m => ?_, ?_, ?_⟩
  · rw [hold, mem_append, mem_append, mem_cons]
    exact or_left_comm
  · have hnodup := L.nodup_nodes hw.valid key
    rw [hw.self, nodup_middle, nodup_cons] at hnodup
    rw [hold]
    exact hnodup.1
  · cases slot <;> exact ⟨rfl, rfl⟩

/-- Writing to one of the nodes; the others do not change. -/
lemma becomes_withPerms (hb : L.Becomes h h' key fun m => m = n ∨ R m)
    (hid : n'.id = n.id) (hR : ¬ R n) (f : BitVec 256 → BitVec 256) :
    L.Becomes h (h'.write n' (setPerms f)) key fun m => m = withPerms f n ∨ R m := by
  have hn : n ∈ L.nodes h' key := (hb.mem n).mpr (.inl rfl)
  have hwrite : h'.write n' (setPerms f) = h'.write n (setPerms f) := by
    rw [Avtab.write, hid, ← Avtab.write]
  rw [hwrite]
  refine hb.trans ((becomes_write hb.valid hn (setPerms f)).congr fun m => ?_)
  rw [hb.mem]
  constructor
  · rintro (rfl | ⟨rfl | hm, hne⟩)
    · exact .inl rfl
    · exact absurd rfl hne
    · exact .inr hm
  · rintro (rfl | hm)
    · exact .inl rfl
    · exact .inr ⟨.inr hm, fun heq => hR (heq ▸ hm)⟩

/-- The node of the list, or a new one, stands at its place beside the others. -/
lemma becomes_getXpermsNode (hv : L.Valid h) (list : NodeList) (slot : Option UInt8)
    (hlist : ∀ node, list slot = some node → node ∈ L.nodes h key ∧ nodeSlot node = some slot) :
    let node := (getXpermsNode L key list slot h).2
    nodeSlot node = some slot ∧
      (node ∈ L.nodes h key ∨ list slot = none ∧ nodePerms node = 0#256) ∧
      L.Becomes h (getXpermsNode L key list slot h).1 key
        fun m => m = node ∨ (m ∈ L.nodes h key ∧ m ≠ node) := by
  rw [getXpermsNode]
  cases hl : list slot with
  | some node =>
    obtain ⟨hmem, hslot⟩ := hlist node hl
    refine ⟨hslot, .inl hmem, (LibsepolAvtab.Becomes.refl hv key).congr fun m => ?_⟩
    by_cases hm : m = node
    · simp [hm, hmem]
    · simp [hm]
  | none =>
    obtain ⟨hb, hnew, hslot, hperms⟩ := becomes_new hv key slot
    refine ⟨hslot, .inr ⟨rfl, hperms⟩, hb.congr fun m => or_congr_right ?_⟩
    exact ⟨fun hm => ⟨hm, fun heq => hnew (heq ▸ hm)⟩, And.left⟩

lemma setXperm_eq (key : AvtabKey) (p : Xperm) (list : NodeList) (h : Avtab) :
    setXperm L key p list h =
      (getXpermsNode L key list p.slot h).1.write (getXpermsNode L key list p.slot h).2
        (setPerms (forBits xpermSet p.first p.last)) := by
  rw [setXperm, Xperm.slot, Xperm.first, Xperm.last, Xperm.crosses]
  by_cases hc : ioctlDriver p.low ≠ ioctlDriver p.high
  · simp [hc]
  · simp [hc]

/-- Only one node of a key has a place, which is the one the list has there. -/
def XpermsUnique (nodes : List AvtabNode) : Prop :=
  ∀ n ∈ nodes, ∀ m ∈ nodes, nodeSlot n ≠ none → nodeSlot n = nodeSlot m → n = m

lemma xpermsUnique_of_becomes (hb : L.Becomes h h' key fun m => m = n ∨ R m)
    (hn : ∀ m, R m → nodeSlot m ≠ nodeSlot n)
    (hR : ∀ m, R m → ∀ m', R m' → nodeSlot m ≠ none → nodeSlot m = nodeSlot m' → m = m') :
    XpermsUnique (L.nodes h' key) := by
  intro m hm m' hm' hne heq
  rcases (hb.mem m).mp hm with rfl | hm
  · rcases (hb.mem m').mp hm' with rfl | hm'
    · rfl
    · exact absurd heq.symm (hn m' hm')
  · rcases (hb.mem m').mp hm' with rfl | hm'
    · exact absurd heq (hn m hm)
    · exact hR m hm m' hm' hne heq

/-- Setting the bits of a range allows what it covers. -/
lemma allowed_setXperm (hv : L.Valid h) (key : AvtabKey) (p : Xperm) :
    let h' := setXperm L key p (nodeList (L.nodes h key)) h
    L.Valid h' ∧ (XpermsUnique (L.nodes h key) → XpermsUnique (L.nodes h' key)) ∧
      ∀ cmd, Allowed L h' key cmd ↔ Allowed L h key cmd ∨ p.Covers cmd := by
  rw [setXperm_eq]
  obtain ⟨hslot, hnode, hb⟩ := becomes_getXpermsNode hv (nodeList (L.nodes h key)) p.slot
    fun node => nodeList_eq_some
  generalize getXpermsNode L key (nodeList (L.nodes h key)) p.slot h = hn at hslot hnode hb
  obtain ⟨h₁, node⟩ := hn
  have hat : AtSlot p.slot _ node := ⟨hslot, rfl⟩
  have hat' := hat.withPerms (forBits xpermSet p.first p.last)
  have hb' := becomes_withPerms hb rfl (fun hR => hR.2 rfl) (forBits xpermSet p.first p.last)
  refine ⟨hb'.valid, fun hu => ?_, fun cmd => ?_⟩
  · refine xpermsUnique_of_becomes hb' (fun m hm heq => ?_) fun m hm m' hm' => hu m hm.1 m' hm'.1
    rw [hat'.slot] at heq
    rcases hnode with hmem | ⟨hnone, -⟩
    · exact hm.2 (hu m hm.1 node hmem (heq ▸ Option.some_ne_none _) (heq.trans hslot.symm))
    · exact nodeList_eq_none hnone hm.1 heq
  · -- the node and the others allow what was allowed before
    have hold : allows node cmd = true ∨ (∃ m, (m ∈ L.nodes h key ∧ m ≠ node) ∧
        allows m cmd = true) ↔ Allowed L h key cmd := by
      constructor
      · rintro (hnode' | ⟨m, ⟨hm, -⟩, hallows⟩)
        · rcases hnode with hmem | ⟨-, hperms⟩
          · exact ⟨node, hmem, hnode'⟩
          · rw [hat.allows_iff, hperms] at hnode'
            exact absurd hnode' (not_slotBit_zero _ _)
        · exact ⟨m, hm, hallows⟩
      · rintro ⟨m, hm, hallows⟩
        by_cases heq : m = node
        · exact .inl (heq ▸ hallows)
        · exact .inr ⟨m, ⟨hm, heq⟩, hallows⟩
    rw [allowed_of_becomes hb', ← hold]
    simp only [or_and_right, exists_or, exists_eq_left]
    rw [hat'.allows_iff, slotBit_set, hat.allows_iff]
    exact or_right_comm

end Set

/-! ### Resetting -/

section Reset

variable {L} {h : Avtab} {key : AvtabKey}

/-- The nodes that are left alone: those without a place. -/
def Rest (nodes : List AvtabNode) (m : AvtabNode) : Prop := m ∈ nodes ∧ nodeSlot m = none

/-- Removing the function nodes of some drivers, one after the other. -/
lemma becomes_removeFunctionNodes (hv : L.Valid h) (hu : XpermsUnique (L.nodes h key))
    (drivers : List UInt8) (hnodup : drivers.Nodup) :
    L.Becomes h (drivers.foldl (fun h' i =>
        match nodeList (L.nodes h key) (some i) with
        | some node => (avtabRemoveNode L.toLibsepolAvtab h' node).getD h'
        | none => h') h) key
      fun m => m ∈ L.nodes h key ∧ ∀ i ∈ drivers, nodeSlot m ≠ some (some i) := by
  induction drivers using List.reverseRecOn with
  | nil => exact (LibsepolAvtab.Becomes.refl hv key).congr fun m => by simp
  | append_singleton drivers i ih =>
    have hi : i ∉ drivers := by
      rw [nodup_append] at hnodup
      exact fun hmem => hnodup.2.2 i hmem i (.head _) rfl
    have hb := ih (nodup_append.mp hnodup).1
    rw [foldl_append, foldl_cons]
    cases hl : nodeList (L.nodes h key) (some i) with
    | none =>
      refine hb.congr fun m => and_congr_right fun hm => ?_
      have hslot := nodeList_eq_none hl hm
      simp only [mem_append, mem_singleton, or_imp, forall_and, forall_eq, hslot,
        ne_eq, not_false_eq_true, and_true]
    | some node =>
      obtain ⟨hmem, hslot⟩ := nodeList_eq_some hl
      have hin := (hb.mem node).mpr ⟨hmem, fun j hj heq => by
        rw [hslot] at heq
        exact hi (Option.some.inj (Option.some.inj heq) ▸ hj)⟩
      refine hb.trans ((becomes_remove hb.valid hin).congr fun m => ?_)
      rw [hb.mem, and_assoc]
      refine and_congr_right fun hm => ?_
      have hne : m ≠ node ↔ nodeSlot m ≠ some (some i) := by
        refine not_congr ⟨fun heq => heq ▸ hslot, fun heq => ?_⟩
        exact hu m hm node hmem (heq ▸ Option.some_ne_none _) (heq.trans hslot.symm)
      simp only [mem_append, mem_singleton, or_imp, forall_and, forall_eq, hne]

lemma becomes_removeAll (hv : L.Valid h) (hu : XpermsUnique (L.nodes h key)) :
    L.Becomes h (removeFunctionNodes L (nodeList (L.nodes h key)) h) key
      fun m => m ∈ L.nodes h key ∧ ∀ i, nodeSlot m ≠ some (some i) := by
  have hnodup : ((List.range 256).map UInt8.ofNat).Nodup := by
    refine Nodup.map_on (fun i hi j hj heq => ?_) nodup_range
    have heq' := congrArg UInt8.toNat heq
    rwa [UInt8.toNat_ofNat_of_lt' (mem_range.mp hi),
      UInt8.toNat_ofNat_of_lt' (mem_range.mp hj)] at heq'
  have hall : ∀ i : UInt8, i ∈ (List.range 256).map UInt8.ofNat := fun i =>
    mem_map.mpr ⟨i.toNat, mem_range.mpr i.toNat_lt, UInt8.ofNat_toNat⟩
  refine (becomes_removeFunctionNodes hv hu _ hnodup).congr fun m => ?_
  simp [hall]

lemma Rest.ne (hm : Rest nodes m) : nodeSlot m ≠ some i := by
  rw [hm.2]
  exact (Option.some_ne_none i).symm

lemma driver_or_rest (hm : m ∈ nodes)
    (hfun : ∀ i, nodeSlot m ≠ some (some i)) : nodeSlot m = some none ∨ Rest nodes m := by
  rcases hs : nodeSlot m with _ | _ | i
  · exact .inr ⟨hm, hs⟩
  · exact .inl rfl
  · exact absurd hs (hfun i)

/-- The driver node is full, and all others are without a place. -/
lemma becomes_fillDriverNode (hu : XpermsUnique (L.nodes h key))
    (hb : L.Becomes h h₁ key fun m => m ∈ L.nodes h key ∧ ∀ i, nodeSlot m ≠ some (some i))
    (hlist : list none = nodeList (L.nodes h key) none) :
    ∃ n, n.id = (fillDriverNode L key list h₁).2.id ∧ AtSlot none (BitVec.allOnes 256) n ∧
      L.Becomes h (fillDriverNode L key list h₁).1 key
        fun m => m = n ∨ Rest (L.nodes h key) m := by
  rw [fillDriverNode, getXpermsNode, hlist]
  cases hl : nodeList (L.nodes h key) none with
  | some n =>
    obtain ⟨hmem, hslot⟩ := nodeList_eq_some hl
    have hb₁ : L.Becomes h h₁ key fun m => m = n ∨ Rest (L.nodes h key) m := by
      refine hb.congr fun m => ⟨fun hm => ?_, ?_⟩
      · refine (driver_or_rest hm.1 hm.2).imp_left fun hs => ?_
        exact hu m hm.1 n hmem (hs ▸ Option.some_ne_none _) (hs.trans hslot.symm)
      · rintro (rfl | hm)
        · exact ⟨hmem, fun i => by rw [hslot]; simp⟩
        · exact ⟨hm.1, fun i => hm.ne⟩
    have hb₂ := becomes_withPerms hb₁ rfl (fun hR => hR.ne hslot) fun _ => 0#256
    have hat := AtSlot.withPerms ⟨hslot, rfl⟩ fun _ => 0#256
    have hb₃ := becomes_withPerms hb₂ rfl (fun hR => hR.ne hat.slot) fun _ => BitVec.allOnes 256
    exact ⟨_, by rfl, hat.withPerms fun _ => _, hb₃⟩
  | none =>
    obtain ⟨hnew, -, hat⟩ := becomes_new hb.valid key none
    have hb₁ := (hb.trans hnew).congr (Q := fun m => m = (newXpermsNode L key none h₁).2 ∨
        Rest (L.nodes h key) m) fun m => or_congr_right <| by
      rw [hb.mem]
      refine ⟨fun hm => ?_, fun hm => ⟨hm.1, fun i => hm.ne⟩⟩
      exact (driver_or_rest hm.1 hm.2).resolve_left (nodeList_eq_none hl hm.1)
    have hb₂ := becomes_withPerms hb₁ rfl (fun hR => hR.ne hat.slot) fun _ => BitVec.allOnes 256
    exact ⟨_, by rfl, hat.withPerms fun _ => _, hb₂⟩

lemma becomes_fillFunctionNode (hb : L.Becomes h h₁ key R) (hlist : list (some driver) = none) :
    ∃ n, n.id = (fillFunctionNode L key list driver h₁).2.id ∧
      AtSlot (some driver) (BitVec.allOnes 256) n ∧
      L.Becomes h (fillFunctionNode L key list driver h₁).1 key fun m => m = n ∨ R m := by
  obtain ⟨hnew, hfresh, hat⟩ := becomes_new hb.valid key (some driver)
  have hb₁ := (hb.trans hnew).congr fun m => or_congr_right (hb.mem m)
  have hb₂ := becomes_withPerms hb₁ rfl (fun hR => hfresh ((hb.mem _).mpr hR))
    fun _ => BitVec.allOnes 256
  rw [fillFunctionNode, hlist]
  exact ⟨_, by rfl, hat.withPerms fun _ => _, hb₂⟩

lemma getLsbD_allOnes (i : UInt8) : (BitVec.allOnes 256).getLsbD i.toNat = true := by
  rw [BitVec.getLsbD_allOnes, decide_eq_true_eq]
  exact i.toNat_lt

lemma slotBit_xpermClear (driver : UInt8) (cmd : UInt16) :
    SlotBit none (xpermClear driver.toNat (BitVec.allOnes 256)) cmd ↔ driver ≠ ioctlDriver cmd := by
  rw [SlotBit, xpermClear, Lib.getLsbD_clear _ _ (ioctlDriver cmd).toNat_lt, getLsbD_allOnes,
    Bool.true_and, Bool.not_eq_true', decide_eq_false_iff_not, UInt8.toNat_inj]
  exact ne_comm

lemma not_rest_allows (nodes : List AvtabNode) (cmd : UInt16) :
    ¬∃ m, Rest nodes m ∧ allows m cmd = true := by
  rintro ⟨m, hm, hallows⟩
  rw [allows_of_nodeSlot_eq_none hm.2] at hallows
  cases hallows

section Driver

variable {h₁ : Avtab} {n n₀ : AvtabNode} {nodes : List AvtabNode}

variable (hb : L.Becomes h h₁ key fun m => m = n ∨ Rest nodes m) (hid : n₀.id = n.id)
  (hat : AtSlot none (BitVec.allOnes 256) n)

include hb hid hat

/-- Clearing drivers of a full driver node. -/
lemma allowed_clearDrivers (low high : UInt8) :
    let h' := h₁.write n₀ (setPerms (forBits xpermClear low high))
    L.Valid h' ∧ XpermsUnique (L.nodes h' key) ∧
      ∀ cmd, Allowed L h' key cmd ↔ ¬ SlotCovers none low high cmd := by
  have hb' := becomes_withPerms hb hid (fun hR => hR.ne hat.slot) (forBits xpermClear low high)
  have hat' := hat.withPerms (forBits xpermClear low high)
  refine ⟨hb'.valid, ?_, fun cmd => ?_⟩
  · exact xpermsUnique_of_becomes hb' (fun m hm => hat'.slot ▸ hm.ne) fun m hm _ _ hne =>
      absurd hm.2 hne
  · rw [allowed_of_becomes hb']
    simp only [or_and_right, exists_or, exists_eq_left, not_rest_allows, or_false]
    rw [hat'.allows_iff, slotBit_clear]
    exact and_iff_right (getLsbD_allOnes _)

/-- The nodes after functions of a driver are cleared: the driver node without the driver, and
the node of its functions. -/
lemma becomes_clearFunctions (hlist : list (some driver) = none) (low high : UInt8) :
    let (h₂, f₀) := fillFunctionNode L key list driver h₁
    let h' := (h₂.write n₀ (setPerms (xpermClear driver.toNat))).write f₀
      (setPerms (forBits xpermClear low high))
    ∃ n' f', AtSlot none (xpermClear driver.toNat (BitVec.allOnes 256)) n' ∧
      AtSlot (some driver) (forBits xpermClear low high (BitVec.allOnes 256)) f' ∧
      L.Becomes h h' key fun m => m = f' ∨ m = n' ∨ Rest nodes m := by
  obtain ⟨f, hfid, hf, hb₂⟩ := becomes_fillFunctionNode hb hlist
  generalize fillFunctionNode L key list driver h₁ = hf at hfid hb₂
  obtain ⟨h₂, f₀⟩ := hf
  have hne : ∀ {slot perms m m'}, AtSlot none perms m → AtSlot (some driver) slot m' → m ≠ m' := by
    rintro slot perms m m' hm hm' rfl
    cases hm.slot.symm.trans hm'.slot
  -- first the driver node is written to, then the function node
  have hb₃ := becomes_withPerms (hb₂.congr fun m => or_left_comm) hid
    (fun hR => hR.elim (hne hat hf) fun hR => hR.ne hat.slot) (xpermClear driver.toNat)
  have hat' := hat.withPerms (xpermClear driver.toNat)
  have hb₄ := becomes_withPerms (hb₃.congr fun m => or_left_comm) hfid.symm
    (fun hR => hR.elim (hne hat' hf).symm fun hR => hR.ne hf.slot) (forBits xpermClear low high)
  exact ⟨_, _, hat', hf.withPerms _, hb₄⟩

/-- Clearing functions of a driver that a full driver node leaves out. -/
lemma allowed_clearFunctions (hlist : list (some driver) = none) (low high : UInt8) :
    let (h₂, f₀) := fillFunctionNode L key list driver h₁
    let h' := (h₂.write n₀ (setPerms (xpermClear driver.toNat))).write f₀
      (setPerms (forBits xpermClear low high))
    L.Valid h' ∧ XpermsUnique (L.nodes h' key) ∧
      ∀ cmd, Allowed L h' key cmd ↔ ¬ SlotCovers (some driver) low high cmd := by
  obtain ⟨n', f', hat', hf, hb'⟩ := becomes_clearFunctions hb hid hat hlist low high
  refine ⟨hb'.valid, ?_, fun cmd => ?_⟩
  · refine xpermsUnique_of_becomes hb' ?_ ?_
    · rintro m (rfl | hm)
      · rw [hat'.slot, hf.slot]
        simp
      · exact hf.slot ▸ hm.ne
    · rintro m (rfl | hm) m' (rfl | hm') hne heq
      · rfl
      · exact absurd (heq.symm.trans hat'.slot) hm'.ne
      · exact absurd (heq.trans hat'.slot) hm.ne
      · exact absurd hm.2 hne
  · rw [allowed_of_becomes hb']
    simp only [or_and_right, exists_or, exists_eq_left, not_rest_allows]
    rw [hf.allows_iff, slotBit_clear, hat'.allows_iff, slotBit_xpermClear]
    have hones : SlotBit (some driver) (BitVec.allOnes 256) cmd ↔ driver = ioctlDriver cmd :=
      and_iff_left (getLsbD_allOnes _)
    have hcov : SlotCovers (some driver) low high cmd → driver = ioctlDriver cmd := And.left
    tauto

end Driver

/-- Resetting allows everything but what the range covers. -/
lemma allowed_resetXperm (hv : L.Valid h) (hu : XpermsUnique (L.nodes h key)) (p : Xperm) :
    let h' := resetXperm L key p (nodeList (L.nodes h key)) h
    L.Valid h' ∧ XpermsUnique (L.nodes h' key) ∧
      ∀ cmd, Allowed L h' key cmd ↔ ¬ p.Covers cmd := by
  set list : NodeList := fun i => if i = none then nodeList (L.nodes h key) i else none
  obtain ⟨n, hid, hat, hb⟩ :=
    becomes_fillDriverNode hu (becomes_removeAll hv hu) (show list none = _ from rfl)
  simp only [Xperm.Covers, Xperm.slot, Xperm.first, Xperm.last, Xperm.crosses, resetXperm]
  by_cases hc : ioctlDriver p.low ≠ ioctlDriver p.high
  · simp only [hc, ne_eq]
    exact allowed_clearDrivers hb hid.symm hat _ _
  · simp only [hc]
    exact allowed_clearFunctions hb hid.symm hat (show list (some _) = none from rfl) _ _

end Reset

/-! ### Lists of ranges -/

/-- The ranges of a list, one after the other. -/
def runXperms (key : AvtabKey) (ps : List Xperm) (h : Avtab) : Avtab :=
  ps.foldl (fun h p => addXpermNode L key p h) h

section Run

variable {L} {h : Avtab} {key : AvtabKey}

lemma addXpermNode_eq (hv : L.Valid h) (key : AvtabKey) (p : Xperm) :
    addXpermNode L key p h = if p.reset then resetXperm L key p (nodeList (L.nodes h key)) h
      else setXperm L key p (nodeList (L.nodes h key)) h := by
  rw [addXpermNode, searchAll_eq hv]

lemma runXperms_concat (key : AvtabKey) (ps : List Xperm) (p : Xperm) (h : Avtab) :
    runXperms L key (ps ++ [p]) h = addXpermNode L key p (runXperms L key ps h) := by
  rw [runXperms, foldl_append]
  rfl

lemma xpermsUnique_runXperms (hv : L.Valid h) (hu : XpermsUnique (L.nodes h key))
    (ps : List Xperm) :
    L.Valid (runXperms L key ps h) ∧ XpermsUnique (L.nodes (runXperms L key ps h) key) := by
  induction ps using List.reverseRecOn with
  | nil => exact ⟨hv, hu⟩
  | append_singleton ps p ih =>
    rw [runXperms_concat, addXpermNode_eq ih.1]
    split_ifs
    · obtain ⟨hv', hu', -⟩ := allowed_resetXperm ih.1 ih.2 p
      exact ⟨hv', hu'⟩
    · obtain ⟨hv', hu', -⟩ := allowed_setXperm ih.1 key p
      exact ⟨hv', hu' ih.2⟩

/-- Setting the ranges of a list allows what they cover. -/
lemma allowed_runXperms_set (hv : L.Valid h) (key : AvtabKey) (ps : List Xperm)
    (hps : ∀ p ∈ ps, p.reset = false) :
    L.Valid (runXperms L key ps h) ∧
      ∀ cmd, Allowed L (runXperms L key ps h) key cmd ↔
        Allowed L h key cmd ∨ ∃ p ∈ ps, p.Covers cmd := by
  induction ps using List.reverseRecOn with
  | nil => exact ⟨hv, fun cmd => by simp [runXperms]⟩
  | append_singleton ps p ih =>
    obtain ⟨hv₁, hallowed⟩ := ih fun q hq => hps q (mem_append_left _ hq)
    have hp : ¬ p.reset = true := by simp [hps p (by simp)]
    obtain ⟨hv₂, -, hset⟩ := allowed_setXperm hv₁ key p
    rw [runXperms_concat, addXpermNode_eq hv₁, if_neg hp]
    refine ⟨hv₂, fun cmd => ?_⟩
    rw [hset, hallowed, or_assoc]
    simp

lemma allowed_runXperms_reset (hv : L.Valid h) (hu : XpermsUnique (L.nodes h key))
    (ps : List Xperm) (hp : p.reset = true) (cmd : UInt16) :
    Allowed L (runXperms L key (ps ++ [p]) h) key cmd ↔ ¬ p.Covers cmd := by
  obtain ⟨hv', hu'⟩ := xpermsUnique_runXperms hv hu ps
  rw [runXperms_concat, addXpermNode_eq hv', if_pos hp]
  exact (allowed_resetXperm hv' hu' p).2.2 cmd

end Run

/-! ### Statements -/

/-- An `allowxperm` statement with a brace list, which a tilde may stand in front of. -/
def xpermTokens (s t c : String) (tilde : Bool) (items : List XpermItem) : List Token :=
  AX :: ID s :: ID t :: ID c :: ID "ioctl" ::
    ((if tilde then [TL] else []) ++ LB :: (items.flatMap XpermItem.tokens ++ [RB]))

/-- The commands of a list. -/
def Listed (items : List XpermItem) (cmd : UInt16) : Prop :=
  ∃ item ∈ items, item.low ≤ cmd ∧ cmd ≤ item.high

section Statements

variable {L} {db : PolicyDb} {s t c : String} {src tgt : TypeDatum} {cls : ClassDatum}

lemma parseCall_xpermTokens (s t c : String) (tilde : Bool) (hne : items ≠ []) :
    parseCall (xpermTokens s t c tilde items) =
      .ok (.allowxperm [s] [t] [c] (items.map (·.toXperm tilde))) := by
  have hbody := parseXpermsBody_items hne tilde []
  rw [append_nil] at hbody
  have hparse : parseXperms ((if tilde then [TL] else []) ++
      LB :: (items.flatMap XpermItem.tokens ++ [RB])) = .ok (items.map (·.toXperm tilde), []) := by
    cases tilde <;> exact hbody
  simp only [xpermTokens, parseCall, parseAvXperms, parseSterm, matchString, if_true, bind,
    Except.bind, hparse]
  rfl

lemma addXpermRule_eq (hs : resolve db.types s = some (some src))
    (ht : resolve db.types t = some (some tgt)) (hc : resolve db.classes c = some (some cls))
    (p : Xperm) (effect : Specified) (h : Avtab) :
    (addXpermRule L db.policyvers db.toSymbols s t c p effect h).1 =
      if db.policyvers < policydbVersionXpermsIoctl then h
      else addXpermNode L (ruleKey src tgt cls effect) p h := by
  simp [addXpermRule, hs, ht, hc, addXpermRuleDatum, forEach]

/-- The statement goes through the ranges of its list; an empty list is an error. -/
lemma execStatement_xpermTokens (other : Call → PolicyDb → PolicyDb)
    (hs : resolve db.types s = some (some src)) (ht : resolve db.types t = some (some tgt))
    (hc : resolve db.classes c = some (some cls)) (tilde : Bool) (items : List XpermItem) :
    (execStatement (api L other) db (xpermTokens s t c tilde items)).1.teAvtab =
      if db.policyvers < policydbVersionXpermsIoctl then db.teAvtab
      else runXperms L (ruleKey src tgt cls .xpermsAllowed) (items.map (·.toXperm tilde))
        db.teAvtab := by
  by_cases hne : items = []
  · have herror : (execStatement (api L other) db (xpermTokens s t c tilde [])).1 = db := by
      cases tilde <;> rfl
    rw [hne, herror]
    exact (ite_self _).symm
  · have hexec : (execStatement (api L other) db (xpermTokens s t c tilde items)).1.teAvtab =
        (items.map (·.toXperm tilde)).foldl (fun h p =>
          (addXpermRule L db.policyvers db.toSymbols s t c p .xpermsAllowed h).1) db.teAvtab := by
      rw [execStatement, parseCall_xpermTokens s t c tilde hne]
      rfl
    simp only [hexec, addXpermRule_eq hs ht hc]
    split_ifs
    · exact foldl_fixed _
    · rfl

/-- **A list of ranges that is allowed.**  It adds just its commands exactly when all
commands of the drivers that a range runs through are listed or were allowed before; a policy
that is too old for such rules has to allow the list already. -/
theorem allowxperm_iff (L : Libsepol) (other : Call → PolicyDb → PolicyDb) (db : PolicyDb)
    (hv : L.Valid db.teAvtab) (s t c : String) (src tgt : TypeDatum) (cls : ClassDatum)
    (hs : resolve db.types s = some (some src)) (ht : resolve db.types t = some (some tgt))
    (hc : resolve db.classes c = some (some cls)) (items : List XpermItem) :
    let key := ruleKey src tgt cls .xpermsAllowed
    let h' := (execStatement (api L other) db (xpermTokens s t c false items)).1.teAvtab
    (∀ cmd, Allowed L h' key cmd ↔ Allowed L db.teAvtab key cmd ∨ Listed items cmd) ↔
      if db.policyvers < policydbVersionXpermsIoctl then
        ∀ cmd, Listed items cmd → Allowed L db.teAvtab key cmd
      else
        ∀ item ∈ items, ioctlDriver item.low ≠ ioctlDriver item.high →
          ∀ cmd, ioctlDriver item.low ≤ ioctlDriver cmd → ioctlDriver cmd ≤ ioctlDriver item.high →
            Allowed L db.teAvtab key cmd ∨ Listed items cmd := by
  intro key h'
  have hexec : h' = _ := execStatement_xpermTokens other hs ht hc false items
  split_ifs with hold
  · rw [hexec, if_pos hold]
    exact forall_congr' fun cmd => ⟨fun hiff hl => hiff.mpr (.inr hl),
      fun himp => ⟨.inl, fun h => h.elim id himp⟩⟩
  · rw [if_neg hold] at hexec
    have hset : ∀ p ∈ items.map (·.toXperm false), p.reset = false := by
      intro p hp
      obtain ⟨item, -, rfl⟩ := mem_map.mp hp
      rfl
    have hallowed := (allowed_runXperms_set hv key _ hset).2
    rw [← hexec] at hallowed
    simp only [hallowed, mem_map, exists_exists_and_eq_and, XpermItem.covers_iff]
    constructor
    · intro hiff item hitem hcross cmd hlow hhigh
      exact (hiff cmd).mp (.inr ⟨item, hitem, .inr ⟨hcross, hlow, hhigh⟩⟩)
    · intro hcond cmd
      constructor
      · rintro (hbefore | ⟨item, hitem, hmem | ⟨hcross, hlow, hhigh⟩⟩)
        · exact .inl hbefore
        · exact .inr ⟨item, hitem, hmem⟩
        · exact hcond item hitem hcross cmd hlow hhigh
      · rintro (hbefore | ⟨item, hitem, hmem⟩)
        · exact .inl hbefore
        · exact .inr ⟨item, hitem, .inl hmem⟩

/-- `0x8910-0x8926`. -/
def oneDriver : XpermItem := ⟨[ID "0x8910-0x8926"], 0x8910, 0x8926, .text (by decide)⟩

theorem oneDriver_allowed :
    let h' := (execStatement (api .reference fun _ db => db) smallPolicy
      (xpermTokens "t" "t" "file" false [oneDriver])).1.teAvtab
    ∀ cmd, Allowed .reference h' ⟨2, 2, 1, .xpermsAllowed⟩ cmd ↔
      Allowed .reference smallPolicy.teAvtab ⟨2, 2, 1, .xpermsAllowed⟩ cmd ∨
        Listed [oneDriver] cmd := by
  refine (allowxperm_iff .reference (fun _ db => db) smallPolicy smallPolicy_valid "t" "t" "file"
    ⟨2, .type⟩ ⟨2, .type⟩ fileClass (by decide) (by decide) (by decide) [oneDriver]).mpr ?_
  intro item hitem hcross
  rw [mem_singleton.mp hitem] at hcross
  exact absurd (by decide) hcross

instance (h : Avtab) (key : AvtabKey) (cmd : UInt16) : Decidable (Allowed L h key cmd) := by
  unfold Allowed
  infer_instance

/-- A range that ends in the next driver allows all commands of both drivers. -/
theorem twoDrivers_not_exact :
    let h' := (parseStatement (api .reference fun _ db => db) smallPolicy
      "allowxperm t t file ioctl \x7b 0x8910-0x9010 \x7d".toList).1.teAvtab
    ¬ ∀ cmd : UInt16, Allowed .reference h' ⟨2, 2, 1, .xpermsAllowed⟩ cmd ↔
      Allowed .reference smallPolicy.teAvtab ⟨2, 2, 1, .xpermsAllowed⟩ cmd ∨
        0x8910 ≤ cmd ∧ cmd ≤ 0x9010 := by
  intro h' hiff
  have hnot : ¬ (Allowed .reference h' ⟨2, 2, 1, .xpermsAllowed⟩ 0x8900 ↔
      Allowed .reference smallPolicy.teAvtab ⟨2, 2, 1, .xpermsAllowed⟩ 0x8900 ∨
        (0x8910 : UInt16) ≤ 0x8900 ∧ (0x8900 : UInt16) ≤ 0x9010) := by decide
  exact hnot (hiff 0x8900)

/-- **The complement of a list.**  It is what is allowed afterwards exactly when the last
range covers the list, and nothing but the list; a policy that is too old for such rules has to
allow the complement already. -/
theorem allowxperm_complement_iff (L : Libsepol) (other : Call → PolicyDb → PolicyDb)
    (db : PolicyDb) (hv : L.Valid db.teAvtab) (s t c : String) (src tgt : TypeDatum)
    (cls : ClassDatum) (hs : resolve db.types s = some (some src))
    (ht : resolve db.types t = some (some tgt)) (hc : resolve db.classes c = some (some cls))
    (hu : XpermsUnique (L.nodes db.teAvtab (ruleKey src tgt cls .xpermsAllowed)))
    (items : List XpermItem) (last : XpermItem) :
    let key := ruleKey src tgt cls .xpermsAllowed
    let h' := (execStatement (api L other) db (xpermTokens s t c true (items ++ [last]))).1.teAvtab
    (∀ cmd, Allowed L h' key cmd ↔ ¬ Listed (items ++ [last]) cmd) ↔
      if db.policyvers < policydbVersionXpermsIoctl then
        ∀ cmd, Allowed L db.teAvtab key cmd ↔ ¬ Listed (items ++ [last]) cmd
      else
        (∀ cmd, Listed items cmd → (last.toXperm true).Covers cmd) ∧
          (ioctlDriver last.low ≠ ioctlDriver last.high →
            ∀ cmd, ioctlDriver last.low ≤ ioctlDriver cmd →
              ioctlDriver cmd ≤ ioctlDriver last.high → Listed (items ++ [last]) cmd) := by
  intro key h'
  have hexec : h' = _ := execStatement_xpermTokens other hs ht hc true (items ++ [last])
  split_ifs with hold
  · rw [hexec, if_pos hold]
  · have hallowed : ∀ cmd, Allowed L h' key cmd ↔ ¬ (last.toXperm true).Covers cmd := by
      rw [hexec, if_neg hold, map_append]
      exact fun cmd => allowed_runXperms_reset hv hu _ rfl cmd
    have hlisted : ∀ cmd, Listed (items ++ [last]) cmd ↔
        Listed items cmd ∨ last.low ≤ cmd ∧ cmd ≤ last.high := by
      simp [Listed]
    simp only [hallowed, not_iff_not]
    constructor
    · intro hiff
      refine ⟨fun cmd hl => (hiff cmd).mpr ((hlisted cmd).mpr (.inl hl)),
        fun hcross cmd hlow hhigh => (hiff cmd).mp ?_⟩
      exact (last.covers_iff true cmd).mpr (.inr ⟨hcross, hlow, hhigh⟩)
    · rintro ⟨hcovered, hcross⟩ cmd
      constructor
      · intro hcov
        rcases (last.covers_iff true cmd).mp hcov with hmem | ⟨hne, hlow, hhigh⟩
        · exact (hlisted cmd).mpr (.inr hmem)
        · exact hcross hne cmd hlow hhigh
      · intro hl
        rcases (hlisted cmd).mp hl with hl | hmem
        · exact hcovered cmd hl
        · exact (last.covers_iff true cmd).mpr (.inl hmem)

theorem oneDriver_complement :
    let h' := (execStatement (api .reference fun _ db => db) smallPolicy
      (xpermTokens "t" "t" "file" true [oneDriver])).1.teAvtab
    ∀ cmd, Allowed .reference h' ⟨2, 2, 1, .xpermsAllowed⟩ cmd ↔ ¬ Listed [oneDriver] cmd := by
  refine (allowxperm_complement_iff .reference (fun _ db => db) smallPolicy smallPolicy_valid "t"
    "t" "file" ⟨2, .type⟩ ⟨2, .type⟩ fileClass (by decide) (by decide) (by decide)
    (fun n hn => absurd hn not_mem_nil) [] oneDriver).mpr ?_
  exact ⟨fun cmd hl => absurd hl (by simp [Listed]), fun hcross => absurd (by decide) hcross⟩

/-- Of two commands in a complement, the first one stays allowed. -/
theorem first_not_excluded :
    let h' := (parseStatement (api .reference fun _ db => db) smallPolicy
      "allowxperm t t file ioctl ~\x7b 0x8910 0x892A \x7d".toList).1.teAvtab
    ¬ ∀ cmd : UInt16, Allowed .reference h' ⟨2, 2, 1, .xpermsAllowed⟩ cmd ↔
      ¬ (cmd = 0x8910 ∨ cmd = 0x892A) := by
  intro h' hiff
  have hallowed : Allowed .reference h' ⟨2, 2, 1, .xpermsAllowed⟩ 0x8910 := by decide
  exact (hiff 0x8910).mp hallowed (.inl rfl)

/-! ### The value zero -/

/-- The kinds of extended permission statements. -/
inductive XpermKind where
  | allowxperm
  | auditallowxperm
  | dontauditxperm

/-- The first token of a statement. -/
def XpermKind.token : XpermKind → Token
  | .allowxperm => AX
  | .auditallowxperm => AY
  | .dontauditxperm => DX

/-- The rules that it adds. -/
def XpermKind.effect : XpermKind → Specified
  | .allowxperm => .xpermsAllowed
  | .auditallowxperm => .xpermsAuditallow
  | .dontauditxperm => .xpermsDontaudit

/-- A statement with the single value 0. -/
def zeroTokens (kind : XpermKind) (s t c : String) : List Token :=
  [kind.token, ID s, ID t, ID c, ID "ioctl", HX 0]

lemma execStatement_zeroTokens (other : Call → PolicyDb → PolicyDb) (kind : XpermKind)
    (hs : resolve db.types s = some (some src)) (ht : resolve db.types t = some (some tgt))
    (hc : resolve db.classes c = some (some cls)) :
    (execStatement (api L other) db (zeroTokens kind s t c)).1.teAvtab =
      if db.policyvers < policydbVersionXpermsIoctl then db.teAvtab
      else runXperms L (ruleKey src tgt cls kind.effect) [⟨0x0000, 0xFFFF, false⟩] db.teAvtab := by
  have hexec : (execStatement (api L other) db (zeroTokens kind s t c)).1.teAvtab =
      (addXpermRule L db.policyvers db.toSymbols s t c ⟨0x0000, 0xFFFF, false⟩ kind.effect
        db.teAvtab).1 := by
    cases kind <;> rfl
  rw [hexec, addXpermRule_eq hs ht hc]
  rfl

lemma allowed_zeroTokens (hv : L.Valid db.teAvtab) (other : Call → PolicyDb → PolicyDb)
    (kind : XpermKind) (hs : resolve db.types s = some (some src))
    (ht : resolve db.types t = some (some tgt)) (hc : resolve db.classes c = some (some cls))
    (hnew : ¬ db.policyvers < policydbVersionXpermsIoctl) (cmd : UInt16) :
    Allowed L (execStatement (api L other) db (zeroTokens kind s t c)).1.teAvtab
      (ruleKey src tgt cls kind.effect) cmd := by
  rw [execStatement_zeroTokens other kind hs ht hc, if_neg hnew,
    (allowed_runXperms_set hv _ _ (by simp)).2]
  refine .inr ⟨_, mem_singleton_self _, (Xperm.covers_iff _ cmd).mpr (.inl ?_)⟩
  exact ⟨UInt16.zero_le, UInt16.le_iff_toNat_le.mpr (Nat.le_of_lt_succ cmd.toNat_lt)⟩

/-- **The special value 0.**  No command is listed after the statement exactly if none was before,
and the policy is too old for such rules; otherwise all of them are. -/
theorem zero_clears_iff (L : Libsepol) (other : Call → PolicyDb → PolicyDb) (db : PolicyDb)
    (hv : L.Valid db.teAvtab) (kind : XpermKind) (s t c : String) (src tgt : TypeDatum)
    (cls : ClassDatum) (hs : resolve db.types s = some (some src))
    (ht : resolve db.types t = some (some tgt)) (hc : resolve db.classes c = some (some cls)) :
    let key := ruleKey src tgt cls kind.effect
    let h' := (execStatement (api L other) db (zeroTokens kind s t c)).1.teAvtab
    (∀ cmd, ¬ Allowed L h' key cmd) ↔
      db.policyvers < policydbVersionXpermsIoctl ∧ ∀ cmd, ¬ Allowed L db.teAvtab key cmd := by
  intro key h'
  by_cases hold : db.policyvers < policydbVersionXpermsIoctl
  · have hexec : h' = db.teAvtab := by
      rw [show h' = _ from execStatement_zeroTokens other kind hs ht hc, if_pos hold]
    rw [hexec]
    exact (and_iff_right hold).symm
  · have hall := allowed_zeroTokens hv other kind hs ht hc hold
    exact ⟨fun h => absurd (hall 0) (h 0), fun h => absurd h.1 hold⟩

/-- In a policy that is too old nothing is listed, before and after. -/
theorem zero_clears_old :
    let db := { smallPolicy with policyvers := 29 }
    let h' := (execStatement (api .reference fun _ db => db) db
      (zeroTokens .allowxperm "t" "t" "file")).1.teAvtab
    ∀ cmd, ¬ Allowed .reference h' ⟨2, 2, 1, .xpermsAllowed⟩ cmd := by
  refine (zero_clears_iff .reference (fun _ db => db) { smallPolicy with policyvers := 29 }
    smallPolicy_valid .allowxperm "t" "t" "file" ⟨2, .type⟩ ⟨2, .type⟩ fileClass (by decide)
    (by decide) (by decide)).mpr ⟨by decide, ?_⟩
  rintro cmd ⟨node, hnode, -⟩
  exact absurd hnode not_mem_nil

/-- The statement of the help text allows what it should clear. -/
theorem zero_allows_all :
    let h' := (parseStatement (api .reference fun _ db => db) smallPolicy
      "allowxperm t t file ioctl 0x0000".toList).1.teAvtab
    ∃ cmd : UInt16, Allowed .reference h' ⟨2, 2, 1, .xpermsAllowed⟩ cmd := by
  have ht : resolve smallPolicy.types "t" = some (some ⟨2, .type⟩) := by decide
  have hc : resolve smallPolicy.classes "file" = some (some fileClass) := by decide
  refine ⟨0x8910, ?_⟩
  exact allowed_zeroTokens smallPolicy_valid _ .allowxperm ht ht hc (by decide) 0x8910

end Statements

end Magisk.Sepolicy
