import Magisk.Core.CommitViews

/-!
# A commit lays the modules over the partition

* `overlaid`: the tree of the modules laid over what is there;
* `Agrees`: the nodes have the kinds of what they are laid over;
* `rebuilt_overlaid`, `committed_overlaid`: both ways of a commit show the overlay;
* `commit_overlay`: so does the commit of a partition root.
-/

namespace Magisk.Core.Modules

open Magisk.Base Magisk.Lib List Option

variable {path : List Str} {node : FsNode}

/-! ### The overlay -/

/-- What is at a path below an entry.  Links are not followed. -/
def Real.find (r : Real) : List Str → Option Real
  | [] => some r
  | n :: p =>
    match r with
    | .dir entries => (entries.lookup n).bind fun e => e.find p
    | _ => none

/-- What is at a path for real.  Where the tree has a directory, a link is followed. -/
def realAt (node : FsNode) (real : Option Real) : List Str → Option Real
  | [] => real
  | n :: p =>
    match node with
    | .directory children =>
      match children.lookup n with
      | some c => realAt c (child real n) p
      | none => (child real n).bind fun r => r.find p
    | _ => real.bind fun r => r.find (n :: p)

/-- What a node is seen as. -/
def shown (disk : Disk) (path : List Str) : Kind → Option Seen
  | .dir => some .dir
  | .file src => disk src []
  | .symlink target => some (.link target)
  | .magiskLink => some (.link (magiskTarget path))
  | .whiteout => none

open scoped Classical in
/-- **The tree laid over what is there**: its nodes are seen, and what is there for real is seen
where it is not below a node that is no directory. -/
noncomputable def overlaid (disk : Disk) (path : List Str) (node : FsNode) (real : Option Real) :
    View Str Seen := fun p =>
  match node.view p with
  | some k => shown disk (path ++ p) k
  | none => if Blocked Kind.IsDir node.view p then none else (realAt node real p).map Real.kind

/-- A directory is laid over a directory or a link to one, and a file over a file. -/
def SameKind : Kind → Real → Prop
  | .dir, .dir _ | .dir, .dirLink _ _ | .file _, .file _ => True
  | .dir, _ | .file _, _ => False
  | _, _ => True

/-- The nodes have the kinds of what is at their paths. -/
def Agrees (node : FsNode) (real : Option Real) : Prop :=
  ∀ p k r, node.view p = some k → realAt node real p = some r → SameKind k r

/-- The tree can be mounted: the sources of its files are files, and its links can be made. -/
structure Mountable (disk : Disk) (node : FsNode) : Prop where
  sorted : node.Sorted
  sources : ∀ p src, node.view p = some (.file src) → ∃ data, disk src = leaf (.file data)
  links : ∀ p, node.view p ≠ some (.symlink [])

/-- No directory of the tree is replaced. -/
def NoReplace (node : FsNode) : Prop := ∀ p, replaceName ∈ p → node.view p = none

/-- What is seen is the overlay; only a path with a name that is not read may be missing. -/
def Shows (v w : View Str Seen) : Prop :=
  ∀ p, v p = w p ∨ v p = none ∧ ∃ n ∈ p, readable n = false

/-! ### Below a directory -/

section Below

variable {disk : Disk} {real : Option Real} {children : List (Str × FsNode)} {n : Str} {c : FsNode}

lemma view_of_lookup (h : children.lookup n = some c) (p : List Str) :
    (FsNode.directory children).view (n :: p) = c.view p := by
  rw [FsNode.view, h, bind_some]

lemma view_of_lookup_none (h : children.lookup n = none) (p : List Str) :
    (FsNode.directory children).view (n :: p) = none := by
  rw [FsNode.view, h, bind_none]

lemma Agrees.child (h : Agrees (.directory children) real) (hn : children.lookup n = some c) :
    Agrees c (child real n) := by
  intro p k r hk hr
  refine h (n :: p) k r ((view_of_lookup hn p).trans hk) ?_
  rw [realAt, hn]
  exact hr

lemma Mountable.child (h : Mountable disk (.directory children)) (hn : children.lookup n = some c) :
    Mountable disk c where
  sorted := h.sorted.children.2 _ (mem_of_lookup hn)
  sources p src hp := h.sources (n :: p) src ((view_of_lookup hn p).trans hp)
  links p := by
    rw [← view_of_lookup hn p]
    exact h.links (n :: p)

lemma NoReplace.child (h : NoReplace (.directory children)) (hn : children.lookup n = some c) :
    NoReplace c := by
  intro p hp
  rw [← view_of_lookup hn p]
  exact h (n :: p) (mem_cons_of_mem n hp)

lemma NoReplace.lookup (h : NoReplace (.directory children)) :
    children.lookup replaceName = none := by
  cases hc : children.lookup replaceName with
  | none => rfl
  | some c => cases (view_of_lookup hc []).symm.trans (h [replaceName] mem_cons_self)

open scoped Classical in
lemma overlaid_of_lookup (h : children.lookup n = some c) (p : List Str) :
    overlaid disk path (.directory children) real (n :: p) =
      overlaid disk (path ++ [n]) c (child real n) p := by
  have hblocked : Blocked Kind.IsDir (FsNode.directory children).view (n :: p) ↔
      Blocked Kind.IsDir c.view p := by
    rw [view_directory, blocked_branch (show Kind.IsDir .dir from rfl)]
    simp [h]
  rw [overlaid, overlaid, view_of_lookup h, realAt, h, append_assoc]
  cases c.view p with
  | none => exact if_congr hblocked rfl rfl
  | some k => rfl

lemma find_eq_view (r : Real) (p : List Str) : (r.find p).map Real.kind = r.view p := by
  induction p generalizing r with
  | nil => rfl
  | cons n p ih =>
    cases r with
    | dir entries =>
      rw [Real.find, Real.view]
      cases entries.lookup n with
      | none => rfl
      | some e => exact ih e
    | dirLink | link | file => rfl

lemma overlaid_of_lookup_none (h : children.lookup n = none) (p : List Str) :
    overlaid disk path (.directory children) real (n :: p) = realView (child real n) p := by
  have hblocked : ¬Blocked Kind.IsDir (FsNode.directory children).view (n :: p) := by
    rw [view_directory, blocked_branch (show Kind.IsDir .dir from rfl)]
    simp [h]
  rw [overlaid, view_of_lookup_none h, realAt, h]
  simp only [if_neg hblocked]
  cases child real n with
  | none => rfl
  | some r => exact find_eq_view r p

lemma overlaid_leaf (h : ¬c.kind.IsDir) (p : List Str) :
    overlaid disk path c real (n :: p) = none := by
  have hnone : c.view (n :: p) = none := by
    cases c with
    | directory children => exact absurd rfl h
    | file | symlink | magiskLink | whiteout => rfl
  have hblocked : Blocked Kind.IsDir c.view (n :: p) := ⟨[], nil_prefix, c.kind, rfl, h⟩
  rw [overlaid, hnone]
  exact if_pos hblocked

lemma overlaid_nil : overlaid disk path c real [] = shown disk path c.kind := by
  rw [overlaid, FsNode.view, append_nil]

lemma exists_of_view_cons (h : (FsNode.directory children).view (n :: p) = some k) :
    ∃ c, children.lookup n = some c ∧ c.view p = some k :=
  bind_eq_some_iff.mp h

/-- A directory of trees that can be mounted. -/
lemma Mountable.directory (hs : SortedKeys compare children)
    (h : ∀ c ∈ children, Mountable disk c.2) : Mountable disk (.directory children) where
  sorted := .directory hs fun c hc => (h c hc).sorted
  sources p src hp := by
    cases p with
    | nil => cases hp
    | cons n p =>
      obtain ⟨c, hc, hp⟩ := exists_of_view_cons hp
      exact (h _ (mem_of_lookup hc)).sources p src hp
  links p hp := by
    cases p with
    | nil => cases hp
    | cons n p =>
      obtain ⟨c, hc, hp⟩ := exists_of_view_cons hp
      exact (h _ (mem_of_lookup hc)).links p hp

lemma NoReplace.directory (h : ∀ c ∈ children, c.1 ≠ replaceName ∧ NoReplace c.2) :
    NoReplace (.directory children) := by
  intro p hp
  cases p with
  | nil => cases hp
  | cons n p =>
    rw [eq_none_iff_forall_ne_some]
    intro k hk
    obtain ⟨c, hc, hk⟩ := exists_of_view_cons hk
    obtain ⟨hne, hr⟩ := h _ (mem_of_lookup hc)
    have hmem : replaceName ∈ p := (mem_cons.mp hp).resolve_left hne.symm
    cases (hr p hmem).symm.trans hk

lemma Agrees.directory (hroot : ∀ r, real = some r → SameKind .dir r)
    (h : ∀ c ∈ children, Agrees c.2 (Modules.child real c.1)) :
    Agrees (.directory children) real := by
  intro p k r hk hr
  cases p with
  | nil =>
    cases hk
    exact hroot r hr
  | cons n p =>
    obtain ⟨c, hc, hk⟩ := exists_of_view_cons hk
    rw [realAt, hc] at hr
    exact h _ (mem_of_lookup hc) p k r hk hr

end Below

/-! ### Both ways of a commit -/

section Ways

variable {disk : Disk} {real : Option Real}

lemma unread_cons (n : Str) (h : ∃ m ∈ p, readable m = false) :
    ∃ m ∈ n :: p, readable m = false := by
  obtain ⟨m, hm, hread⟩ := h
  exact ⟨m, mem_cons_of_mem n hm, hread⟩

/-- A mirror shows what is there for real. -/
lemma mirrored_shows (r : Real) : Shows (mirrored r) r.view := by
  intro p
  induction p generalizing r with
  | nil => exact .inl rfl
  | cons n p ih =>
    cases r with
    | dir entries =>
      rw [mirrored, Real.view]
      cases hn : readable n with
      | false => exact .inr ⟨rfl, n, .head _, hn⟩
      | true =>
        cases entries.lookup n with
        | none => exact .inl rfl
        | some e => exact (ih e).imp_right (And.imp_right (unread_cons n))
    | dirLink | link | file => exact .inl rfl

lemma filled_file (h : disk src = leaf (.file data)) :
    filled (disk src) false = leaf (.file data) := by
  rw [h]
  rfl

/-- A leaf is rebuilt as it is seen. -/
lemma rebuilt_leaf_shows (hno : ¬node.kind.IsDir) (hm : Mountable disk node) :
    rebuilt disk path real node = overlaid disk path node real := by
  funext p
  cases p with
  | cons n p =>
    rw [overlaid_leaf hno]
    cases node with
    | directory children => exact absurd rfl hno
    | file src =>
      obtain ⟨data, hdata⟩ := hm.sources [] src rfl
      rw [rebuilt_file, filled_file hdata]
      rfl
    | symlink | magiskLink | whiteout => rfl
  | nil =>
    rw [overlaid_nil]
    cases node with
    | directory children => exact absurd rfl hno
    | file src =>
      obtain ⟨data, hdata⟩ := hm.sources [] src rfl
      rw [rebuilt_file, filled_file hdata, FsNode.kind, shown, hdata]
    | symlink | magiskLink | whiteout => rfl

/-- **A directory that is rebuilt shows the overlay.** -/
theorem rebuilt_overlaid (hm : Mountable disk node) (hr : NoReplace node) :
    Shows (rebuilt disk path real node) (overlaid disk path node real) := by
  induction node using FsNode.ind generalizing path real with
  | hleaf node hno => exact fun p => .inl (congrFun (rebuilt_leaf_shows hno hm) p)
  | hdir children ih =>
    intro p
    cases p with
    | nil =>
      exact .inl rfl
    | cons n p =>
      have hreplace : replaceDir children = none := by rw [replaceDir, hr.lookup]
      have hlookup : lookupChild children n = children.lookup n := by
        rw [lookupChild]
        split_ifs with hn
        · rw [hn, hr.lookup]
        · rfl
      rw [rebuilt_cons, hlookup, hreplace]
      cases hc : children.lookup n with
      | some c =>
        rw [overlaid_of_lookup hc]
        refine Or.imp_right (And.imp_right (unread_cons n)) ?_
        exact ih _ (mem_of_lookup hc) (hm.child hc) (hr.child hc) p
      | none =>
        rw [overlaid_of_lookup_none hc]
        cases hn : readable n with
        | false => exact .inr ⟨rfl, n, .head _, hn⟩
        | true =>
          cases child real n with
          | none => exact .inl rfl
          | some r =>
            exact (mirrored_shows r p).imp_right (And.imp_right (unread_cons n))

lemma bindMount_nil (hsrc : src [] = some k)
    (hv : v [] = some k') (h : k.isDir = k'.isDir) : bindMount src [] v = src := by
  rw [bindMount, hsrc, hv]
  simp only [h]
  exact funext fun q => graft_append [] src v q

/-- **A node that is committed in place shows the overlay.** -/
theorem committed_overlaid (hm : Mountable disk node) (hr : NoReplace node) (ha : Agrees node real)
    (hplace : parentShouldBeTmpfs node real = false) :
    Shows (committed disk path false real node) (overlaid disk path node real) := by
  induction node using FsNode.ind generalizing path real with
  | hleaf node hno =>
    obtain ⟨hkind, hreal⟩ := parentShouldBeTmpfs_eq_false hplace
    obtain ⟨src, rfl⟩ := hkind.resolve_left hno
    obtain ⟨data, rfl⟩ : ∃ data, real = some (.file data) :=
      hreal.resolve_left (by rintro ⟨entries, heq⟩; exact ha [] (.file src) (.dir entries) rfl heq)
    obtain ⟨data', hdata⟩ := hm.sources [] src rfl
    have hmount : committed disk path false (some (.file data)) (.file src) = disk src := by
      have hsrc : disk src [] = some (.file data') := by rw [hdata, leaf]
      rw [committed_file]
      exact bindMount_nil hsrc rfl rfl
    rw [hmount, ← rebuilt_leaf_shows hno hm, rebuilt_file, hdata]
    exact fun p => .inl rfl
  | hdir children ih =>
    obtain ⟨-, hreal⟩ := parentShouldBeTmpfs_eq_false hplace
    obtain ⟨entries, rfl⟩ : ∃ entries, real = some (.dir entries) :=
      hreal.resolve_right (by rintro ⟨data, heq⟩; exact ha [] .dir (.file data) rfl heq)
    intro p
    cases htmpfs : isTmpfs false (some (.dir entries)) children with
    | true =>
      have hmoved : committed disk path false (some (.dir entries)) (.directory children) =
          rebuilt disk path (some (.dir entries)) (.directory children) := by
        rw [committed_tmpfs htmpfs]
        exact bindMount_nil rfl rfl rfl
      rw [hmoved]
      exact rebuilt_overlaid hm hr p
    | false =>
      cases p with
      | nil =>
        rw [committed_nil htmpfs]
        exact .inl rfl
      | cons n p =>
        rw [committed_inPlace htmpfs]
        cases hc : children.lookup n with
        | none =>
          rw [overlaid_of_lookup_none hc]
          exact .inl rfl
        | some c =>
          have hplace' := (retained_plain htmpfs (mem_of_lookup hc) rfl).2
          rw [overlaid_of_lookup hc]
          refine Or.imp_right (And.imp_right (unread_cons n)) ?_
          exact ih _ (mem_of_lookup hc) (hm.child hc) (hr.child hc) (ha.child hc) hplace' p

end Ways

/-! ### A partition root -/

section Root

variable {disk : Disk} {children : List (Str × FsNode)}

/-- The children of a partition root that are not ignored. -/
def kept (real : Option Real) (children : List (Str × FsNode)) : List (Str × FsNode) :=
  children.filter fun c => retained true real c.1 c.2

lemma lookup_kept (real : Option Real) (hnodup : (children.map Prod.fst).Nodup) (n : Str) :
    (kept real children).lookup n = (children.lookup n).filter (retained true real n) := by
  have hnodup' : ((kept real children).map Prod.fst).Nodup :=
    hnodup.sublist (filter_sublist.map Prod.fst)
  ext c
  rw [filter_eq_some_iff]
  constructor
  · intro h
    obtain ⟨hmem, hkept⟩ := mem_filter.mp (mem_of_lookup h)
    exact ⟨lookup_of_mem hnodup hmem, hkept⟩
  · rintro ⟨h, hkept⟩
    exact lookup_of_mem hnodup' (mem_filter.mpr ⟨mem_of_lookup h, hkept⟩)

lemma Mountable.linkable (h : Mountable disk node) : node.All FsNode.Linkable := by
  induction node using FsNode.ind with
  | hleaf node hno =>
    refine .leaf hno fun heq => h.links [] ?_
    rw [heq]
    rfl
  | hdir children ih =>
    refine .directory nofun fun c hc => ih c hc ?_
    exact h.child (lookup_of_mem h.sorted.children.1.nodup hc)

/-- What the root of a partition shows. -/
lemma committed_root (hm : Mountable disk (.directory children))
    (hr : NoReplace (.directory children))
    (ha : Agrees (.directory children) (some (.dir entries))) :
    Shows (committed disk path true (some (.dir entries)) (.directory children))
      (overlaid disk path (.directory (kept (some (.dir entries)) children))
        (some (.dir entries))) := by
  have hroot : isTmpfs true (some (.dir entries)) children = false := rfl
  have hnodup := hm.sorted.children.1.nodup
  intro p
  cases p with
  | nil =>
    exact .inl rfl
  | cons n p =>
    have hlookup := lookup_kept (some (.dir entries)) hnodup n
    rw [committed_inPlace hroot]
    cases hc : children.lookup n with
    | none =>
      rw [hc] at hlookup
      rw [overlaid_of_lookup_none hlookup]
      exact .inl rfl
    | some c =>
      rw [hc] at hlookup
      cases hkept : retained true (some (.dir entries)) n c with
      | false =>
        rw [filter_some_neg (by simp [hkept])] at hlookup
        rw [overlaid_of_lookup_none hlookup]
        simp only [hkept]
        exact .inl rfl
      | true =>
        rw [filter_some_pos hkept] at hlookup
        have hplace := (retained_plain hroot (mem_of_lookup hc) hkept).2
        rw [overlaid_of_lookup hlookup]
        simp only [hkept]
        refine Or.imp_right (And.imp_right (unread_cons n)) ?_
        exact committed_overlaid (hm.child hc) (hr.child hc) (ha.child hc) hplace p

/-- **The commit of a partition root shows the overlay** of the tree over the partition, without
the children of the root that would need a tmpfs.  Entries with names that are not text may be
missing. -/
theorem commit_overlay (disk : Disk) (path : List Str) {children : List (Str × FsNode)}
    {entries : List (Str × Real)} {s : Mounts} (hreal : (Real.dir entries).Regular)
    (hm : Mountable disk (.directory children)) (hr : NoReplace (.directory children))
    (ha : Agrees (.directory children) (some (.dir entries)))
    (hseen : ∀ q, s.real (path ++ q) = (Real.dir entries).view q)
    (hworker : ∀ q, s.worker (path ++ q) = none) :
    ∃ s', commit disk path true (some (.dir entries)) s (.directory children) = (s', true) ∧
      (∀ p, s'.real (path ++ p) = overlaid disk path
          (.directory (kept (some (.dir entries)) children)) (some (.dir entries)) p ∨
        s'.real (path ++ p) = none ∧ ∃ n ∈ p, readable n = false) ∧
      ∀ q, ¬path <+: q → s'.real q = s.real q := by
  have hregular : ∀ r ∈ some (Real.dir entries), r.Regular := by
    intro r h
    rwa [← some.inj h]
  obtain ⟨w, hcommit, -⟩ := commit_eq hm.sorted hm.linkable path true (some (.dir entries)) s
    hregular (by nofun) hseen hworker
  refine ⟨_, hcommit, fun p => ?_, fun q hq => graft_of_not_below hq⟩
  simp only [graft_append]
  exact committed_root hm hr ha p

end Root

/-! ### A shell and a new command -/

/-- A partition with a shell. -/
def shellEntries : List (Str × Real) := [(str "bin", .dir [(str "sh", .file [1])])]

/-- A tree with a command for it. -/
def suNode : FsNode := .directory [(str "bin", .directory [(str "su", .file (str "/m/su"))])]

/-- The file of the module. -/
def suDisk : Disk := fun src => if src = str "/m/su" then leaf (.file [2]) else fun _ => none

lemma mountable_suNode : Mountable suDisk suNode := by
  refine .directory (pairwise_singleton _ _) ?_
  refine forall_mem_singleton.mpr (.directory (pairwise_singleton _ _) ?_)
  refine forall_mem_singleton.mpr ⟨.file _, fun p src hp => ?_, fun p hp => ?_⟩
  · obtain rfl : src = str "/m/su" := by
      cases p <;> cases hp
      rfl
    exact ⟨[2], if_pos rfl⟩
  · cases p <;> cases hp

lemma noReplace_suNode : NoReplace suNode := by
  refine .directory (forall_mem_singleton.mpr ⟨by decide, ?_⟩)
  refine .directory (forall_mem_singleton.mpr ⟨by decide, fun p hp => ?_⟩)
  cases p with
  | nil => cases hp
  | cons n p => rfl

lemma agrees_suNode : Agrees suNode (some (.dir shellEntries)) := by
  refine .directory (fun r h => some.inj h ▸ trivial) (forall_mem_singleton.mpr ?_)
  refine .directory (fun r h => some.inj h ▸ trivial) (forall_mem_singleton.mpr ?_)
  intro p k r hk hr
  cases p with
  | nil => cases hr
  | cons n p => cases hk

/-- The partition before the commit. -/
def shellMounts : Mounts :=
  ⟨graft [str "system"] (Real.dir shellEntries).view fun _ => none, fun _ => none⟩

/-- The shell is still seen besides the command. -/
theorem commit_overlay_su :
    ∃ s', commit suDisk [str "system"] true (some (.dir shellEntries)) shellMounts suNode =
        (s', true) ∧
      (∀ p, s'.real ([str "system"] ++ p) = overlaid suDisk [str "system"]
          (.directory (kept (some (.dir shellEntries))
            [(str "bin", .directory [(str "su", .file (str "/m/su"))])]))
          (some (.dir shellEntries)) p ∨
        s'.real ([str "system"] ++ p) = none ∧ ∃ n ∈ p, readable n = false) ∧
      ∀ q, ¬[str "system"] <+: q → s'.real q = shellMounts.real q := by
  have hregular : (Real.dir shellEntries).Regular := by
    refine .intro ⟨nodup_singleton _, trivial⟩ (forall_mem_singleton.mpr ?_)
    refine .intro ⟨nodup_singleton _, trivial⟩ (forall_mem_singleton.mpr ?_)
    exact .intro ⟨nodup_nil, trivial⟩ nofun
  have hseen : ∀ q, shellMounts.real ([str "system"] ++ q) = (Real.dir shellEntries).view q :=
    fun q => graft_append [str "system"] (Real.dir shellEntries).view (fun _ => none) q
  exact commit_overlay suDisk [str "system"] hregular mountable_suNode noReplace_suNode
    agrees_suNode hseen fun _ => rfl

/-- A partition with a file whose name is not text. -/
def latinEntries : List (Str × Real) := [(str "bin", .dir [([0xff], .file [1])])]

/-- **The file is not mirrored**: it is there before the commit and not after it. -/
theorem latin_not_mirrored :
    (Real.dir latinEntries).view [str "bin", [0xff]] = some (.file [1]) ∧
      (commit suDisk [] true (some (.dir latinEntries))
        ⟨(Real.dir latinEntries).view, fun _ => none⟩ suNode).1.real [str "bin", [0xff]] =
          none := by
  decide

end Magisk.Core.Modules
