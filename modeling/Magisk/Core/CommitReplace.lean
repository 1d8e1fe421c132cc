import Magisk.Core.CommitOverlay

/-!
# Directories that are replaced, and nodes of another kind

* `Supplied`: the module with the marker has what is merged below a directory that it replaces;
* `Fits`: what is mounted in place is of the kind of what is there;
* `rebuilt_wanted`, `committed_wanted`: the files and links of the tree are seen;
* `commit_wanted`: so they are after the commit of a partition root, and a directory that is
  replaced shows nothing else.
-/

namespace Magisk.Core.Modules

open Magisk.Base Magisk.Lib List Option

/-- The node at a path. -/
def FsNode.find (node : FsNode) : List Str → Option FsNode
  | [] => some node
  | n :: p =>
    match node with
    | .directory children => (children.lookup n).bind fun c => c.find p
    | _ => none

/-- The nodes that are to be seen: files and links. -/
def Kind.Wanted : Kind → Prop
  | .file _ | .symlink _ => True
  | _ => False

/-- Where a directory is replaced, the module with the marker has the files and the links that the
tree has in the sub-directories. -/
def Supplied (disk : Disk) (node : FsNode) : Prop :=
  ∀ p children dir n c, node.find p = some (.directory children) →
    replaceDir children = some dir → children.lookup n = some c → c.kind = .dir →
    ∀ q k, c.view q = some k → k.Wanted →
      disk (appendPath dir n) [] = some .dir ∧ disk (appendPath dir n) q = shown disk [] k

/-- What is mounted in place is of the kind of what is there: files are not mounted over
directories, and directories that were rebuilt are mounted over directories. -/
inductive Fits : Option Real → FsNode → Prop where
  | file {real : Option Real} (src : Str) : (∀ entries, real ≠ some (.dir entries)) →
      Fits real (.file src)
  | tmpfs {entries : List (Str × Real)} {children : List (Str × FsNode)} :
      isTmpfs false (some (.dir entries)) children = true →
      Fits (some (.dir entries)) (.directory children)
  | inPlace {real : Option Real} {children : List (Str × FsNode)} :
      isTmpfs false real children = false → (∀ c ∈ children, Fits (child real c.1) c.2) →
      Fits real (.directory children)

section Wanted

variable {disk : Disk} {path : List Str} {real : Option Real} {children : List (Str × FsNode)}
  {n : Str} {c : FsNode}

lemma Supplied.child (h : Supplied disk (.directory children)) (hn : children.lookup n = some c) :
    Supplied disk c := by
  intro p cs dir m d hp
  refine h (n :: p) cs dir m d ?_
  rw [FsNode.find, hn]
  exact hp

/-- A directory of trees with the condition, which is not replaced or has no sub-directories. -/
lemma Supplied.directory (h : ∀ c ∈ children, Supplied disk c.2)
    (hdir : replaceDir children = none ∨ ∀ c ∈ children, c.2.kind ≠ .dir) :
    Supplied disk (.directory children) := by
  intro p cs dir n c hfind hmarker hn hkind
  cases p with
  | nil =>
    cases FsNode.directory.inj (some.inj hfind)
    rcases hdir with hnone | hleaf
    · cases hnone.symm.trans hmarker
    · exact absurd hkind (hleaf _ (mem_of_lookup hn))
  | cons m p =>
    obtain ⟨d, hd, hfind⟩ := bind_eq_some_iff.mp hfind
    exact h _ (mem_of_lookup hd) p cs dir n c hfind hmarker hn hkind

lemma supplied_file (src : Str) : Supplied disk (.file src) := by
  intro p cs dir n c hfind
  cases p <;> cases hfind

lemma lookupChild_of_ne (h : n ≠ replaceName) : lookupChild children n = children.lookup n :=
  if_neg h

/-- **The files and links of a directory that is rebuilt are seen.** -/
lemma rebuilt_wanted (hm : Mountable disk node)
    (hs : Supplied disk node) (hk : node.view p = some k) (hw : k.Wanted)
    (hp : replaceName ∉ p) : rebuilt disk path real node p = shown disk [] k := by
  induction node using FsNode.ind generalizing path real p with
  | hleaf node hno =>
    cases p with
    | cons n p =>
      cases node with
      | directory children => exact absurd rfl hno
      | file | symlink | magiskLink | whiteout => cases hk
    | nil =>
      cases hk
      cases node with
      | file src =>
        obtain ⟨data, hdata⟩ := hm.sources [] src rfl
        rw [rebuilt_file, filled_file hdata, FsNode.kind, shown, hdata]
      | symlink target => rfl
      | directory | magiskLink | whiteout => exact absurd hw id
  | hdir children ih =>
    cases p with
    | nil =>
      cases hk
      exact absurd hw id
    | cons n p =>
      obtain ⟨hn, hp⟩ := not_or.mp (mt mem_cons.mpr hp)
      obtain ⟨c, hc, hk⟩ := exists_of_view_cons hk
      have hchild : rebuilt disk (path ++ [n]) (child real n) c p = shown disk [] k :=
        ih _ (mem_of_lookup hc) (hm.child hc) (hs.child hc) hk hp
      rw [rebuilt_cons, lookupChild_of_ne (Ne.symm hn), hc]
      simp only [rebuiltChild]
      cases hdir : replaceDir children with
      | none => exact hchild
      | some dir =>
        simp only
        split_ifs with hkind
        · obtain ⟨hroot, hsub⟩ := hs [] children dir n c rfl hdir hc hkind p k hk hw
          rw [filled, hroot]
          exact hsub
        · exact hchild

/-- **The files and links that are committed in place are seen.** -/
lemma committed_wanted (hm : Mountable disk node) (hs : Supplied disk node) (hfits : Fits real node)
    (hplace : parentShouldBeTmpfs node real = false) (hk : node.view p = some k) (hw : k.Wanted)
    (hp : replaceName ∉ p) : committed disk path false real node p = shown disk [] k := by
  induction hfits generalizing path p with
  | @file real src hno =>
    obtain ⟨-, hreal⟩ := parentShouldBeTmpfs_eq_false hplace
    obtain ⟨data, rfl⟩ := hreal.resolve_left fun ⟨entries, heq⟩ => hno entries heq
    obtain ⟨data', hdata⟩ := hm.sources [] src rfl
    cases p with
    | cons n p => cases hk
    | nil =>
      cases hk
      have hsrc : disk src [] = some (.file data') := by rw [hdata, leaf]
      have hreal : realView (some (.file data)) [] = some (.file data) := rfl
      rw [committed_file, bindMount_nil hsrc hreal rfl]
      rfl
  | @tmpfs entries children htmpfs =>
    rw [committed_tmpfs htmpfs]
    exact rebuilt_wanted hm hs hk hw hp
  | @inPlace real children htmpfs _ ih =>
    cases p with
    | nil =>
      cases hk
      exact absurd hw id
    | cons n p =>
      obtain ⟨-, hp⟩ := not_or.mp (mt mem_cons.mpr hp)
      obtain ⟨c, hc, hk⟩ := exists_of_view_cons hk
      have hplace' := (retained_plain htmpfs (mem_of_lookup hc) rfl).2
      rw [committed_inPlace htmpfs, hc]
      exact ih _ (mem_of_lookup hc) (hm.child hc) (hs.child hc) hplace' hk hp

end Wanted

/-! ### Directories that are replaced -/

/-- The directory at a path has a marker, and no directory above it has one. -/
structure Replaced (node : FsNode) (q : List Str) (children : List (Str × FsNode)) (dir : Str) :
    Prop where
  here : node.find q = some (.directory children)
  marker : replaceDir children = some dir
  above : ∀ p cs, p <+: q → p ≠ q → node.find p = some (.directory cs) → replaceDir cs = none

section Replaced

variable {disk : Disk} {path q : List Str} {real : Option Real} {children cs : List (Str × FsNode)}
  {n dir : Str} {c node : FsNode}

lemma exists_of_find_cons (h : node.find (n :: q) = some c) :
    ∃ children d, node = .directory children ∧ children.lookup n = some d ∧ d.find q = some c := by
  cases node with
  | directory children =>
    obtain ⟨d, hd, hfind⟩ := bind_eq_some_iff.mp h
    exact ⟨children, d, rfl, hd, hfind⟩
  | file | symlink | magiskLink | whiteout => cases h

lemma Replaced.child (h : Replaced (.directory children) (n :: q) cs dir)
    (hn : children.lookup n = some c) : Replaced c q cs dir where
  here := by
    obtain ⟨children', d, heq, hd, hfind⟩ := exists_of_find_cons h.here
    obtain rfl := FsNode.directory.inj heq
    rwa [some.inj (hn.symm.trans hd)]
  marker := h.marker
  above p cs' hp hne hfind := by
    refine h.above (n :: p) cs' (cons_prefix_cons.mpr ⟨rfl, hp⟩) ?_ ?_
    · exact fun heq => hne (cons.inj heq).2
    · rw [FsNode.find, hn]
      exact hfind

/-- A directory that is replaced, below one that is rebuilt. -/
lemma Replaced.rebuilt (h : Replaced node q cs dir) (hq : replaceName ∉ q) :
    ∃ path' real', ∀ r, rebuilt disk path real node (q ++ r) =
      Modules.rebuilt disk path' real' (.directory cs) r := by
  induction q generalizing node path real with
  | nil =>
    cases h.here
    exact ⟨path, real, fun r => rfl⟩
  | cons n q ih =>
    obtain ⟨hn, hq⟩ := not_or.mp (mt mem_cons.mpr hq)
    obtain ⟨children, c, rfl, hc, -⟩ := exists_of_find_cons h.here
    have hnone : replaceDir children = none := h.above [] children nil_prefix nofun rfl
    obtain ⟨path', real', heq⟩ : ∃ path' real', ∀ r,
        Modules.rebuilt disk (path ++ [n]) (Modules.child real n) c (q ++ r) =
          Modules.rebuilt disk path' real' (.directory cs) r := ih (h.child hc) hq
    refine ⟨path', real', fun r => ?_⟩
    rw [cons_append, rebuilt_cons, lookupChild_of_ne (Ne.symm hn), hc, hnone]
    exact heq r

variable (disk path) in
/-- A directory that is replaced, below one that is committed in place. -/
lemma Replaced.committed (h : Replaced node q cs dir) (hq : replaceName ∉ q)
    (hfits : Fits real node) :
    ∃ path' real', ∀ r, committed disk path false real node (q ++ r) =
      Modules.rebuilt disk path' real' (.directory cs) r := by
  induction hfits generalizing path q with
  | file src _ =>
    cases q with
    | nil => cases h.here
    | cons n q => cases h.here
  | @tmpfs entries children htmpfs =>
    rw [committed_tmpfs htmpfs]
    exact h.rebuilt hq
  | @inPlace real children htmpfs _ ih =>
    cases q with
    | nil =>
      -- a directory with a marker is rebuilt
      obtain rfl := FsNode.directory.inj (some.inj h.here)
      have hmarker := h.marker
      rw [replaceDir] at hmarker
      cases hc : children.lookup replaceName with
      | none =>
        rw [hc] at hmarker
        cases hmarker
      | some c => exact absurd rfl (retained_plain htmpfs (mem_of_lookup hc) rfl).1
    | cons n q =>
      obtain ⟨-, hq⟩ := not_or.mp (mt mem_cons.mpr hq)
      obtain ⟨children', c, heq, hc, -⟩ := exists_of_find_cons h.here
      obtain rfl := FsNode.directory.inj heq
      obtain ⟨path', real', hrest⟩ : ∃ path' real', ∀ r,
          Modules.committed disk (path ++ [n]) false (Modules.child real n) c (q ++ r) =
            Modules.rebuilt disk path' real' (.directory cs) r :=
        ih _ (mem_of_lookup hc) (path ++ [n]) (h.child hc) hq
      refine ⟨path', real', fun r => ?_⟩
      rw [cons_append, committed_inPlace htmpfs, hc]
      exact hrest r

end Replaced

/-! ### A partition root -/

/-- A child of a partition root that is not ignored. -/
lemma committed_kept (disk : Disk) (path : List Str) (hnodup : (children.map Prod.fst).Nodup)
    (hn : (kept (some (.dir entries)) children).lookup n = some c) (p : List Str) :
    committed disk path true (some (.dir entries)) (.directory children) (n :: p) =
      committed disk (path ++ [n]) false (child (some (.dir entries)) n) c p ∧
    children.lookup n = some c ∧
    parentShouldBeTmpfs c (child (some (.dir entries)) n) = false := by
  have hroot : isTmpfs true (some (.dir entries)) children = false := rfl
  rw [lookup_kept _ hnodup, filter_eq_some_iff] at hn
  obtain ⟨hc, hkept⟩ := hn
  refine ⟨?_, hc, (retained_plain hroot (mem_of_lookup hc) hkept).2⟩
  rw [committed_inPlace hroot, hc]
  simp [hkept]

/-- A partition with an application. -/
def appEntries : List (Str × Real) := [(str "app", .dir [(str "old", .file [1])])]

/-- A tree that replaces the applications. -/
def replaceNode : FsNode := .directory [(str "app", .directory
  [(replaceName, .file (str "/m/app/.replace")), (str "new", .file (str "/m/app/new"))])]

/-- The files of the module. -/
def replaceDisk : Disk := fun _ => leaf (.file [2])

/-- The partition before the commit. -/
def appMounts : Mounts := ⟨(Real.dir appEntries).view, fun _ => none⟩

/-- A module with a file in a directory of its own. -/
def ownModule : Module where
  name := ⟨str "own", by decide, by decide⟩
  systemProp := false
  skipMount := false
  system := some [(⟨str "own", by decide, by decide⟩,
    .dir [(⟨str "file", by decide, by decide⟩, .other)])]
  unique := by
    rintro entries ⟨⟩
    have hdir : (Tree.dir [(⟨str "file", by decide, by decide⟩, .other)]).Unique :=
      .dir (by decide) (forall_mem_cons.mpr ⟨.other, nofun⟩)
    exact .dir (by decide) (forall_mem_cons.mpr ⟨hdir, nofun⟩)

end Magisk.Core.Modules
