import Magisk.Base.Str
import Magisk.Lib.Utf8
import Magisk.Lib.OrderedMap
import Magisk.Lib.Overlay

/-!
# The files of the modules

The first step of `apply_modules`: the `system` directories of all modules are collected
in one tree, the earlier modules first.

* `Tree`, `Module`: what is on disk;
* `FsNode`: what is collected;
* `ModulePaths`: the three path buffers, to which names are appended and cut off again;
* `collect`, `applyModules`: the source's functions;
* `collect_paths`: the buffers are left as they were;
* `view_collect`: a directory is collected by laying what is there over it;
* `collected_overlay`: the modules laid over each other.
-/

namespace Magisk.Core.Modules

open Magisk.Base Magisk.Lib List Option

variable {magiskTmp : Str}

/-! ### On disk -/

/-- The separator of a path. -/
def slash : UInt8 := chr '/'

/-- The name of a directory entry. -/
@[ext]
structure FileName where
  bytes : Str
  ne_nil : bytes ≠ []
  noSlash : slash ∉ bytes
deriving DecidableEq

/-- The target of a symbolic link, which is shorter than `PATH_MAX`. -/
structure LinkTarget where
  bytes : Str
  short : bytes.length < 4096

/-- What a directory entry can be, as far as it matters. -/
inductive Tree where
  | dir (entries : List (FileName × Tree))
  | symlink (target : LinkTarget)
  | charDevice (rdev : Nat)
  | other

/-- No directory has two entries of one name. -/
inductive Tree.Unique : Tree → Prop where
  | dir {entries : List (FileName × Tree)} : (entries.map Prod.fst).Nodup →
      (∀ e ∈ entries, Unique e.2) → Unique (.dir entries)
  | symlink (target : LinkTarget) : Unique (.symlink target)
  | charDevice (rdev : Nat) : Unique (.charDevice rdev)
  | other : Unique .other

/-- A module, by what is in its directory. -/
structure Module where
  name : FileName
  systemProp : Bool
  skipMount : Bool
  system : Option (List (FileName × Tree))
  unique : ∀ entries, system = some entries → (Tree.dir entries).Unique

/-! ### In memory -/

/-- A node of the tree that is collected.  The children are sorted by their names. -/
inductive FsNode where
  | directory (children : List (Str × FsNode))
  | file (src : Str)
  | symlink (target : Str)
  | magiskLink
  | whiteout

/-- `FsNode::new_dir`. -/
def FsNode.newDir : FsNode := .directory []

/-- `append_path`. -/
def appendPath (buf path : Str) : Str :=
  let buf := if path.head? = some slash then [] else buf
  let buf := if buf ≠ [] ∧ buf.getLast? ≠ some slash then buf ++ [slash] else buf
  buf ++ path

/-- A path buffer, and the length it is cut to when it is dropped. -/
structure PathTracker where
  path : Str
  len : Nat

/-- `PathTracker::from`. -/
def PathTracker.ofBuf (path : Str) : PathTracker := ⟨path, path.length⟩

/-- `PathTracker::append`. -/
def PathTracker.append (t : PathTracker) (name : Str) : PathTracker :=
  ⟨appendPath t.path name, t.path.length⟩

/-- `PathTracker::reborrow`. -/
def PathTracker.reborrow (t : PathTracker) : PathTracker := .ofBuf t.path

/-- The tracker after one that was made from it is dropped. -/
def PathTracker.release (t child : PathTracker) : PathTracker :=
  { t with path := child.path.take child.len }

/-- `ModulePaths`. -/
structure ModulePaths where
  real : PathTracker
  module : PathTracker
  moduleMnt : PathTracker

/-- `ModulePaths::new`, where `magiskTmp` is what `get_magisk_tmp` returns. -/
def ModulePaths.new (magiskTmp : Str) : ModulePaths where
  real := .ofBuf (appendPath [] (str "/"))
  module := .ofBuf (appendPath [] (str "/data/adb/modules"))
  moduleMnt := .ofBuf (appendPath (appendPath [] magiskTmp) (str ".magisk/modules"))

/-- `ModulePaths::set_module`. -/
def ModulePaths.setModule (p : ModulePaths) (name : Str) : ModulePaths where
  real := p.real.reborrow
  module := p.module.append name
  moduleMnt := p.moduleMnt.append name

/-- `ModulePaths::append`. -/
def ModulePaths.append (p : ModulePaths) (name : Str) : ModulePaths where
  real := p.real.append name
  module := p.module.append name
  moduleMnt := p.moduleMnt.append name

/-- The paths after ones that were made from them are dropped. -/
def ModulePaths.release (p child : ModulePaths) : ModulePaths where
  real := p.real.release child.real
  module := p.module.release child.module
  moduleMnt := p.moduleMnt.release child.moduleMnt

/-- Does `Directory::read` return the entry? -/
def readable (name : Str) : Bool := validUtf8 name && name ≠ str "." && name ≠ str ".."

/-- `read_link`: the buffer is cleared if the target is not UTF-8. -/
def readLink (target : LinkTarget) : Str :=
  let read := target.bytes.take 4095
  if validUtf8 read then read else []

/-- The node that is inserted for an entry, which is to be mounted from `src`. -/
def newNode (src : Str) : Tree → FsNode
  | .dir _ => .newDir
  | .symlink target => .symlink (readLink target)
  | .charDevice rdev => if rdev = 0 then .whiteout else .file src
  | .other => .file src

/-- `children.entry(name).or_insert_with(new)`. -/
def orInsert (children : List (Str × FsNode)) (name : Str) (new : FsNode) : List (Str × FsNode) :=
  upsert compare name (·.getD new) children

mutual

/-- `FsNode::collect`: the node, and the path buffers before they are dropped. -/
def collect (node : FsNode) (paths : ModulePaths) : Tree → FsNode × ModulePaths
  | .dir entries =>
    match node with
    | .directory children =>
      let (children, paths) := collectEntries children paths entries
      (.directory children, paths)
    | node => (node, paths)
  | _ => (node, paths)

/-- The loop of `FsNode::collect`. -/
def collectEntries (children : List (Str × FsNode)) (paths : ModulePaths) :
    List (FileName × Tree) → List (Str × FsNode) × ModulePaths
  | [] => (children, paths)
  | (name, tree) :: entries =>
    if !readable name.bytes then collectEntries children paths entries
    else
      let entryPaths := paths.append name.bytes
      let new := newNode entryPaths.moduleMnt.path tree
      let children := orInsert children name.bytes new
      match tree with
      | .dir _ =>
        let node := (children.lookup name.bytes).getD new
        let (node, entryPaths) := collect node entryPaths tree
        let children := upsert compare name.bytes (fun _ => node) children
        collectEntries children (paths.release entryPaths) entries
      | _ => collectEntries children (paths.release entryPaths) entries

end

/-- The first step of `apply_modules` for one module: the tree, the property files that are
loaded, and the path buffers. -/
def applyModule (s : FsNode × List Str × ModulePaths) (m : Module) :
    FsNode × List Str × ModulePaths :=
  let (system, props, outer) := s
  let paths := outer.setModule m.name.bytes
  let prop := paths.append (str "system.prop")
  let props := if m.systemProp then props ++ [prop.module.path] else props
  let paths := paths.release prop
  let skip := paths.append (str "skip_mount")
  let paths := paths.release skip
  if m.skipMount then (system, props, outer.release paths)
  else
    let sys := paths.append (str "system")
    match m.system with
    | none => (system, props, outer.release (paths.release sys))
    | some entries =>
      let (system, sys) := collect system sys (.dir entries)
      (system, props, outer.release (paths.release sys))

/-- The first step of `apply_modules`. -/
def applyModules (magiskTmp : Str) (modules : List Module) : FsNode × List Str × ModulePaths :=
  modules.foldl applyModule (.newDir, [], .new magiskTmp)

/-! ### The path buffers -/

section Paths

variable {buf name : Str}

lemma appendPath_eq (h : name.head? ≠ some slash) :
    appendPath buf name = buf ++
      ((if buf ≠ [] ∧ buf.getLast? ≠ some slash then [slash] else []) ++ name) := by
  rw [appendPath, if_neg h]
  split_ifs
  · rw [append_assoc]
  · rfl

lemma release_append (t : PathTracker) (h : name.head? ≠ some slash) :
    t.release (t.append name) = t := by
  rw [PathTracker.release, PathTracker.append]
  rw [appendPath_eq h, take_left]

lemma ModulePaths.release_append (p : ModulePaths) (h : name.head? ≠ some slash) :
    p.release (p.append name) = p := by
  rw [release, append]
  rw [Modules.release_append _ h, Modules.release_append _ h, Modules.release_append _ h]

lemma FileName.head?_ne (name : FileName) : name.bytes.head? ≠ some slash :=
  fun h => name.noSlash (mem_of_head? h)

end Paths

/-- The induction principle of the trees on disk. -/
@[elab_as_elim]
theorem Tree.ind {P : Tree → Prop}
    (hdir : ∀ entries, (∀ e ∈ entries, P e.2) → P (.dir entries))
    (hsymlink : ∀ target, P (.symlink target)) (hchar : ∀ rdev, P (.charDevice rdev))
    (hother : P .other) (t : Tree) : P t :=
  @Tree.rec P (fun entries => ∀ e ∈ entries, P e.2) (fun e => P e.2)
    (fun entries ih => hdir entries ih) hsymlink hchar hother
    (fun _ he => absurd he not_mem_nil)
    (fun _ _ ihe ih e' he' => (mem_cons.mp he').elim (fun heq => heq ▸ ihe) (ih e'))
    (fun _ _ ih => ih) t

/-- The loop leaves the path buffers as they were, if the calls in it do. -/
lemma collectEntries_paths (h : ∀ e ∈ entries, ∀ node paths, (collect node paths e.2).2 = paths)
    (children : List (Str × FsNode)) (paths : ModulePaths) :
    (collectEntries children paths entries).2 = paths := by
  induction entries generalizing children with
  | nil => rw [collectEntries]
  | cons e entries ih =>
    obtain ⟨name, tree⟩ := e
    have htree := h (name, tree) mem_cons_self
    have hrest := ih fun e he => h e (.tail _ he)
    have hrelease := paths.release_append name.head?_ne
    rw [collectEntries]
    split_ifs
    · exact hrest children
    · cases tree with
      | dir entries =>
        dsimp only
        rw [htree, hrelease]
        exact hrest _
      | _ =>
        dsimp only
        rw [hrelease]
        exact hrest _

/-- **The path buffers are left as they were.** -/
lemma collect_paths (tree : Tree) (node : FsNode) (paths : ModulePaths) :
    (collect node paths tree).2 = paths := by
  induction tree using Tree.ind generalizing node paths with
  | hdir entries ih =>
    cases node with
    | directory children =>
      exact collectEntries_paths ih children paths
    | _ => rfl
  | hsymlink target => rfl
  | hchar rdev => rfl
  | hother => rfl

/-! ### The loop -/

section Loop

variable {children : List (Str × FsNode)} {paths : ModulePaths} {name : FileName} {tree : Tree}
  {entries : List (FileName × Tree)}

/-- The children after an entry that is read. -/
def collectEntry (children : List (Str × FsNode)) (paths : ModulePaths) (name : FileName)
    (tree : Tree) : List (Str × FsNode) :=
  let entryPaths := paths.append name.bytes
  let new := newNode entryPaths.moduleMnt.path tree
  let children := orInsert children name.bytes new
  match tree with
  | .dir _ =>
    upsert compare name.bytes
      (fun _ => (collect ((children.lookup name.bytes).getD new) entryPaths tree).1) children
  | _ => children

lemma collectEntries_skip (h : readable name.bytes = false) :
    collectEntries children paths ((name, tree) :: entries) =
      collectEntries children paths entries := by
  rw [collectEntries, h]
  rfl

/-- An entry that is read. -/
lemma collectEntries_read (h : readable name.bytes = true) :
    collectEntries children paths ((name, tree) :: entries) =
      collectEntries (collectEntry children paths name tree) paths entries := by
  have hrelease := paths.release_append name.head?_ne
  rw [collectEntries, h]
  cases tree with
  | dir _ =>
    dsimp only
    rw [collect_paths, hrelease]
    rfl
  | _ =>
    dsimp only
    rw [hrelease]
    rfl

lemma lookup_collectEntry (hs : SortedKeys compare children) (n : Str) :
    (collectEntry children paths name tree).lookup n =
      if n = name.bytes then
        some (collect ((children.lookup name.bytes).getD
          (newNode (paths.append name.bytes).moduleMnt.path tree)) (paths.append name.bytes) tree).1
      else children.lookup n := by
  have hinsert := fun new => lookup_upsert hs name.bytes (fun old => old.getD new)
  cases tree with
  | dir _ =>
    rw [collectEntry, orInsert, lookup_upsert (hs.upsert _ _), hinsert, hinsert]
    split_ifs <;> rfl
  | _ => exact hinsert _ n

lemma sortedKeys_collectEntry (hs : SortedKeys compare children) (paths : ModulePaths)
    (name : FileName) (tree : Tree) :
    SortedKeys compare (collectEntry children paths name tree) := by
  cases tree with
  | dir _ => exact (hs.upsert _ _).upsert _ _
  | _ => exact hs.upsert _ _

end Loop

/-! ### What is at a path -/

/-- What a node is, apart from its children. -/
inductive Kind where
  | dir
  | file (src : Str)
  | symlink (target : Str)
  | magiskLink
  | whiteout
  deriving DecidableEq

/-- Is it a directory? -/
def Kind.IsDir (k : Kind) : Prop := k = .dir

/-- The kind of a node. -/
def FsNode.kind : FsNode → Kind
  | .directory _ => .dir
  | .file src => .file src
  | .symlink target => .symlink target
  | .magiskLink => .magiskLink
  | .whiteout => .whiteout

/-- What is at a path below a node. -/
def FsNode.view (node : FsNode) : View Str Kind
  | [] => some node.kind
  | n :: p =>
    match node with
    | .directory children => (children.lookup n).bind fun child => child.view p
    | _ => none

/-- The entries of a directory that are read. -/
def visible (entries : List (FileName × Tree)) : List (Str × Tree) :=
  (entries.filter fun e => readable e.1.bytes).map fun e => (e.1.bytes, e.2)

/-- What is at a path below an entry. -/
def Tree.find (tree : Tree) : List Str → Option Tree
  | [] => some tree
  | n :: p =>
    match tree with
    | .dir entries => ((visible entries).lookup n).bind fun child => child.find p
    | _ => none

/-- A path below a directory. -/
def below (dir : Str) (p : List Str) : Str := dir ++ p.flatMap (slash :: ·)

/-- What a tree that is mounted from `src` has at each path. -/
def Tree.view (src : Str) (tree : Tree) : View Str Kind := fun p =>
  (tree.find p).map fun t => (newNode (below src p) t).kind

section View

variable {src : Str} {entries : List (FileName × Tree)} {children : List (Str × FsNode)}
  {tree : Tree}

lemma view_directory (children : List (Str × FsNode)) :
    (FsNode.directory children).view =
      branch .dir fun n => (children.lookup n).map FsNode.view := by
  funext p
  cases p with
  | nil => rfl
  | cons n p =>
    rw [FsNode.view, branch]
    cases children.lookup n <;> rfl

lemma view_dir (src : Str) (entries : List (FileName × Tree)) :
    (Tree.dir entries).view src = branch .dir fun n =>
      ((visible entries).lookup n).map (Tree.view (src ++ slash :: n)) := by
  funext p
  cases p with
  | nil => rfl
  | cons n p =>
    have hbelow : below src (n :: p) = below (src ++ slash :: n) p := by
      rw [below, below, flatMap_cons, ← append_assoc]
    rw [Tree.view, Tree.find, branch, hbelow]
    cases (visible entries).lookup n <;> rfl

lemma find_leaf (h : ∀ entries, tree ≠ .dir entries) (n : Str) (p : List Str) :
    tree.find (n :: p) = none := by
  cases tree with
  | dir entries => exact absurd rfl (h entries)
  | _ => rfl

/-- So the node made for it is all there is. -/
lemma view_newNode (src : Str) (h : ∀ entries, tree ≠ .dir entries) :
    (newNode src tree).view = tree.view src := by
  have hleaf : ∀ children, newNode src tree ≠ .directory children := by
    cases tree with
    | dir entries => exact absurd rfl (h entries)
    | charDevice rdev =>
      rw [newNode]
      split_ifs <;> exact nofun
    | _ => exact nofun
  funext p
  cases p with
  | nil => rw [FsNode.view, Tree.view, Tree.find, map_some, below, flatMap_nil,
      append_nil]
  | cons n p =>
    have hnode : (newNode src tree).view (n :: p) = none := by
      cases hnew : newNode src tree with
      | directory children => exact absurd hnew (hleaf children)
      | _ => rfl
    rw [hnode, Tree.view, find_leaf h, map_none]

lemma layOver_newNode (src : Str) (tree : Tree) :
    layOver Kind.IsDir (newNode src tree).view (tree.view src) = tree.view src := by
  by_cases h : ∃ entries, tree = .dir entries
  · obtain ⟨entries, rfl⟩ := h
    have hdir : Kind.IsDir .dir := rfl
    have hempty : (newNode src (.dir entries)).view = branch .dir fun _ => none :=
      view_directory []
    rw [view_dir, hempty, layOver_branch_none hdir]
  · rw [view_newNode src fun entries heq => h ⟨entries, heq⟩]
    exact layOver_eq_left fun p hp => hp

lemma layOver_kind {node : FsNode} (h : node.kind ≠ .dir) (v : View Str Kind) :
    layOver Kind.IsDir node.view v = node.view := by
  have hroot : node.view [] = some node.kind := rfl
  exact layOver_of_not_dir hroot h

lemma layOver_leaf (node : FsNode) (h : ∀ entries, tree ≠ .dir entries) (src : Str) :
    layOver Kind.IsDir node.view (tree.view src) = node.view := by
  refine layOver_eq_left fun p hp => ?_
  cases p with
  | nil => cases hp
  | cons n p => rw [Tree.view, find_leaf h, map_none]

end View

/-! ### Collecting is laying over -/

/-- All children in a tree are sorted. -/
inductive FsNode.Sorted : FsNode → Prop where
  | directory {children : List (Str × FsNode)} : SortedKeys compare children →
      (∀ c ∈ children, Sorted c.2) → Sorted (.directory children)
  | file (src : Str) : Sorted (.file src)
  | symlink (target : Str) : Sorted (.symlink target)
  | magiskLink : Sorted .magiskLink
  | whiteout : Sorted .whiteout

/-- A directory path to which names can be appended. -/
def IsDirPath (path : Str) : Prop := path ≠ [] ∧ path.getLast? ≠ some slash

section Collect

variable {paths : ModulePaths} {node : FsNode} {tree : Tree}

lemma appendPath_dirPath (hp : IsDirPath path) (h : name.head? ≠ some slash) :
    appendPath path name = path ++ slash :: name := by
  rw [appendPath_eq h, if_pos ⟨hp.1, hp.2⟩, singleton_append]

lemma isDirPath_append (path : Str) (name : FileName) :
    IsDirPath (path ++ slash :: name.bytes) := by
  refine ⟨by simp, fun h => name.noSlash ?_⟩
  rw [append_cons, getLast?_append_of_ne_nil _ name.ne_nil] at h
  exact mem_of_getLast? h

lemma sorted_newNode (src : Str) (tree : Tree) : (newNode src tree).Sorted := by
  cases tree with
  | dir entries => exact .directory List.Pairwise.nil nofun
  | symlink target => exact .symlink _
  | charDevice rdev =>
    rw [newNode]
    split_ifs
    · exact .whiteout
    · exact .file _
  | other => exact .file _

lemma FsNode.Sorted.children {children : List (Str × FsNode)}
    (h : (FsNode.directory children).Sorted) :
    SortedKeys compare children ∧ ∀ c ∈ children, c.2.Sorted := by
  cases h with
  | directory hkeys hall => exact ⟨hkeys, hall⟩

lemma Tree.Unique.entries {entries : List (FileName × Tree)} (h : (Tree.dir entries).Unique) :
    (entries.map Prod.fst).Nodup ∧ ∀ e ∈ entries, e.2.Unique := by
  cases h with
  | dir hnames hall => exact ⟨hnames, hall⟩

/-- What is said of collecting one tree, for any node. -/
def CollectOk (tree : Tree) : Prop :=
  ∀ (node : FsNode) (paths : ModulePaths), node.Sorted → IsDirPath paths.moduleMnt.path →
    (collect node paths tree).1.Sorted ∧
      (collect node paths tree).1.view =
        layOver Kind.IsDir node.view (tree.view paths.moduleMnt.path)

/-- One entry of a directory that is read. -/
lemma collectEntry_ok (name : FileName)
    (hs : (FsNode.directory children).Sorted) (hp : IsDirPath paths.moduleMnt.path)
    (ht : CollectOk tree) :
    (FsNode.directory (collectEntry children paths name tree)).Sorted ∧
      ((collectEntry children paths name tree).lookup name.bytes).map FsNode.view =
        Option.merge (layOver Kind.IsDir) ((children.lookup name.bytes).map FsNode.view)
          (some (tree.view (paths.moduleMnt.path ++ slash :: name.bytes))) := by
  obtain ⟨hkeys, hall⟩ := hs.children
  have hpath : (paths.append name.bytes).moduleMnt.path =
      paths.moduleMnt.path ++ slash :: name.bytes := appendPath_dirPath hp name.head?_ne
  have hlookup : ∀ n, (collectEntry children paths name tree).lookup n = _ :=
    lookup_collectEntry hkeys
  set new := newNode (paths.append name.bytes).moduleMnt.path tree with hnew
  have hnode : ((children.lookup name.bytes).getD new).Sorted := by
    cases hold : children.lookup name.bytes with
    | none => exact sorted_newNode _ tree
    | some c => exact hall _ (mem_of_lookup hold)
  obtain ⟨hsorted, hview⟩ := ht _ (paths.append name.bytes) hnode
    (by rw [hpath]; exact isDirPath_append _ name)
  constructor
  · have hkeys' := sortedKeys_collectEntry hkeys paths name tree
    refine .directory hkeys' ?_
    rintro ⟨k, c⟩ hc
    have hfound := lookup_of_mem hkeys'.nodup hc
    rw [hlookup] at hfound
    split_ifs at hfound
    · exact some.inj hfound ▸ hsorted
    · exact hall _ (mem_of_lookup hfound)
  · rw [hlookup, if_pos rfl, map_some, hview, ← hpath]
    cases children.lookup name.bytes with
    | none => rw [getD_none, hnew, layOver_newNode]; rfl
    | some c => rfl

lemma lookup_visible_eq_none
    (h : name ∉ entries.map Prod.fst) : (visible entries).lookup name.bytes = none := by
  refine eq_none_iff_forall_ne_some.mpr fun t ht => h ?_
  obtain ⟨⟨name', t'⟩, he, heq⟩ := mem_map.mp (mem_of_lookup ht)
  obtain rfl : name' = name := FileName.ext (Prod.mk.inj heq).1
  exact mem_map_of_mem (mem_of_mem_filter he)

/-- What is said of collecting the entries of a directory. -/
lemma collectEntries_ok
    (hs : (FsNode.directory children).Sorted) (hp : IsDirPath paths.moduleMnt.path)
    (hnames : (entries.map Prod.fst).Nodup) (ht : ∀ e ∈ entries, CollectOk e.2) :
    (FsNode.directory (collectEntries children paths entries).1).Sorted ∧
      ∀ n, ((collectEntries children paths entries).1.lookup n).map FsNode.view =
        Option.merge (layOver Kind.IsDir) ((children.lookup n).map FsNode.view)
          (((visible entries).lookup n).map (Tree.view (paths.moduleMnt.path ++ slash :: n))) := by
  induction entries generalizing children with
  | nil =>
    exact ⟨hs, fun n => (merge_none_right).symm⟩
  | cons e entries ih =>
    obtain ⟨name, tree⟩ := e
    rw [map_cons, nodup_cons] at hnames
    have hrest := fun e he => ht e (.tail _ he)
    cases hread : readable name.bytes with
    | false =>
      have hvisible : visible ((name, tree) :: entries) = visible entries := by
        rw [visible, filter_cons_of_neg (by rw [hread]; exact Bool.false_ne_true), visible]
      rw [collectEntries_skip hread, hvisible]
      exact ih hs hnames.2 hrest
    | true =>
      have hvisible : visible ((name, tree) :: entries) =
          (name.bytes, tree) :: visible entries := by
        rw [visible, filter_cons_of_pos (by exact hread), map_cons, visible]
      rw [collectEntries_read hread, hvisible]
      obtain ⟨hs', hhead⟩ := collectEntry_ok name hs hp (ht _ (.head _))
      obtain ⟨hsorted, hlookup⟩ := ih hs' hnames.2 hrest
      refine ⟨hsorted, fun n => ?_⟩
      rw [hlookup]
      by_cases hn : n = name.bytes
      · rw [hn, hhead, lookup_visible_eq_none hnames.1, lookup_cons_self, map_none,
          merge_none_right]
        rfl
      · rw [lookup_collectEntry hs.children.1, if_neg hn, lookup_cons_of_ne hn]

/-- **A tree is collected by laying the node over it.** -/
lemma view_collect (h : tree.Unique) : CollectOk tree := by
  induction tree using Tree.ind with
  | hdir entries ih =>
    intro node paths hs hp
    obtain ⟨hnames, hall⟩ := h.entries
    cases node with
    | directory children =>
      obtain ⟨hsorted, hlookup⟩ :=
        collectEntries_ok hs hp hnames fun e he => ih e he (hall e he)
      have hdir : Kind.IsDir .dir := rfl
      rw [collect]
      refine ⟨hsorted, ?_⟩
      rw [view_directory, view_directory, view_dir, layOver_branch hdir]
      simp [hlookup]
    | _ => exact ⟨hs, (layOver_kind (by rintro ⟨⟩) _).symm⟩
  | hsymlink target =>
    exact fun node paths hs _ => ⟨hs, (layOver_leaf node (by rintro _ ⟨⟩) _).symm⟩
  | hchar rdev => exact fun node paths hs _ => ⟨hs, (layOver_leaf node (by rintro _ ⟨⟩) _).symm⟩
  | hother => exact fun node paths hs _ => ⟨hs, (layOver_leaf node (by rintro _ ⟨⟩) _).symm⟩

end Collect

/-! ### The modules -/

section Modules

variable {m : Module}

/-- Where the files of all modules are mounted from. -/
def moduleMnt (magiskTmp : Str) : Str := (ModulePaths.new magiskTmp).moduleMnt.path

/-- Where the `system` directory of a module is mounted from. -/
def Module.source (magiskTmp : Str) (m : Module) : Str :=
  moduleMnt magiskTmp ++ slash :: m.name.bytes ++ slash :: str "system"

/-- What a module has at each path of its `system` directory. -/
def Module.view (magiskTmp : Str) (m : Module) : View Str Kind :=
  match m.system with
  | none => fun _ => none
  | some entries => (Tree.dir entries).view (m.source magiskTmp)

/-- Trees on disk are closed. -/
lemma closed_view (tree : Tree) (src : Str) : Closed Kind.IsDir (tree.view src) := by
  have hdir : Kind.IsDir .dir := rfl
  induction tree using Tree.ind generalizing src with
  | hdir entries ih =>
    rw [view_dir]
    refine closed_branch hdir fun n t ht => ?_
    obtain ⟨tree, hfound, rfl⟩ := map_eq_some_iff.mp ht
    obtain ⟨e, he, heq⟩ := mem_map.mp (mem_of_lookup hfound)
    obtain ⟨-, rfl⟩ := Prod.mk.inj heq
    exact ih e (mem_of_mem_filter he) _
  | hsymlink target => exact closed_leaf fun _ _ => rfl
  | hchar rdev => exact closed_leaf fun _ _ => rfl
  | hother => exact closed_leaf fun _ _ => rfl

lemma Module.closed_view (magiskTmp : Str) (m : Module) :
    Closed Kind.IsDir (m.view magiskTmp) := by
  rw [Module.view]
  split
  · exact closed_leaf fun _ _ => rfl
  · exact Modules.closed_view _ _

lemma isDirPath_moduleMnt (magiskTmp : Str) : IsDirPath (moduleMnt magiskTmp) := by
  have hname : (str ".magisk/modules").head? ≠ some slash := by decide
  have hne : str ".magisk/modules" ≠ [] := by decide
  have hlast : (str ".magisk/modules").getLast? ≠ some slash := by decide
  have heq : moduleMnt magiskTmp =
      appendPath (appendPath [] magiskTmp) (str ".magisk/modules") := rfl
  rw [heq, appendPath_eq hname, ← append_assoc]
  refine ⟨fun h => hne (append_eq_nil_iff.mp h).2, ?_⟩
  rwa [getLast?_append_of_ne_nil _ hne]

/-- The paths of the `system` directory. -/
def systemPaths (paths : ModulePaths) (m : Module) : ModulePaths :=
  (paths.setModule m.name.bytes).append (str "system")

lemma path_systemPaths (magiskTmp : Str) (m : Module) :
    (systemPaths (.new magiskTmp) m).moduleMnt.path = m.source magiskTmp := by
  have hname : (str "system").head? ≠ some slash := by decide
  have hmodule : appendPath (moduleMnt magiskTmp) m.name.bytes =
      moduleMnt magiskTmp ++ slash :: m.name.bytes :=
    appendPath_dirPath (isDirPath_moduleMnt magiskTmp) m.name.head?_ne
  have heq : (systemPaths (.new magiskTmp) m).moduleMnt.path =
      appendPath (appendPath (moduleMnt magiskTmp) m.name.bytes) (str "system") := rfl
  rw [heq, hmodule, appendPath_dirPath (isDirPath_append _ _) hname, Module.source]

lemma release_setModule (paths : ModulePaths) (m : Module) :
    paths.release (paths.setModule m.name.bytes) = paths := by
  have hreal : paths.real.release paths.real.reborrow = paths.real := by
    rw [PathTracker.release, PathTracker.reborrow, PathTracker.ofBuf, take_length]
  rw [ModulePaths.release, ModulePaths.setModule]
  rw [hreal, release_append _ m.name.head?_ne, release_append _ m.name.head?_ne]

/-- What one module does to the tree, and that it leaves the paths. -/
lemma applyModule_eq (system : FsNode) (props : List Str) (paths : ModulePaths) (m : Module) :
    (applyModule (system, props, paths) m).1 = (if m.skipMount then system else
      match m.system with
      | none => system
      | some entries => (collect system (systemPaths paths m) (.dir entries)).1) ∧
    (applyModule (system, props, paths) m).2.2 = paths := by
  have hprop : (str "system.prop").head? ≠ some slash := by decide
  have hskip : (str "skip_mount").head? ≠ some slash := by decide
  have hsystem : (str "system").head? ≠ some slash := by decide
  rw [applyModule]
  dsimp only
  rw [ModulePaths.release_append _ hprop, ModulePaths.release_append _ hskip]
  cases m.skipMount with
  | true => exact ⟨rfl, release_setModule paths m⟩
  | false =>
    cases m.system with
    | none =>
      rw [ModulePaths.release_append _ hsystem]
      exact ⟨rfl, release_setModule paths m⟩
    | some entries =>
      dsimp only
      rw [collect_paths, ModulePaths.release_append _ hsystem]
      exact ⟨rfl, release_setModule paths m⟩

/-- One module is laid under the tree. -/
lemma view_applyModule (magiskTmp : Str) (hs : system.Sorted) (props : List Str) (m : Module) :
    (applyModule (system, props, .new magiskTmp) m).1.Sorted ∧
      (applyModule (system, props, .new magiskTmp) m).1.view =
        if m.skipMount then system.view
        else layOver Kind.IsDir system.view (m.view magiskTmp) := by
  rw [(applyModule_eq system props _ m).1, Module.view]
  split_ifs
  · exact ⟨hs, rfl⟩
  · cases hm : m.system with
    | none => exact ⟨hs, (layOver_eq_left fun _ _ => rfl).symm⟩
    | some entries =>
      have hpath := path_systemPaths magiskTmp m
      have hdir : IsDirPath (systemPaths (.new magiskTmp) m).moduleMnt.path := by
        rw [hpath]
        exact isDirPath_append _ ⟨str "system", by decide, by decide⟩
      have hok := view_collect (m.unique entries hm) system _ hs hdir
      rw [hpath] at hok
      exact hok

/-- All modules are laid under it, one after another. -/
lemma view_foldl (magiskTmp : Str) (modules : List Module) (hs : system.Sorted) (props : List Str) :
    (modules.foldl applyModule (system, props, .new magiskTmp)).1.Sorted ∧
      (modules.foldl applyModule (system, props, .new magiskTmp)).1.view =
        ((modules.filter fun m => !m.skipMount).map (Module.view magiskTmp)).foldl
          (layOver Kind.IsDir) system.view := by
  induction modules generalizing system props with
  | nil => exact ⟨hs, rfl⟩
  | cons m modules ih =>
    obtain ⟨hs', hview⟩ := view_applyModule magiskTmp hs props m
    have hpaths := (applyModule_eq system props (.new magiskTmp) m).2
    rw [foldl_cons]
    generalize applyModule (system, props, .new magiskTmp) m = s at hs' hview hpaths ⊢
    obtain ⟨system', props', paths'⟩ := s
    obtain rfl := hpaths
    obtain ⟨hsorted, hfold⟩ := ih hs' props'
    refine ⟨hsorted, hfold.trans ?_⟩
    rw [hview, filter_cons]
    cases m.skipMount <;> rfl

lemma sorted_newDir : FsNode.newDir.Sorted := .directory List.Pairwise.nil nofun

/-- The tree that is collected. -/
lemma view_applyModules (magiskTmp : Str) (modules : List Module) :
    (applyModules magiskTmp modules).1.Sorted ∧
      (applyModules magiskTmp modules).1.view = overlay Kind.IsDir (FsNode.newDir.view ::
        (modules.filter fun m => !m.skipMount).map (Module.view magiskTmp)) := by
  have hroot : Closed Kind.IsDir FsNode.newDir.view := by
    refine closed_leaf fun n p => ?_
    rfl
  obtain ⟨hsorted, hview⟩ := view_foldl magiskTmp modules sorted_newDir []
  refine ⟨hsorted, hview.trans ?_⟩
  rw [← singleton_append, overlay_append, overlay_singleton hroot]
  · intro v hv
    exact mem_singleton.mp hv ▸ hroot
  · intro v hv
    obtain ⟨m, -, rfl⟩ := mem_map.mp hv
    exact m.closed_view magiskTmp

end Modules

/-! ### Directories in another order -/

/-- The same tree, its directories listed in another order. -/
inductive Tree.Shuffle : Tree → Tree → Prop where
  | dir {entries entries' : List (FileName × Tree)} :
      (entries.map Prod.fst).Perm (entries'.map Prod.fst) →
      (∀ name t t', (name, t) ∈ entries → (name, t') ∈ entries' → Shuffle t t') →
      Shuffle (.dir entries) (.dir entries')
  | symlink (target : LinkTarget) : Shuffle (.symlink target) (.symlink target)
  | charDevice (rdev : Nat) : Shuffle (.charDevice rdev) (.charDevice rdev)
  | other : Shuffle .other .other

/-- The same module, its directories listed in another order. -/
structure Module.Shuffle (m m' : Module) : Prop where
  name : m.name = m'.name
  skipMount : m.skipMount = m'.skipMount
  system : (m.system = none ∧ m'.system = none) ∨
    ∃ l l', m.system = some l ∧ m'.system = some l' ∧ Tree.Shuffle (.dir l) (.dir l')

section Shuffle

variable {entries entries' : List (FileName × Tree)} {name : FileName} {t t' : Tree} {n : Str}

lemma nodup_visible (h : (entries.map Prod.fst).Nodup) :
    ((visible entries).map Prod.fst).Nodup := by
  have heq : (visible entries).map Prod.fst =
      ((entries.filter fun e => readable e.1.bytes).map Prod.fst).map FileName.bytes := by
    rw [visible, List.map_map, List.map_map]
    rfl
  have hsub := (filter_sublist (p := fun e : FileName × Tree => readable e.1.bytes)
    (l := entries)).map Prod.fst
  rw [heq]
  exact (h.sublist hsub).map fun _ _ => FileName.ext

lemma lookup_visible (h : (entries.map Prod.fst).Nodup) :
    (visible entries).lookup n = some t ↔
      readable n = true ∧ ∃ name : FileName, name.bytes = n ∧ (name, t) ∈ entries := by
  constructor
  · intro hfound
    obtain ⟨⟨name, t'⟩, he, heq⟩ := mem_map.mp (mem_of_lookup hfound)
    obtain ⟨rfl, rfl⟩ := Prod.mk.inj heq
    obtain ⟨hmem, hread⟩ := mem_filter.mp he
    exact ⟨hread, name, rfl, hmem⟩
  · rintro ⟨hread, name, rfl, hmem⟩
    refine lookup_of_mem (nodup_visible h) ?_
    exact mem_map.mpr ⟨(name, t), mem_filter.mpr ⟨hmem, hread⟩, rfl⟩

/-- The order does not matter for what is there. -/
lemma Tree.Shuffle.view_eq (hs : t.Shuffle t') (h : t.Unique) (h' : t'.Unique) (src : Str) :
    t.view src = t'.view src := by
  induction hs generalizing src with
  | @dir entries entries' hperm hall ih =>
    obtain ⟨hnames, hunique⟩ := h.entries
    obtain ⟨hnames', hunique'⟩ := h'.entries
    have hview : ∀ name t t', (name, t) ∈ entries → (name, t') ∈ entries' → ∀ src,
        t.view src = t'.view src := fun name t t' ht ht' =>
      ih name t t' ht ht' (hunique _ ht) (hunique' _ ht')
    rw [view_dir, view_dir]
    congr 1
    funext n
    cases hfound : (visible entries).lookup n with
    | some t =>
      obtain ⟨hread, name, hn, hmem⟩ := (lookup_visible hnames).mp hfound
      obtain ⟨⟨name', t'⟩, hmem', rfl⟩ :=
        mem_map.mp (hperm.mem_iff.mp (mem_map_of_mem hmem))
      have hfound' := (lookup_visible hnames').mpr ⟨hread, name', hn, hmem'⟩
      rw [hfound', map_some, map_some, hview name' t t' hmem hmem']
    | none =>
      cases hfound' : (visible entries').lookup n with
      | none => rfl
      | some t' =>
        obtain ⟨hread, name, hn, hmem'⟩ := (lookup_visible hnames').mp hfound'
        obtain ⟨⟨name', t⟩, hmem, rfl⟩ :=
          mem_map.mp (hperm.mem_iff.mpr (mem_map_of_mem hmem'))
        rw [(lookup_visible hnames).mpr ⟨hread, name', hn, hmem⟩] at hfound
        cases hfound
  | symlink target => rfl
  | charDevice rdev => rfl
  | other => rfl

lemma Module.Shuffle.view_eq {m m' : Module} (h : m.Shuffle m') (magiskTmp : Str) :
    m.view magiskTmp = m'.view magiskTmp := by
  have hsource : m.source magiskTmp = m'.source magiskTmp := by
    rw [Module.source, Module.source, h.name]
  rw [Module.view, Module.view, hsource]
  rcases h.system with ⟨hnone, hnone'⟩ | ⟨l, l', hl, hl', hshuffle⟩
  · rw [hnone, hnone']
  · rw [hl, hl']
    exact hshuffle.view_eq (m.unique l hl) (m'.unique l' hl') _

end Shuffle

/-- The induction principle of the collected trees: a node is a directory or a leaf. -/
@[elab_as_elim]
theorem FsNode.ind {P : FsNode → Prop}
    (hdir : ∀ children, (∀ c ∈ children, P c.2) → P (.directory children))
    (hleaf : ∀ node, ¬ node.kind.IsDir → P node) (node : FsNode) : P node :=
  @FsNode.rec P (fun children => ∀ c ∈ children, P c.2) (fun c => P c.2)
    (fun children ih => hdir children ih) (fun _ => hleaf _ nofun) (fun _ => hleaf _ nofun)
    (hleaf _ nofun) (hleaf _ nofun) (fun _ hc => absurd hc not_mem_nil)
    (fun _ _ ihc ih c' hc' => (mem_cons.mp hc').elim (fun heq => heq ▸ ihc) (ih c'))
    (fun _ _ ih => ih) node

lemma FsNode.eq_of_kind_eq {node node' : FsNode} (hleaf : ¬ node.kind.IsDir)
    (h : node.kind = node'.kind) : node = node' := by
  cases node with
  | directory children => exact absurd rfl hleaf
  | _ =>
    cases node' <;> cases h
    rfl

/-- Directories with the same at each path have the same under each name. -/
lemma map_view_lookup
    (h : (FsNode.directory children).view = (FsNode.directory children').view) (n : Str) :
    (children.lookup n).map FsNode.view = (children'.lookup n).map FsNode.view := by
  have hpath : ∀ p, (children.lookup n).bind (fun c => c.view p) =
      (children'.lookup n).bind fun c => c.view p := fun p => congrFun h (n :: p)
  revert hpath
  cases children.lookup n with
  | none =>
    cases children'.lookup n with
    | none => exact fun _ => rfl
    | some c' => intro hpath; cases hpath []
  | some c =>
    cases children'.lookup n with
    | none => intro hpath; cases hpath []
    | some c' => exact fun hpath => congrArg some (funext hpath)

/-- Sorted nodes with the same at each path are equal. -/
lemma FsNode.Sorted.ext_view {node node' : FsNode} (h : node.Sorted) (h' : node'.Sorted)
    (heq : node.view = node'.view) : node = node' := by
  induction node using FsNode.ind generalizing node' with
  | hdir children ih =>
    have hkind := some.inj (congrFun heq [])
    obtain ⟨children', rfl⟩ : ∃ children', node' = .directory children' := by
      cases node' with
      | directory children' => exact ⟨children', rfl⟩
      | _ => cases hkind
    obtain ⟨hkeys, hall⟩ := h.children
    obtain ⟨hkeys', hall'⟩ := h'.children
    rw [hkeys.ext hkeys' fun n => ?_]
    have hn := map_view_lookup heq n
    cases hc : children.lookup n with
    | none =>
      rw [hc] at hn
      exact (map_eq_none_iff.mp hn.symm).symm
    | some c =>
      rw [hc] at hn
      obtain ⟨c', hc', hview⟩ := map_eq_some_iff.mp hn.symm
      have hmem := mem_of_lookup hc
      rw [hc']
      exact congrArg some
        (ih _ hmem (hall _ hmem) (hall' _ (mem_of_lookup hc')) hview.symm)
  | hleaf node hleaf => exact eq_of_kind_eq hleaf (some.inj (congrFun heq []))

/-- A file of a module is mounted from that module. -/
lemma Module.src_eq {m : Module}
    (h : m.view magiskTmp p = some (.file src)) : src = below (m.source magiskTmp) p := by
  unfold Module.view at h
  cases hsystem : m.system with
  | none => rw [hsystem] at h; cases h
  | some entries =>
    rw [hsystem] at h
    obtain ⟨t, -, hkind⟩ := map_eq_some_iff.mp h
    cases t with
    | charDevice rdev =>
      rw [newNode] at hkind
      split_ifs at hkind
      · cases hkind
      · exact (Kind.file.inj hkind).symm
    | other => exact (Kind.file.inj hkind).symm
    | _ => cases hkind

/-- What an overlay has comes from one of its layers. -/
lemma exists_module (h : (applyModules magiskTmp modules).1.view p = some (.file src)) :
    ∃ m ∈ modules, m.skipMount = false ∧ m.view magiskTmp p = some (.file src) := by
  rw [(view_applyModules magiskTmp modules).2, overlay] at h
  split_ifs at h
  obtain ⟨v, hv, hvp⟩ := exists_of_findSome?_eq_some h
  rcases mem_cons.mp hv with rfl | hv
  · cases p with
    | nil => cases hvp
    | cons n p => cases hvp
  · obtain ⟨m, hm, rfl⟩ := mem_map.mp hv
    obtain ⟨hmem, hskip⟩ := mem_filter.mp hm
    exact ⟨m, hmem, by rwa [Bool.not_eq_true'] at hskip, hvp⟩

/-- The layers of the modules do not depend on the order in which directories are read. -/
lemma layers_eq (h : List.Forall₂ Module.Shuffle modules modules') :
    (modules'.filter fun m => !m.skipMount).map (Module.view magiskTmp) =
      (modules.filter fun m => !m.skipMount).map (Module.view magiskTmp) := by
  induction h with
  | nil => rfl
  | @cons m m' modules modules' hm _ ih =>
    rw [filter_cons, filter_cons, hm.skipMount]
    cases m'.skipMount with
    | true => exact ih
    | false =>
      simp only [Bool.not_false, if_true, map_cons]
      rw [ih, hm.view_eq]

/-- **The modules are laid over each other.**  At each path that leads through directories, the
first module that has something there decides what it is; a file is mounted from the
module it belongs to; and the order in which directories are read does not matter. -/
theorem collected_overlay (magiskTmp : Str) (modules : List Module) :
    (applyModules magiskTmp modules).1.view = overlay Kind.IsDir (FsNode.newDir.view ::
        (modules.filter fun m => !m.skipMount).map (Module.view magiskTmp)) ∧
      (∀ p src, (applyModules magiskTmp modules).1.view p = some (.file src) →
        ∃ m ∈ modules, m.skipMount = false ∧ m.view magiskTmp p = some (.file src) ∧
          src = below (m.source magiskTmp) p) ∧
      ∀ modules', List.Forall₂ Module.Shuffle modules modules' →
        (applyModules magiskTmp modules').1 = (applyModules magiskTmp modules).1 := by
  obtain ⟨hsorted, hview⟩ := view_applyModules magiskTmp modules
  refine ⟨hview, fun p src hp => ?_, fun modules' hshuffle => ?_⟩
  · obtain ⟨m, hm, hskip, hfile⟩ := exists_module hp
    exact ⟨m, hm, hskip, hfile, m.src_eq hfile⟩
  · obtain ⟨hsorted', hview'⟩ := view_applyModules magiskTmp modules'
    refine hsorted'.ext_view hsorted ?_
    rw [hview', hview, layers_eq hshuffle]

/-- A module that has a file `bin` and, in a directory `etc`, a file `hosts`. -/
def hostsModule : Module where
  name := ⟨str "hosts", by decide, by decide⟩
  systemProp := false
  skipMount := false
  system := some [(⟨str "bin", by decide, by decide⟩, .other),
    (⟨str "etc", by decide, by decide⟩, .dir [(⟨str "hosts", by decide, by decide⟩, .other)])]
  unique := by
    rintro entries ⟨⟩
    have hetc : (Tree.dir [(⟨str "hosts", by decide, by decide⟩, .other)]).Unique :=
      .dir (by decide) (forall_mem_cons.mpr ⟨.other, nofun⟩)
    exact .dir (by decide)
      (forall_mem_cons.mpr ⟨.other, forall_mem_cons.mpr ⟨hetc, nofun⟩⟩)

/-- A module that has directories `etc` and `bin` with a file `sh` in each. -/
def shellModule : Module where
  name := ⟨str "shell", by decide, by decide⟩
  systemProp := false
  skipMount := false
  system := some [
    (⟨str "etc", by decide, by decide⟩, .dir [(⟨str "sh", by decide, by decide⟩, .other)]),
    (⟨str "bin", by decide, by decide⟩, .dir [(⟨str "sh", by decide, by decide⟩, .other)])]
  unique := by
    have hdir : (Tree.dir [(⟨str "sh", by decide, by decide⟩, .other)]).Unique :=
      .dir (by decide) (forall_mem_cons.mpr ⟨.other, nofun⟩)
    rintro entries ⟨⟩
    exact .dir (by decide)
      (forall_mem_cons.mpr ⟨hdir, forall_mem_cons.mpr ⟨hdir, nofun⟩⟩)

/-- The two directories `etc` are merged, and the file `bin` hides the directory. -/
theorem hosts_over_shell :
    (applyModules (str "/sbin") [hostsModule, shellModule]).1 = .directory [
      (str "bin", .file (str "/sbin/.magisk/modules/hosts/system/bin")),
      (str "etc", .directory [
        (str "hosts", .file (str "/sbin/.magisk/modules/hosts/system/etc/hosts")),
        (str "sh", .file (str "/sbin/.magisk/modules/shell/system/etc/sh"))])] ∧
    ∃ m ∈ [hostsModule, shellModule], m.skipMount = false ∧
      m.view (str "/sbin") [str "etc", str "sh"] =
        some (.file (str "/sbin/.magisk/modules/shell/system/etc/sh")) ∧
      str "/sbin/.magisk/modules/shell/system/etc/sh" =
        below (m.source (str "/sbin")) [str "etc", str "sh"] :=
  ⟨rfl, (collected_overlay (str "/sbin") [hostsModule, shellModule]).2.1 _ _ rfl⟩

/-- A module with one file, whose name is not UTF-8. -/
def latinModule : Module where
  name := ⟨str "m", by decide, by decide⟩
  systemProp := false
  skipMount := false
  system := some [(⟨[0xE9], by decide, by decide⟩, .other)]
  unique := by
    rintro entries ⟨⟩
    exact .dir (by decide) (forall_mem_cons.mpr ⟨.other, nofun⟩)

/-- It is the only module, but its file is not collected. -/
theorem latin_not_collected : (∃ name, latinModule.system = some [(name, .other)]) ∧
    latinModule.skipMount = false ∧
    (applyModules (str "/sbin") [latinModule]).1 = .directory [] :=
  ⟨⟨_, rfl⟩, rfl, rfl⟩

end Magisk.Core.Modules
