import Magisk.Core.Modules
import Magisk.Lib.Graft

/-!
# Mounting the files of the modules

The last step of `apply_modules`: the tree that was collected for a partition is compared with
what is there, and files are bound over others, or whole directories are rebuilt in the worker
directory and bound over the real ones.

* `Real`: what is in a partition;
* `Seen`, `Mounts`: what is seen at the paths of the partition and of the worker directory;
* `bindMount`, `mountDummy`, `mkdirs`, `createSymlinkTo`: the system calls;
* `mirror`: a real entry is shown in a directory that is rebuilt;
* `commitTmpfs`, `commit`: the source's functions.
-/

namespace Magisk.Core.Modules

open Magisk.Base Magisk.Lib

/-! ### What is there -/

/-- What is seen at a path.  All that is neither a directory nor a link is a file. -/
inductive Seen where
  | dir
  | link (target : Str)
  | file (data : Str)
  deriving DecidableEq

/-- Is it a directory? -/
def Seen.isDir : Seen → Bool
  | .dir => true
  | _ => false

/-- An entry of a partition.  A link to a directory comes with the entries of that directory. -/
inductive Real where
  | dir (entries : List (Str × Real))
  | dirLink (target : LinkTarget) (entries : List (Str × Real))
  | link (target : LinkTarget)
  | file (data : Str)

/-- What an entry is. -/
def Real.kind : Real → Seen
  | .dir _ => .dir
  | .dirLink target _ | .link target => .link target.bytes
  | .file data => .file data

/-- What is at a path below an entry.  Links are not followed. -/
def Real.view (r : Real) : View Str Seen
  | [] => some r.kind
  | n :: p =>
    match r with
    | .dir entries => (entries.lookup n).bind fun e => e.view p
    | _ => none

/-- `Directory::open`, which follows links. -/
def opendir : Option Real → Option (List (Str × Real))
  | some (.dir entries) | some (.dirLink _ entries) => some entries
  | _ => none

/-- What `lstat` finds under a name of a directory. -/
def child (real : Option Real) (name : Str) : Option Real :=
  (opendir real).bind fun entries => entries.lookup name

/-- What is seen at and below the paths outside of the partitions, such as those of the modules. -/
abbrev Disk := Str → View Str Seen

/-- What is seen at the paths of the partitions, and in the worker directory. -/
structure Mounts where
  real : View Str Seen
  worker : View Str Seen

/-! ### The system calls -/

/-- `bind_mount`.  It is not done if only one of both is a directory, which is not an error. -/
def bindMount (src : View Str Seen) (dest : List Str) (v : View Str Seen) : View Str Seen :=
  match src [], v dest with
  | some k, some k' => if k.isDir = k'.isDir then graft dest src v else v
  | _, _ => v

/-- What `mount_dummy` makes to mount something over it. -/
def dummy (isDir : Bool) : Seen := if isDir then .dir else .file []

/-- `mount_dummy`. -/
def mountDummy (src : View Str Seen) (dest : List Str) (isDir : Bool) (v : View Str Seen) :
    View Str Seen :=
  bindMount src dest (if (v dest).isNone then graft dest (leaf (dummy isDir)) v else v)

/-- `mkdirs`. -/
def mkdirs (path : List Str) (v : View Str Seen) : View Str Seen := makeDirs .dir path v

/-- `create_symlink_to`.  It is an error if the target is empty or if something is there. -/
def createSymlinkTo (path : List Str) (target : Str) (v : View Str Seen) : Option (View Str Seen) :=
  if target = [] ∨ (v path).isSome then none else some (graft path (leaf (.link target)) v)

/-- `parent_dir`: a path without its last piece.  There is none above the root. -/
def parentDir (path : Str) : Option Str :=
  let trim (s : Str) : Str := (s.reverse.dropWhile (· = slash)).reverse
  let path := trim path
  if path = [] then none
  else
    let parent := (path.reverse.dropWhile (· ≠ slash)).reverse
    some (if parent ≠ [] ∧ trim parent = [] then [slash] else trim parent)

/-! ### Rebuilding a directory -/

/-- The name of the marker of a directory that is replaced. -/
def replaceName : Str := str ".replace"

/-- The name of the directory that is handled before the others. -/
def framework : Str := str "framework"

/-- The target of a `MagiskLink`. -/
def magiskTarget (path : List Str) : Str :=
  if path.getLast? = some (str "supolicy") then str "./magiskpolicy" else str "./magisk"

mutual

/-- A real entry is shown in the worker directory: what `commit_tmpfs` does for the entries of a
directory that the tree does not have, see `commitTmpfs_newDir`. -/
def mirror (path : List Str) (v : View Str Seen) : Real → Option (View Str Seen)
  | .dir entries => mirrorEntries [] path (mkdirs path v) entries
  | .dirLink target _ | .link target => createSymlinkTo path (readLink target) v
  | .file data => some (mountDummy (leaf (.file data)) path false v)

/-- The loop over the real entries in `commit_tmpfs`.  Those that are in `names` are left out. -/
def mirrorEntries (names : List Str) (path : List Str) (v : View Str Seen) :
    List (Str × Real) → Option (View Str Seen)
  | [] => some v
  | (name, entry) :: entries =>
    if !readable name || names.contains name then mirrorEntries names path v entries
    else
      match mirror (path ++ [name]) v entry with
      | none => none
      | some v => mirrorEntries names path v entries

end

/-- The directory of the module that has the marker, if the marker is a file. -/
def replaceDir (children : List (Str × FsNode)) : Option Str :=
  match children.lookup replaceName with
  | some (.file src) => parentDir src
  | _ => none

/-- The names of the children without the marker. -/
def names (children : List (Str × FsNode)) : List Str :=
  (children.map Prod.fst).filter (· ≠ replaceName)

section Commit

variable (disk : Disk)

mutual

/-- `FsNode::commit_tmpfs`, where `real` is what `lstat` finds at the path.  A failure ends the
whole commit, and what it leaves in the worker directory is not seen. -/
def commitTmpfs (path : List Str) (real : Option Real) (v : View Str Seen) :
    FsNode → Option (View Str Seen)
  | .directory children =>
    let v := mkdirs path v
    match replaceDir children with
    | some dir => replaceChildren dir path real v children
    | none =>
      match mirrorEntries (names children) path v ((opendir real).getD []) with
      | none => none
      | some v =>
        match commitTmpfsChildren (· = framework) path real v children with
        | none => none
        | some v => commitTmpfsChildren (· ≠ framework) path real v children
  | .file src => some (mountDummy (disk src) path false v)
  | .symlink target => createSymlinkTo path target v
  | .magiskLink => createSymlinkTo path (magiskTarget path) v
  | .whiteout => some v

/-- The loop over the children in `commit_tmpfs`, for the names that are selected. -/
def commitTmpfsChildren (select : Str → Bool) (path : List Str) (real : Option Real)
    (v : View Str Seen) : List (Str × FsNode) → Option (View Str Seen)
  | [] => some v
  | (name, node) :: children =>
    if name = replaceName ∨ select name = false then
      commitTmpfsChildren select path real v children
    else
      match commitTmpfs (path ++ [name]) (child real name) v node with
      | none => none
      | some v => commitTmpfsChildren select path real v children

/-- The loop over the children of a directory that is replaced. -/
def replaceChildren (dir : Str) (path : List Str) (real : Option Real) (v : View Str Seen) :
    List (Str × FsNode) → Option (View Str Seen)
  | [] => some v
  | (name, node) :: children =>
    if name = replaceName then replaceChildren dir path real v children
    else
      let done :=
        if node.kind = .dir then
          some (mountDummy (disk (appendPath dir name)) (path ++ [name]) true v)
        else commitTmpfs (path ++ [name]) (child real name) v node
      match done with
      | none => none
      | some v => replaceChildren dir path real v children

end

/-! ### Mounting in place -/

/-- `FsNode::parent_should_be_tmpfs`, where `target` is what `lstat` finds. -/
def parentShouldBeTmpfs (node : FsNode) (target : Option Real) : Bool :=
  match node with
  | .directory _ | .file _ =>
    match target with
    | some (.dirLink _ _) | some (.link _) | none => true
    | some _ => false
  | _ => true

/-- Is the child kept when the tmpfs check goes through the children? -/
def retained (isRootDir : Bool) (real : Option Real) (name : Str) (node : FsNode) : Bool :=
  !isRootDir || (name ≠ replaceName && !parentShouldBeTmpfs node (child real name))

/-- Does the check find that the directory has to be rebuilt? -/
def isTmpfs (isRootDir : Bool) (real : Option Real) (children : List (Str × FsNode)) : Bool :=
  !isRootDir && children.any fun e =>
    e.1 = replaceName || parentShouldBeTmpfs e.2 (child real e.1)

mutual

/-- `FsNode::commit`, with whether it succeeds. -/
def commit (path : List Str) (isRootDir : Bool) (real : Option Real) (s : Mounts) :
    FsNode → Mounts × Bool
  | .directory children =>
    if isTmpfs isRootDir real children then
      match commitTmpfs disk path real s.worker (.directory children) with
      | none => (s, false)
      | some worker => (⟨bindMount (subtree worker path) path s.real, worker⟩, true)
    else
      match commitChildren (· = framework) path isRootDir real s children with
      | (s, false) => (s, false)
      | (s, true) => commitChildren (· ≠ framework) path isRootDir real s children
  | .file src => (⟨bindMount (disk src) path s.real, s.worker⟩, true)
  | _ => (s, true)

/-- The loop over the children in `commit`, for the names that are selected. -/
def commitChildren (select : Str → Bool) (path : List Str) (isRootDir : Bool) (real : Option Real)
    (s : Mounts) : List (Str × FsNode) → Mounts × Bool
  | [] => (s, true)
  | (name, node) :: children =>
    if retained isRootDir real name node = false ∨ select name = false then
      commitChildren select path isRootDir real s children
    else
      match commit (path ++ [name]) false (child real name) s node with
      | (s, false) => (s, false)
      | (s, true) => commitChildren select path isRootDir real s children

end

end Commit

end Magisk.Core.Modules
