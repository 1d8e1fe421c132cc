import Magisk.Core.Commit

/-!
# What a commit shows

The trees that the functions of the commit put at a path, said name by name and without the
worker directory.

* `mirrored`: a real entry as it is shown in a directory that is rebuilt;
* `rebuilt`: a directory that is rebuilt, `commitTmpfs_eq`;
* `committed`: what is seen after a commit, `commit_eq`.
-/

namespace Magisk.Core.Modules

open Magisk.Base Magisk.Lib List Option

variable {real : Option Real}

/-! ### Conditions on the trees -/

/-- The entries of a directory, or of one that a link leads to. -/
def Real.entries : Real → List (Str × Real)
  | .dir entries | .dirLink _ entries => entries
  | _ => []

/-- All entries at and below one have a property. -/
inductive Real.All (P : Real → Prop) : Real → Prop where
  | intro {r : Real} : P r → (∀ e ∈ r.entries, All P e.2) → All P r

/-- The link can be read: `readlink` gives text. -/
def Real.TextLink : Real → Prop
  | .dirLink target _ | .link target => target.bytes ≠ [] ∧ validUtf8 target.bytes = true
  | _ => True

/-- The names in a directory are distinct. -/
def Real.Distinct (r : Real) : Prop := (r.entries.map Prod.fst).Nodup

/-- What the functions of the commit need of the real entries. -/
abbrev Real.Regular : Real → Prop := Real.All fun r => r.Distinct ∧ r.TextLink

lemma readLink_eq (h : validUtf8 target.bytes = true) : readLink target = target.bytes := by
  have hshort : target.bytes.take 4095 = target.bytes :=
    take_of_length_le (by have := target.short; omega)
  rw [readLink, hshort, if_pos h]

lemma child_eq_some (h : child real name = some e) :
    ∃ r, real = some r ∧ (name, e) ∈ r.entries := by
  obtain ⟨entries, hopen, hlookup⟩ := bind_eq_some_iff.mp h
  have hmem := mem_of_lookup hlookup
  rcases real with _ | _ | _ | _ | _ <;> cases hopen
  · exact ⟨_, rfl, hmem⟩
  · exact ⟨_, rfl, hmem⟩

lemma regular_child (h : ∀ r ∈ real, r.Regular) (name : Str) :
    ∀ r ∈ child real name, r.Regular := by
  intro e he
  obtain ⟨r, hr, hmem⟩ := child_eq_some he
  obtain ⟨-, hall⟩ := h r hr
  exact hall _ hmem

lemma regular_opendir (h : ∀ r ∈ real, r.Regular) :
    (((opendir real).getD []).map Prod.fst).Nodup ∧
      ∀ e ∈ (opendir real).getD [], e.2.Regular := by
  rcases real with _ | r
  · exact ⟨nodup_nil, nofun⟩
  · obtain ⟨⟨hnodup, -⟩, hall⟩ := h r rfl
    cases r with
    | dir entries | dirLink target entries => exact ⟨hnodup, hall⟩
    | link target | file data => exact ⟨nodup_nil, nofun⟩

/-! ### Mirrors -/

/-- A real entry as it is shown in a directory that is rebuilt. -/
def mirrored (r : Real) : View Str Seen
  | [] => some r.kind
  | n :: p =>
    match r with
    | .dir entries =>
      if readable n then (entries.lookup n).bind fun e => mirrored e p else none
    | _ => none

lemma mirrored_dir (entries : List (Str × Real)) :
    mirrored (.dir entries) = branch .dir
      (built (fun n _ => !readable n) (fun _ e => mirrored e) entries fun _ => none) := by
  funext p
  cases p with
  | nil => rfl
  | cons n p =>
    rw [mirrored, branch, built]
    cases entries.lookup n <;> cases readable n <;> rfl

lemma mirrored_leaf (h : ∀ entries, r ≠ .dir entries) : mirrored r = leaf r.kind := by
  funext p
  cases p with
  | nil => rfl
  | cons n p =>
    cases r with
    | dir entries => exact absurd rfl (h entries)
    | dirLink | link | file => rfl

variable {entries : List (Str × Real)} {f : Str → Option (View Str Seen)} {select : Str → Bool}
  {node : FsNode} {s : Mounts}

section Worker

variable {path : List Str} {v : View Str Seen}

lemma createSymlinkTo_eq {target : Str} (h : target ≠ []) (hfree : ∀ q, v (path ++ q) = none) :
    createSymlinkTo path target v = some (graft path (leaf (.link target)) v) := by
  have hnone := hfree []
  rw [append_nil] at hnone
  rw [createSymlinkTo, if_neg]
  rintro (hnil | hsome)
  · exact h hnil
  · rw [hnone] at hsome
    cases hsome

/-- What is mounted over a dummy is seen, if it is of its kind. -/
def filled (src : View Str Seen) (isDir : Bool) : View Str Seen :=
  match src [] with
  | some k => if k.isDir = isDir then src else leaf (dummy isDir)
  | none => leaf (dummy isDir)

lemma isDir_dummy (isDir : Bool) : (dummy isDir).isDir = isDir := by cases isDir <;> rfl

lemma graft_graft (t t' : View Str Seen) : graft path t (graft path t' v) = graft path t v := by
  refine ext_at path (fun q => ?_) fun q hq => ?_
  · rw [graft_append, graft_append]
  · rw [graft_of_not_below hq, graft_of_not_below hq, graft_of_not_below hq]

lemma mountDummy_eq (src : View Str Seen) (isDir : Bool) (hfree : ∀ q, v (path ++ q) = none) :
    mountDummy src path isDir v = graft path (filled src isDir) v := by
  have hnone := hfree []
  rw [append_nil] at hnone
  rw [mountDummy, hnone, isNone_none, if_pos rfl, bindMount, graft_self, filled]
  cases src [] with
  | none => rfl
  | some k =>
    simp only [leaf, isDir_dummy]
    split_ifs
    · exact graft_graft _ _
    · rfl

lemma mirrorEntries_eq_buildAll (names : List Str) (entries : List (Str × Real)) :
    mirrorEntries names path v entries = buildAll (fun n _ => !readable n || names.contains n)
      (fun n e v => mirror (path ++ [n]) v e) entries v := by
  induction entries generalizing v with
  | nil => rfl
  | cons e entries ih =>
    rw [mirrorEntries, buildAll]
    split
    · exact ih
    · cases mirror (path ++ [e.1]) v e.2 with
      | none => rfl
      | some v' => exact ih

lemma mirrorEntries_eq {names : List Str} (hnodup : (entries.map Prod.fst).Nodup)
    (h : ∀ e ∈ entries, ∀ path v, (∀ q, v (path ++ q) = none) →
      (∀ q, q <+: path → q ≠ path → v q ≠ none) →
        mirror path v e.2 = some (graft path (mirrored e.2) v))
    (hf : ∀ n, f n = none) :
    mirrorEntries names path (graft path (branch .dir f) (mkdirs path v)) entries =
      some (graft path (branch .dir (built (fun n _ => !readable n || names.contains n)
        (fun _ e => mirrored e) entries f)) (mkdirs path v)) := by
  rw [mirrorEntries_eq_buildAll]
  refine buildAll_eq hnodup (fun e he _ f hf => ?_) fun e _ _ => hf e.1
  exact h e he _ _ (graft_branch_eq_none hf _) fun q hq hne => graft_branch_ne_none hq hne

/-- **A real entry is shown** in a place where nothing is. -/
lemma mirror_eq (h : r.Regular) (hfree : ∀ q, v (path ++ q) = none)
    (hway : ∀ q, q <+: path → q ≠ path → v q ≠ none) :
    mirror path v r = some (graft path (mirrored r) v) := by
  induction h generalizing path v with
  | @intro r hr _ ih =>
    obtain ⟨hnodup, htext⟩ := hr
    cases r with
    | dir entries =>
      have hmade : makeDirs Seen.dir path v = _ := makeDirs_eq_graft hfree
      rw [mirror, mkdirs, hmade]
      refine (mirrorEntries_eq hnodup (fun e he path v => ih e he) fun _ => rfl).trans ?_
      rw [mkdirs, graft_makeDirs hway, mirrored_dir]
      simp only [contains_nil, Bool.or_false]
      rfl
    | dirLink target _ | link target =>
      rw [mirror, readLink_eq htext.2, createSymlinkTo_eq htext.1 hfree,
        mirrored_leaf (by nofun)]
      rfl
    | file data =>
      rw [mirror, mountDummy_eq _ _ hfree, mirrored_leaf (by nofun)]
      rfl

end Worker

/-! ### Directories that are rebuilt -/

/-- All nodes at and below one have a property. -/
inductive FsNode.All (P : FsNode → Prop) : FsNode → Prop where
  | directory {children : List (Str × FsNode)} : P (.directory children) →
      (∀ c ∈ children, All P c.2) → All P (.directory children)
  | leaf {node : FsNode} : ¬node.kind.IsDir → P node → All P node

/-- The link can be made. -/
def FsNode.Linkable (node : FsNode) : Prop := node ≠ .symlink []

/-- The child of a directory under a name.  The marker is taken out before. -/
def lookupChild (children : List (Str × FsNode)) (n : Str) : Option FsNode :=
  if n = replaceName then none else children.lookup n

section Rebuilt

variable (disk : Disk)

/-- What is put at the path in the worker directory. -/
def rebuilt (path : List Str) (real : Option Real) (node : FsNode) (p : List Str) : Option Seen :=
  match node with
  | .file src => filled (disk src) false p
  | .symlink target => leaf (.link target) p
  | .magiskLink => leaf (.link (magiskTarget path)) p
  | .whiteout => none
  | .directory children =>
    match p with
    | [] => some .dir
    | n :: p =>
      match lookupChild children n with
      | some c =>
        match replaceDir children with
        | some dir =>
          if c.kind = .dir then filled (disk (appendPath dir n)) true p
          else rebuilt (path ++ [n]) (child real n) c p
        | none => rebuilt (path ++ [n]) (child real n) c p
      | none =>
        if (replaceDir children).isSome || !readable n then none
        else (child real n).bind fun r => mirrored r p

/-- What a child is rebuilt as.  The directories of one that is replaced are mounted. -/
def rebuiltChild (path : List Str) (real : Option Real) (dir : Option Str) (n : Str) (c : FsNode) :
    View Str Seen :=
  match dir with
  | some dir =>
    if c.kind = .dir then filled (disk (appendPath dir n)) true
    else rebuilt disk (path ++ [n]) (child real n) c
  | none => rebuilt disk (path ++ [n]) (child real n) c

variable {disk} {path : List Str} {children : List (Str × FsNode)} {v : View Str Seen}

@[simp]
lemma rebuilt_file (src : Str) :
    rebuilt disk path real (.file src) = filled (disk src) false :=
  funext fun p => by cases p <;> rfl

@[simp]
lemma rebuilt_symlink (target : Str) :
    rebuilt disk path real (.symlink target) = leaf (.link target) :=
  funext fun p => by cases p <;> rfl

@[simp]
lemma rebuilt_magiskLink :
    rebuilt disk path real .magiskLink = leaf (.link (magiskTarget path)) :=
  funext fun p => by cases p <;> rfl

@[simp]
lemma rebuilt_whiteout : rebuilt disk path real .whiteout = fun _ => none :=
  funext fun p => by cases p <;> rfl

lemma rebuilt_cons (n : Str) (p : List Str) :
    rebuilt disk path real (.directory children) (n :: p) =
      match lookupChild children n with
      | some c => rebuiltChild disk path real (replaceDir children) n c p
      | none => if (replaceDir children).isSome || !readable n then none
          else (child real n).bind fun r => mirrored r p := by
  rw [rebuilt]
  cases lookupChild children n with
  | none => rfl
  | some c =>
    cases replaceDir children with
    | none => rfl
    | some dir =>
      simp only [rebuiltChild]
      split_ifs <;> rfl

/-- The directory of a replaced one. -/
lemma rebuilt_replaced (h : replaceDir children = some dir) :
    rebuilt disk path real (.directory children) = branch .dir
      (built (fun n _ => n = replaceName) (rebuiltChild disk path real (some dir)) children
        fun _ => none) := by
  funext p
  cases p with
  | nil => rfl
  | cons n p =>
    rw [rebuilt_cons, h, branch, built, lookupChild]
    by_cases hn : n = replaceName
    · rw [if_pos hn]
      cases children.lookup n <;> simp [hn]
    · rw [if_neg hn]
      cases children.lookup n <;> simp [hn]

/-- The names that are not mirrored are those of the children. -/
lemma names_contains (n : Str) : (names children).contains n = (lookupChild children n).isSome := by
  rw [Bool.eq_iff_iff, contains_iff_mem, names, mem_filter, lookupChild]
  by_cases hn : n = replaceName
  · simp [hn]
  · rw [if_neg hn, decide_eq_true hn, and_iff_left rfl, List.mem_map]
    constructor
    · rintro ⟨e, he, rfl⟩
      by_contra hnone
      rw [not_isSome_iff_eq_none, lookup_eq_none_iff] at hnone
      exact bne_iff_ne.mp (hnone e he) rfl
    · intro hsome
      obtain ⟨c, hc⟩ := isSome_iff_exists.mp hsome
      exact ⟨(n, c), mem_of_lookup hc, rfl⟩

/-- A directory that is not replaced: the real entries, and the children in two passes. -/
lemma rebuilt_merged (h : replaceDir children = none) :
    rebuilt disk path real (.directory children) = branch .dir
      (built (fun n _ => n = replaceName || !decide (n ≠ framework))
        (rebuiltChild disk path real none) children
        (built (fun n _ => n = replaceName || !decide (n = framework))
          (rebuiltChild disk path real none) children
          (built (fun n _ => !readable n || (names children).contains n) (fun _ e => mirrored e)
            ((opendir real).getD []) fun _ => none))) := by
  funext p
  cases p with
  | nil => rfl
  | cons n p =>
    have hchild : ((opendir real).getD []).lookup n = child real n := by
      rw [child]
      cases opendir real <;> rfl
    rw [rebuilt_cons, h, branch, built, built, built, names_contains, hchild, lookupChild]
    by_cases hn : n = replaceName
    · rw [if_pos hn]
      cases children.lookup n <;> cases readable n <;> cases child real n <;> simp [hn]
    · rw [if_neg hn]
      have hne : framework ≠ replaceName := by decide
      by_cases hf : n = framework <;> cases children.lookup n <;> cases readable n <;>
        cases child real n <;> simp [hn, hf, hne]

/-- The loop over the children fills a directory. -/
lemma commitTmpfsChildren_eq_buildAll (select : Str → Bool) (children : List (Str × FsNode)) :
    commitTmpfsChildren disk select path real v children =
      buildAll (fun n _ => n = replaceName || !select n)
        (fun n c v => commitTmpfs disk (path ++ [n]) (child real n) v c) children v := by
  induction children generalizing v with
  | nil => rfl
  | cons c children ih =>
    rw [commitTmpfsChildren, buildAll]
    by_cases hskip : c.1 = replaceName ∨ select c.1 = false
    · rw [if_pos hskip, if_pos (by simpa using hskip)]
      exact ih
    · rw [if_neg hskip, if_neg (by simpa using hskip)]
      cases commitTmpfs disk (path ++ [c.1]) (child real c.1) v c.2 with
      | none => rfl
      | some v' => exact ih

/-- One turn of the loop over the children of a directory that is replaced. -/
def replaceChild (disk : Disk) (path : List Str) (real : Option Real) (dir n : Str) (c : FsNode)
    (v : View Str Seen) : Option (View Str Seen) :=
  if c.kind = .dir then some (mountDummy (disk (appendPath dir n)) (path ++ [n]) true v)
  else commitTmpfs disk (path ++ [n]) (child real n) v c

/-- The loop over the children of a directory that is replaced fills it. -/
lemma replaceChildren_eq_buildAll (dir : Str) (children : List (Str × FsNode)) :
    replaceChildren disk dir path real v children =
      buildAll (fun n _ => n = replaceName) (replaceChild disk path real dir) children v := by
  induction children generalizing v with
  | nil => rfl
  | cons c children ih =>
    rw [replaceChildren, buildAll]
    by_cases hskip : c.1 = replaceName
    · rw [if_pos hskip, if_pos (decide_eq_true hskip)]
      exact ih
    · rw [if_neg hskip, if_neg (mt of_decide_eq_true hskip)]
      cases hdone : replaceChild disk path real dir c.1 c.2 v with
      | none =>
        rw [replaceChild] at hdone
        simp only [hdone]
        rfl
      | some v' =>
        rw [replaceChild] at hdone
        simp only [hdone]
        exact ih

/-- What `commit_tmpfs` does for a node: it puts a tree at the path, where nothing is. -/
def Rebuilds (disk : Disk) (node : FsNode) : Prop :=
  ∀ path real v, (∀ r ∈ real, r.Regular) → (∀ q, v (path ++ q) = none) →
    (node.kind.IsDir ∨ ∀ q, q <+: path → q ≠ path → v q ≠ none) →
    commitTmpfs disk path real v node =
      some (graft path (rebuilt disk path real node) (mkdirs path v))

lemma Rebuilds.child (h : Rebuilds disk c) (hreal : ∀ r ∈ real, r.Regular) (hf : f n = none) :
    commitTmpfs disk (path ++ [n]) (child real n) (graft path (branch .dir f) (mkdirs path v)) c =
      some (graft (path ++ [n]) (rebuilt disk (path ++ [n]) (Modules.child real n) c)
        (graft path (branch .dir f) (mkdirs path v))) := by
  have hway : ∀ q, q <+: path ++ [n] → q ≠ path ++ [n] →
      graft path (branch .dir f) (mkdirs path v) q ≠ none :=
    fun q hq hne => graft_branch_ne_none hq hne
  rw [h _ _ _ (regular_child hreal n) (graft_branch_eq_none hf _) (.inr hway), mkdirs,
    graft_makeDirs hway]

section

variable (h : ∀ c ∈ children, Rebuilds disk c.2) (hnodup : (children.map Prod.fst).Nodup)
  (hreal : ∀ r ∈ real, r.Regular)

include h hnodup hreal

lemma replaceChildren_eq :
    replaceChildren disk dir path real (graft path (branch .dir fun _ => none) (mkdirs path v))
      children = some (graft path (branch .dir (built (fun n _ => n = replaceName)
        (rebuiltChild disk path real (some dir)) children fun _ => none)) (mkdirs path v)) := by
  rw [replaceChildren_eq_buildAll]
  refine buildAll_eq hnodup (fun c hc _ f hf => ?_) fun _ _ _ => rfl
  rw [replaceChild, rebuiltChild]
  split_ifs with hdir
  · rw [mountDummy_eq _ _ (graft_branch_eq_none hf _)]
  · exact (h c hc).child hreal hf

lemma commitTmpfsChildren_eq
    (hf : ∀ c ∈ children, c.1 ≠ replaceName → select c.1 = true → f c.1 = none) :
    commitTmpfsChildren disk select path real (graft path (branch .dir f) (mkdirs path v))
      children = some (graft path (branch .dir (built (fun n _ => n = replaceName || !select n)
        (rebuiltChild disk path real none) children f)) (mkdirs path v)) := by
  rw [commitTmpfsChildren_eq_buildAll]
  refine buildAll_eq hnodup (fun c hc _ f hf => (h c hc).child hreal hf) fun c hc hskip => ?_
  simp only [Bool.or_eq_false_iff, decide_eq_false_iff_not, Bool.not_eq_false'] at hskip
  exact hf c hc hskip.1 hskip.2

end

lemma FsNode.All.self (h : node.All P) : P node := by
  cases h with
  | directory hP _ => exact hP
  | leaf _ hP => exact hP

lemma FsNode.All.child (h : (FsNode.directory children).All P) : ∀ c ∈ children, c.2.All P := by
  cases h with
  | directory _ hall => exact hall
  | leaf hno _ => exact absurd rfl hno

/-- **`commit_tmpfs` puts the rebuilt tree at the path**, where nothing is. -/
theorem commitTmpfs_eq (hs : node.Sorted) (hl : node.All FsNode.Linkable) : Rebuilds disk node := by
  induction node using FsNode.ind with
  | hleaf node hno =>
    intro path real v hreal hfree hway
    rw [mkdirs, graft_makeDirs (hway.resolve_left hno)]
    cases node with
    | directory children => exact absurd rfl hno
    | file src =>
      rw [rebuilt_file, ← mountDummy_eq _ _ hfree]
      rfl
    | symlink target =>
      rw [rebuilt_symlink]
      refine createSymlinkTo_eq (fun hnil => ?_) hfree
      exact hl.self (by rw [hnil])
    | magiskLink =>
      rw [rebuilt_magiskLink]
      refine createSymlinkTo_eq ?_ hfree
      rw [magiskTarget]
      split_ifs <;> decide
    | whiteout =>
      rw [rebuilt_whiteout, graft_eq_self hfree]
      rfl
  | hdir children ih =>
    intro path real v hreal hfree _
    obtain ⟨hkeys, hsorted⟩ := hs.children
    have hchild : ∀ c ∈ children, Rebuilds disk c.2 := fun c hc =>
      ih c hc (hsorted c hc) (hl.child c hc)
    have hmade : mkdirs path v = graft path (branch .dir fun _ => none) (mkdirs path v) :=
      makeDirs_eq_graft hfree
    rw [commitTmpfs, hmade]
    cases hdir : replaceDir children with
    | some dir =>
      simp only
      rw [replaceChildren_eq hchild hkeys.nodup hreal, rebuilt_replaced hdir, ← hmade]
    | none =>
      obtain ⟨hnodup, hregular⟩ := regular_opendir hreal
      have hmirror : ∀ e ∈ (opendir real).getD [], ∀ path v, (∀ q, v (path ++ q) = none) →
          (∀ q, q <+: path → q ≠ path → v q ≠ none) →
          mirror path v e.2 = some (graft path (mirrored e.2) v) :=
        fun e he path v => mirror_eq (hregular e he)
      -- the names of the children are free after the mirrors, and the others after `framework`
      have hfree₁ : ∀ c ∈ children, c.1 ≠ replaceName →
          built (fun n _ => !readable n || (names children).contains n) (fun _ e => mirrored e)
            ((opendir real).getD []) (fun _ => none) c.1 = none := by
        intro c hc hne
        refine built_of_skip fun _ => Bool.or_eq_true_iff.mpr (.inr ?_)
        rw [names_contains, lookupChild, if_neg hne, lookup_of_mem hkeys.nodup hc]
        rfl
      rw [mirrorEntries_eq hnodup hmirror fun _ => rfl]
      simp only
      rw [commitTmpfsChildren_eq hchild hkeys.nodup hreal fun c hc hne _ => hfree₁ c hc hne]
      simp only
      rw [commitTmpfsChildren_eq hchild hkeys.nodup hreal, rebuilt_merged hdir, ← hmade]
      intro c hc hne hselect
      rw [built_of_skip fun _ => ?_, hfree₁ c hc hne]
      simpa using .inr (of_decide_eq_true hselect)

end Rebuilt

/-! ### What is seen in the end -/

/-- What is at a path for real. -/
def realView (real : Option Real) : View Str Seen := fun p => real.bind fun r => r.view p

section Committed

variable (disk : Disk)

/-- What is seen at and below the path of a node after its commit. -/
def committed (path : List Str) (isRootDir : Bool) (real : Option Real) (node : FsNode)
    (p : List Str) : Option Seen :=
  match node with
  | .file src => bindMount (disk src) [] (realView real) p
  | .directory children =>
    if isTmpfs isRootDir real children then
      bindMount (rebuilt disk path real (.directory children)) [] (realView real) p
    else
      match p with
      | [] => realView real []
      | n :: p =>
        match children.lookup n with
        | some c =>
          if retained isRootDir real n c then
            committed (path ++ [n]) false (child real n) c p
          else realView real (n :: p)
        | none => realView real (n :: p)
  | _ => realView real p

variable {disk} {path : List Str} {isRootDir : Bool} {children : List (Str × FsNode)}

/-- A mount at a path is one at the root of what is there. -/
lemma bindMount_eq_graft (h : ∀ q, v (path ++ q) = t q) :
    bindMount src path v = graft path (bindMount src [] t) v := by
  have hroot := h []
  rw [append_nil] at hroot
  have hself : graft path t v = v := graft_eq_self h
  have hgraft : graft [] src t = src := funext fun q => graft_append [] src t q
  rw [bindMount, bindMount, hroot]
  cases src [] with
  | none => exact hself.symm
  | some k =>
    cases t [] with
    | none => exact hself.symm
    | some k' =>
      simp only
      split_ifs
      · rw [hgraft]
      · exact hself.symm

/-- What a commit does for a node: it replaces what is seen at the path. -/
def Commits (disk : Disk) (node : FsNode) : Prop :=
  ∀ path isRootDir real s, (∀ r ∈ real, r.Regular) → (∀ target entries,
    real ≠ some (.dirLink target entries)) → (∀ q, s.real (path ++ q) = realView real q) →
    (∀ q, s.worker (path ++ q) = none) →
    ∃ w, commit disk path isRootDir real s node =
        (⟨graft path (committed disk path isRootDir real node) s.real, w⟩, true) ∧
      ∀ q, ¬path <+: q → ¬q <+: path → w q = s.worker q

/-- The children that a pass of `commit` leaves out. -/
def passedOver (select : Str → Bool) (isRootDir : Bool) (real : Option Real) (n : Str)
    (c : FsNode) : Bool := !retained isRootDir real n c || !select n

lemma passedOver_iff : passedOver select isRootDir real n c = true ↔
      retained isRootDir real n c = false ∨ select n = false := by
  rw [passedOver, Bool.or_eq_true, Bool.not_eq_true', Bool.not_eq_true']

lemma passedOver_eq_false_iff : passedOver select isRootDir real n c = false ↔
      retained isRootDir real n c = true ∧ select n = true := by
  rw [passedOver, Bool.or_eq_false_iff, Bool.not_eq_false', Bool.not_eq_false']

lemma realView_dir (entries : List (Str × Real)) :
    realView (some (.dir entries)) = branch .dir fun n =>
      (child (some (.dir entries)) n).map Real.view := by
  funext p
  cases p with
  | nil => rfl
  | cons n p =>
    change (entries.lookup n).bind _ = ((entries.lookup n).map Real.view).bind _
    cases entries.lookup n <;> rfl

/-- One pass over the children. -/
lemma commitChildren_eq (select : Str → Bool)
    (hchild : ∀ c ∈ children, Commits disk c.2) (hnodup : (children.map Prod.fst).Nodup)
    (hreal : ∀ r ∈ real, r.Regular)
    (hplain : ∀ c ∈ children, passedOver select isRootDir real c.1 c.2 = false →
      ∀ target entries, child real c.1 ≠ some (.dirLink target entries))
    (hs : s.real = graft path (branch .dir f) v)
    (hf : ∀ c ∈ children, passedOver select isRootDir real c.1 c.2 = false →
      f c.1 = (child real c.1).map Real.view)
    (hfree : ∀ c ∈ children, passedOver select isRootDir real c.1 c.2 = false →
      ∀ q, s.worker (path ++ [c.1] ++ q) = none) :
    ∃ s', commitChildren disk select path isRootDir real s children = (s', true) ∧
      s'.real = graft path (branch .dir (built (passedOver select isRootDir real)
        (fun n c => committed disk (path ++ [n]) false (child real n) c) children f)) v ∧
      ∀ q, (∀ c ∈ children, passedOver select isRootDir real c.1 c.2 = false →
        ¬path ++ [c.1] <+: q) → ¬q <+: path → s'.worker q = s.worker q := by
  induction children generalizing s f with
  | nil => exact ⟨s, rfl, hs, fun _ _ _ => rfl⟩
  | cons c children ih =>
    obtain ⟨n, c⟩ := c
    obtain ⟨hn, hnodup⟩ := nodup_cons.mp hnodup
    have hne : ∀ e ∈ children, n ≠ e.1 := fun e he heq =>
      hn (mem_map.mpr ⟨e, he, heq.symm⟩)
    have hlookup : children.lookup n = none :=
      lookup_eq_none_iff.mpr fun e he => bne_iff_ne.mpr (hne e he)
    have hchild' := fun e he => hchild e (.tail _ he)
    have hplain' := fun e he => hplain e (.tail _ he)
    rw [commitChildren]
    by_cases hover : passedOver select isRootDir real n c = true
    · rw [if_pos (passedOver_iff.mp hover), built_cons_skip hlookup hover]
      obtain ⟨s', hs', hview, hframe⟩ := ih hchild' hnodup hplain' hs
        (fun e he => hf e (.tail _ he)) fun e he => hfree e (.tail _ he)
      exact ⟨s', hs', hview, fun q hq => hframe q fun e he => hq e (.tail _ he)⟩
    · rw [if_neg (mt passedOver_iff.mpr hover)]
      rw [Bool.not_eq_true] at hover
      have hhead : ∀ q, s.real (path ++ [n] ++ q) = realView (child real n) q := by
        intro q
        rw [hs, append_assoc, graft_append, singleton_append, branch,
          hf _ (.head _) hover]
        cases child real n <;> rfl
      obtain ⟨w, hw, hframe⟩ := hchild _ (.head _) (path ++ [n]) false (child real n) s
        (regular_child hreal n) (hplain _ (.head _) hover) hhead
        (hfree _ (.head _) hover)
      rw [hs, graft_branch] at hw
      rw [hw]
      -- the worker directories of the other children are as they were
      have hother : ∀ e ∈ children, ∀ q,
          w (path ++ [e.1] ++ q) = s.worker (path ++ [e.1] ++ q) := by
        intro e he q
        refine hframe _ ?_ fun hle => ?_
        · rw [append_assoc path [e.1], singleton_append, concat_prefix_append_cons]
          exact hne e he
        · have hle := (prefix_append _ q).trans hle
          rw [concat_prefix_append_cons] at hle
          exact hne e he hle.symm
      obtain ⟨s', hs', hview, hframe'⟩ := ih (f := Function.update f n _) (s := ⟨_, w⟩)
        hchild' hnodup hplain' rfl
        (fun e he hover => by
          rw [Function.update_of_ne (hne e he).symm]
          exact hf e (.tail _ he) hover)
        fun e he hover q => (hother e he q).trans (hfree e (.tail _ he) hover q)
      refine ⟨s', hs', by rw [hview, built_cons hlookup hover], fun q hq hle => ?_⟩
      have hnot := hq _ (.head _) hover
      refine (hframe' q (fun e he => hq e (.tail _ he)) hle).trans ?_
      refine hframe q hnot fun hle' => ?_
      rcases prefix_concat_iff.mp hle' with rfl | hle'
      · exact hnot prefix_rfl
      · exact hle hle'

/-- What is kept without a tmpfs is a directory or a file, and it is in the place of one. -/
lemma parentShouldBeTmpfs_eq_false (h : parentShouldBeTmpfs node target = false) :
    (node.kind.IsDir ∨ ∃ src, node = .file src) ∧
      ((∃ entries, target = some (.dir entries)) ∨ ∃ data, target = some (.file data)) := by
  have hplain : (∃ entries, target = some (.dir entries)) ∨ ∃ data, target = some (.file data) := by
    cases node <;> rcases target with _ | entries | _ | _ | data <;> cases h
    · exact .inl ⟨entries, rfl⟩
    · exact .inr ⟨data, rfl⟩
    · exact .inl ⟨entries, rfl⟩
    · exact .inr ⟨data, rfl⟩
  cases node with
  | directory children => exact ⟨.inl rfl, hplain⟩
  | file src => exact ⟨.inr ⟨src, rfl⟩, hplain⟩
  | symlink | magiskLink | whiteout => cases h

lemma retained_plain (h : isTmpfs isRootDir real children = false)
    (hc : c ∈ children) (hr : retained isRootDir real c.1 c.2 = true) :
    c.1 ≠ replaceName ∧ parentShouldBeTmpfs c.2 (child real c.1) = false := by
  cases isRootDir with
  | true => simpa [retained] using hr
  | false =>
    rw [isTmpfs, Bool.not_false, Bool.true_and, List.any_eq_false] at h
    have hc := h c hc
    rw [Bool.or_eq_true, not_or, decide_eq_true_eq, Bool.not_eq_true] at hc
    exact hc

lemma committed_tmpfs (h : isTmpfs isRootDir real children = true) :
    committed disk path isRootDir real (.directory children) =
      bindMount (rebuilt disk path real (.directory children)) [] (realView real) := by
  funext p
  cases p <;> simp [committed, h]

lemma committed_nil (h : isTmpfs isRootDir real children = false) :
    committed disk path isRootDir real (.directory children) [] = realView real [] := by
  rw [committed, h, if_neg Bool.false_ne_true]

lemma committed_inPlace (h : isTmpfs isRootDir real children = false) (n : Str) (p : List Str) :
    committed disk path isRootDir real (.directory children) (n :: p) =
      match children.lookup n with
      | some c => if retained isRootDir real n c then
            committed disk (path ++ [n]) false (child real n) c p
          else realView real (n :: p)
      | none => realView real (n :: p) := by
  rw [committed, h, if_neg Bool.false_ne_true]

/-- Both passes over the children of a directory. -/
lemma committed_dir (hdir : realView real = branch .dir fun n => (child real n).map Real.view)
    (h : isTmpfs isRootDir real children = false) :
    committed disk path isRootDir real (.directory children) = branch .dir
      (built (passedOver (· ≠ framework) isRootDir real)
        (fun n c => committed disk (path ++ [n]) false (child real n) c) children
        (built (passedOver (· = framework) isRootDir real)
          (fun n c => committed disk (path ++ [n]) false (child real n) c) children
          fun n => (child real n).map Real.view)) := by
  funext p
  cases p with
  | nil => rw [committed_nil h, hdir, branch, branch]
  | cons n p =>
    rw [committed_inPlace h, hdir, branch, branch, built, built]
    cases children.lookup n with
    | none => rfl
    | some c =>
      rcases eq_or_ne n framework with rfl | hf
      · cases hkept : retained isRootDir real framework c <;> simp [passedOver, hkept]
      · cases hkept : retained isRootDir real n c <;> simp [passedOver, hkept, hf]

lemma passedOver_of_child (hnone : ∀ n, child real n = none)
    (h : isTmpfs isRootDir real children = false) (hc : c ∈ children) :
    retained isRootDir real c.1 c.2 = false := by
  by_contra hr
  rw [Bool.not_eq_false] at hr
  obtain ⟨-, htmpfs⟩ := retained_plain h hc hr
  obtain ⟨-, ⟨_, hsome⟩ | ⟨_, hsome⟩⟩ := parentShouldBeTmpfs_eq_false htmpfs
  · cases (hnone c.1).symm.trans hsome
  · cases (hnone c.1).symm.trans hsome

lemma commitChildren_skip (h : ∀ c ∈ children, retained isRootDir real c.1 c.2 = false) :
    commitChildren disk select path isRootDir real s children = (s, true) := by
  induction children with
  | nil => rfl
  | cons c children ih =>
    rw [commitChildren, if_pos (.inl (h c mem_cons_self))]
    exact ih fun c hc => h c (.tail _ hc)

lemma committed_file (src : Str) :
    committed disk path isRootDir real (.file src) = bindMount (disk src) [] (realView real) :=
  funext fun p => by cases p <;> rfl

lemma committed_rest (hdir : ¬node.kind.IsDir) (hfile : ∀ src, node ≠ .file src) :
    committed disk path isRootDir real node = realView real ∧
      ∀ s, commit disk path isRootDir real s node = (s, true) := by
  cases node with
  | directory children => exact absurd rfl hdir
  | file src => exact absurd rfl (hfile src)
  | symlink | magiskLink | whiteout =>
    exact ⟨funext fun p => by cases p <;> rfl, fun s => rfl⟩

/-- The tmpfs of a directory is moved over it. -/
lemma commit_tmpfs (hs : (FsNode.directory children).Sorted)
    (hl : (FsNode.directory children).All FsNode.Linkable) (hreal : ∀ r ∈ real, r.Regular)
    (hseen : ∀ q, s.real (path ++ q) = realView real q) (hfree : ∀ q, s.worker (path ++ q) = none)
    (h : isTmpfs isRootDir real children = true) :
    ∃ w, commit disk path isRootDir real s (.directory children) =
        (⟨graft path (committed disk path isRootDir real (.directory children)) s.real, w⟩, true) ∧
      ∀ q, ¬path <+: q → ¬q <+: path → w q = s.worker q := by
  rw [commit, if_pos h, commitTmpfs_eq hs hl path real s.worker hreal hfree (.inl rfl)]
  refine ⟨graft path (rebuilt disk path real (.directory children)) (mkdirs path s.worker), ?_,
    fun q hq hle => ?_⟩
  · simp only
    rw [subtree_graft, bindMount_eq_graft hseen, committed_tmpfs h]
  · rw [graft_of_not_below hq, mkdirs, makeDirs_of_not_above hle]

/-- The children of a directory are committed in place. -/
lemma commit_inPlace (hchild : ∀ c ∈ children, Commits disk c.2)
    (hnodup : (children.map Prod.fst).Nodup) (hreal : ∀ r ∈ real, r.Regular)
    (hdir : realView real = branch .dir fun n => (child real n).map Real.view)
    (hseen : ∀ q, s.real (path ++ q) = realView real q)
    (hfree : ∀ q, s.worker (path ++ q) = none) (h : isTmpfs isRootDir real children = false) :
    ∃ w, commit disk path isRootDir real s (.directory children) =
        (⟨graft path (committed disk path isRootDir real (.directory children)) s.real, w⟩, true) ∧
      ∀ q, ¬path <+: q → ¬q <+: path → w q = s.worker q := by
  have hplain : ∀ {select : Str → Bool}, ∀ c ∈ children,
      passedOver select isRootDir real c.1 c.2 = false →
      ∀ target es, child real c.1 ≠ some (.dirLink target es) := by
    intro select c hc hover target es heq
    obtain ⟨-, htmpfs⟩ := retained_plain h hc (passedOver_eq_false_iff.mp hover).1
    obtain ⟨-, ⟨_, hsome⟩ | ⟨_, hsome⟩⟩ := parentShouldBeTmpfs_eq_false htmpfs
    · cases heq.symm.trans hsome
    · cases heq.symm.trans hsome
  have hbelow : ∀ n q, s.worker (path ++ [n] ++ q) = none := fun n q => by
    rw [append_assoc]
    exact hfree _
  have hstart : s.real = graft path (branch .dir fun n => (child real n).map Real.view) s.real := by
    rw [← hdir, graft_eq_self hseen]
  obtain ⟨s₁, hs₁, hview₁, hframe₁⟩ := commitChildren_eq (· = framework) hchild hnodup hreal hplain
    hstart (fun _ _ _ => rfl) fun c _ _ => hbelow c.1
  -- the second pass is over other names
  have hother : ∀ c ∈ children, passedOver (· ≠ framework) isRootDir real c.1 c.2 = false →
      c.1 ≠ framework := fun c _ hover => of_decide_eq_true (passedOver_eq_false_iff.mp hover).2
  have hfree₁ : ∀ c ∈ children, passedOver (· ≠ framework) isRootDir real c.1 c.2 = false →
      ∀ q, s₁.worker (path ++ [c.1] ++ q) = none := by
    intro c hc hover q
    rw [hframe₁, hbelow]
    · intro e he hover'
      have heq := of_decide_eq_true (passedOver_eq_false_iff.mp hover').2
      rw [append_assoc, singleton_append, concat_prefix_append_cons, heq]
      exact (hother c hc hover).symm
    · exact fun hle => not_concat_above path c.1 ((prefix_append _ q).trans hle)
  obtain ⟨s₂, hs₂, hview₂, hframe₂⟩ := commitChildren_eq (· ≠ framework) hchild hnodup hreal hplain
    hview₁ (fun c hc hover => built_of_skip fun _ =>
      passedOver_iff.mpr (.inr (decide_eq_false (hother c hc hover)))) hfree₁
  refine ⟨s₂.worker, ?_, fun q hq hle => ?_⟩
  · rw [commit, h, hs₁, committed_dir hdir h, ← hview₂]
    exact hs₂
  · have hnot : ∀ n, ¬path ++ [n] <+: q := fun n hle' =>
      hq ((prefix_append path [n]).trans hle')
    exact (hframe₂ q (fun c _ _ => hnot c.1) hle).trans (hframe₁ q (fun c _ _ => hnot c.1) hle)

/-- **A commit replaces what is seen at the path** by the committed tree. -/
theorem commit_eq (hs : node.Sorted) (hl : node.All FsNode.Linkable) : Commits disk node := by
  induction node using FsNode.ind with
  | hleaf node hno =>
    intro path isRootDir real s hreal hlink hseen hfree
    refine ⟨s.worker, ?_, fun _ _ _ => rfl⟩
    by_cases hfile : ∃ src, node = .file src
    · obtain ⟨src, rfl⟩ := hfile
      rw [commit, committed_file, bindMount_eq_graft hseen]
    · obtain ⟨hview, hcommit⟩ := committed_rest hno (fun src heq => hfile ⟨src, heq⟩)
      rw [hcommit, hview, graft_eq_self hseen]
  | hdir children ih =>
    intro path isRootDir real s hreal hlink hseen hfree
    obtain ⟨hkeys, hsorted⟩ := hs.children
    have hchild : ∀ c ∈ children, Commits disk c.2 := fun c hc =>
      ih c hc (hsorted c hc) (hl.child c hc)
    cases htmpfs : isTmpfs isRootDir real children with
    | true => exact commit_tmpfs hs hl hreal hseen hfree htmpfs
    | false =>
      by_cases hdir : ∃ entries, real = some (.dir entries)
      · obtain ⟨entries, rfl⟩ := hdir
        exact commit_inPlace hchild hkeys.nodup hreal (realView_dir entries) hseen hfree htmpfs
      · have hnone : ∀ n, child real n = none := by
          intro n
          rcases real with _ | entries | ⟨target, entries⟩ | _ | _
          · rfl
          · exact absurd ⟨entries, rfl⟩ hdir
          · exact absurd rfl (hlink target entries)
          · rfl
          · rfl
        have hover : ∀ c ∈ children, retained isRootDir real c.1 c.2 = false := fun c hc =>
          passedOver_of_child hnone htmpfs hc
        have hview : committed disk path isRootDir real (.directory children) =
            realView real := by
          funext p
          cases p with
          | nil => exact committed_nil htmpfs
          | cons n p =>
            rw [committed_inPlace htmpfs]
            cases hn : children.lookup n with
            | none => rfl
            | some c => exact if_neg (by rw [hover _ (mem_of_lookup hn)]; nofun)
        refine ⟨s.worker, ?_, fun _ _ _ => rfl⟩
        rw [commit, htmpfs, if_neg Bool.false_ne_true, commitChildren_skip hover]
        simp only
        rw [commitChildren_skip hover, hview, graft_eq_self hseen]

end Committed

end Magisk.Core.Modules
