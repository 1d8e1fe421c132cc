import Magisk.Boot.CpioRestore
import Magisk.Boot.Patch
import Magisk.Lib.Path

/-!
# The commands of `magiskboot cpio`

* `Cpio.mkdir`, `Cpio.ln`, `Cpio.mv`, `Cpio.add`, `Cpio.patch`: the commands that change an
  archive, besides `rm`, `backup` and `restore`;
* `Cpio.existsEntry`, `Cpio.extract`, `Cpio.ls`: those that look into it;
* `Below`: what a path stands for;
* `rm_ls_iff`: when `rm` removes just what `ls` lists.
-/

namespace Magisk.Boot

open Magisk.Base Magisk.Lib List Std ExtTreeMap

/-! ### The commands -/

/-- `S_IFLNK`. -/
def sIflnk : UInt32 := 0o120000

/-- `S_IFBLK`. -/
def sIfblk : UInt32 := 0o060000

/-- `S_IFCHR`. -/
def sIfchr : UInt32 := 0o020000

/-- What `add` finds under the path of a file.  A symbolic link is read like a file. -/
inductive HostFile where
  | file (data : Str)
  | blockDevice (major minor : UInt64)
  | charDevice (major minor : UInt64)
  | other

namespace Cpio

variable (c : Cpio)

/-- Adds an entry or replaces it. -/
def insert (name : Str) (e : CpioEntry) : Cpio := ⟨c.entries.insert name e⟩

/-- `Cpio::exists`. -/
def existsEntry (path : Str) : Bool := c.entries.contains (normPath path)

/-- The entry that `Cpio::extract` writes to a file. -/
def extract (path : Str) : Option CpioEntry := c.entries[normPath path]?

/-- `Cpio::mkdir`. -/
def mkdir (mode : UInt32) (dir : Str) : Cpio :=
  c.insert (normPath dir) (plainEntry (mode ||| sIfdir) [])

/-- `Cpio::ln`. -/
def ln (src dst : Str) : Cpio := c.insert (normPath dst) (plainEntry sIflnk (normPath src))

/-- `Cpio::mv`. -/
def mv (src dst : Str) : Option Cpio :=
  match c.entries[normPath src]? with
  | none => none
  | some e => some ((⟨c.entries.erase (normPath src)⟩ : Cpio).insert (normPath dst) e)

/-- `Cpio::add`.  `none` stands for a file whose attributes or content cannot be read. -/
def add (mode : UInt32) (path : Str) (file : Option HostFile) : Option Cpio :=
  if path.getLast? = some slash then none
  else
    match file with
    | none | some .other => none
    | some (.file data) => some (c.insert (normPath path) (plainEntry (mode ||| sIfreg) data))
    | some (.blockDevice major minor) =>
      some (c.insert (normPath path) ⟨mode ||| sIfblk, 0, 0, major, minor, []⟩)
    | some (.charDevice major minor) =>
      some (c.insert (normPath path) ⟨mode ||| sIfchr, 0, 0, major, minor, []⟩)

end Cpio

/-- `Vec::resize` with zeros. -/
def resize (data : Str) (len : Nat) : Str := data.take len ++ List.replicate (len - data.length) 0

/-- A patch of the data of an entry.  It does not fail, see `removePattern_eq`. -/
def patchData (patch : Str → Except Fault (Str × Nat)) (data : Str) : Str :=
  match patch data with
  | .ok (out, len) => if len ≠ out.length then resize out len else out
  | .error _ => data

/-- The closure of `Cpio::patch`: the entry that is retained. -/
def patchEntry (keepVerity keepForceEncrypt : Bool) (name : Str) (e : CpioEntry) :
    Option CpioEntry :=
  let fstab := (!keepVerity || !keepForceEncrypt) && e.isReg &&
    !(str ".backup").isPrefixOf name && !(str "twrp").isPrefixOf name &&
    !(str "recovery").isPrefixOf name && (str "fstab").isPrefixOf name
  if !keepVerity && !fstab && name = str "verity_key" then none
  else
    let data := if !keepVerity && fstab then patchData patchVerity e.data else e.data
    let data := if !keepForceEncrypt && fstab then patchData patchEncryption data else data
    some { e with data }

/-- `Cpio::patch`. -/
def Cpio.patch (c : Cpio) (keepVerity keepForceEncrypt : Bool) : Cpio :=
  ⟨c.entries.filterMap (patchEntry keepVerity keepForceEncrypt)⟩

/-- The body of the loop of `Cpio::ls`: is the entry printed? -/
def listed (path : Str) (recursive : Bool) (name : Str) : Bool :=
  let path := if path = [] then [] else slash :: path
  let p := slash :: name
  if path.isPrefixOf p then
    let p := p.drop path.length
    if p ≠ [] ∧ p.head? ≠ some slash then false
    else if !recursive ∧ p ≠ [] ∧ 1 < p.count slash then false
    else true
  else false

/-- The names that `Cpio::ls` prints. -/
def Cpio.ls (c : Cpio) (path : Str) (recursive : Bool) : List Str :=
  c.entries.keys.filter (listed (normPath path) recursive)

/-! ### What a path stands for -/

/-- The entry of a normal path and those below it.  The empty path stands for all. -/
def Below (path name : Str) : Prop := path = [] ∨ name = path ∨ path ++ [slash] <+: name

variable {path name : Str}

lemma normPath_eq_self_iff : normPath path = path ↔ path = [] ∨ Full slash path :=
  normal_eq_self_iff

lemma head?_ne_slash (h : normPath name = name) : name.head? ≠ some slash := by
  rcases normPath_eq_self_iff.mp h with rfl | h
  · nofun
  · exact h.head?_ne

/-- The rest of a name behind a path that is listed. -/
lemma rest_iff :
    (path <+: name ∧ (name.drop path.length = [] ∨ (name.drop path.length).head? = some slash)) ↔
      name = path ∨ path ++ [slash] <+: name := by
  constructor
  · rintro ⟨⟨r, rfl⟩, hr⟩
    rw [drop_left] at hr
    rcases hr with rfl | hr
    · exact .inl (append_nil path)
    · obtain ⟨r', rfl⟩ := head?_eq_some_iff.mp hr
      exact .inr ⟨r', by rw [append_assoc, singleton_append]⟩
  · rintro (rfl | ⟨r, rfl⟩)
    · exact ⟨prefix_rfl, .inl drop_length⟩
    · rw [append_assoc, drop_left]
      exact ⟨prefix_append _ _, .inr rfl⟩

/-- `ls` lists what a path stands for. -/
lemma listed_iff : listed path true name = true ↔ Below path name := by
  by_cases hnil : path = []
  · simp [listed, Below, hnil]
  · rw [Below, or_iff_right hnil, ← rest_iff, listed]
    simp only [if_neg hnil, isPrefixOf_cons_cons, beq_self_eq_true, Bool.true_and,
      length_cons, drop_succ_cons, Bool.not_true, Bool.false_eq_true, false_and, if_false]
    by_cases hpre : path <+: name
    · simp only [ isPrefixOf_iff_prefix.mpr hpre, if_true, hpre, true_and]
      by_cases hrest : name.drop path.length = [] ∨ (name.drop path.length).head? = some slash
      · rw [if_neg (by rwa [← not_or, not_not])]
        exact iff_of_true rfl hrest
      · rw [if_pos (by rwa [← not_or])]
        exact iff_of_false nofun hrest
    · rw [if_neg (mt isPrefixOf_iff_prefix.mp hpre)]
      exact iff_of_false nofun fun h => hpre h.1

lemma mem_ls_iff {c : Cpio} :
    name ∈ c.ls path true ↔ name ∈ c.entries ∧ Below (normPath path) name := by
  rw [Cpio.ls, List.mem_filter, ExtTreeMap.mem_keys, listed_iff]

lemma mem_rm_iff {c : Cpio} : name ∈ (c.rm path true).entries ↔
    name ∈ c.entries ∧ name ≠ normPath path ∧ ¬normPath path ++ [slash] <+: name := by
  simp only [Cpio.rm, if_true, ExtTreeMap.mem_filter, ExtTreeMap.getKey_eq,
    ExtTreeMap.mem_erase, ne_eq, LawfulEqCmp.compare_eq_iff_eq, Bool.not_eq_true',
    exists_prop, ← List.isPrefixOf_iff_prefix, Bool.not_eq_true]
  rw [and_assoc, and_left_comm, eq_comm]

/-- **When `rm` removes just what `ls` lists**, the path itself and everything below it: the path
must not be the root, or there is nothing below it. -/
theorem rm_ls_iff (c : Cpio) (hnorm : ∀ name ∈ c.entries, normPath name = name) (path : Str) :
    (∀ name ∈ c.entries, (name ∉ (c.rm path true).entries ↔ Below (normPath path) name) ∧
      (name ∈ c.ls path true ↔ Below (normPath path) name)) ↔
    normPath path ≠ [] ∨ ∀ name ∈ c.entries, name = [] := by
  constructor
  · intro h
    by_contra hnot
    rw [not_or, not_not, not_forall] at hnot
    obtain ⟨hroot, name, hname⟩ := hnot
    obtain ⟨hmem, hne⟩ := Classical.not_imp.mp hname
    -- no normal name is below the root as `rm` understands it
    refine (h name hmem).1.mpr (.inl hroot) (mem_rm_iff.mpr ⟨hmem, hroot ▸ hne, ?_⟩)
    rw [hroot]
    rintro ⟨r, rfl⟩
    exact head?_ne_slash (hnorm _ hmem) rfl
  · intro h name hmem
    refine ⟨?_, by rw [mem_ls_iff, and_iff_right hmem]⟩
    rw [mem_rm_iff, and_iff_right hmem, ← not_or, not_not, Below]
    rcases h with hroot | hall
    · rw [or_iff_right hroot]
    · by_cases hroot : normPath path = []
      · exact iff_of_true (.inl ((hall name hmem).trans hroot.symm)) (.inl hroot)
      · rw [or_iff_right hroot]

/-- A directory that is given with slashes around it. -/
theorem rm_ls_stock :
    normPath (str "/dev/") = str "dev" ∧ ∀ name ∈ stock.entries,
      (name ∉ (stock.rm (str "/dev/") true).entries ↔ Below (normPath (str "/dev/")) name) ∧
        (name ∈ stock.ls (str "/dev/") true ↔ Below (normPath (str "/dev/")) name) := by
  have hdev : normPath (str "/dev/") = str "dev" := by decide
  refine ⟨hdev, ?_⟩
  refine (rm_ls_iff stock (fun name hname => (ordinary_stock name hname).norm) _).mpr (.inl ?_)
  decide

/-- Of the root, `ls` lists everything and `rm` removes nothing. -/
theorem rm_root_stock :
    str "init" ∈ (stock.rm (str "/") true).entries ∧ str "init" ∈ stock.ls (str "/") true := by
  have hmem : str "init" ∈ stock.entries := mem_initWith.mpr (.inr rfl)
  have hroot : normPath (str "/") = [] := by decide
  refine ⟨mem_rm_iff.mpr ⟨hmem, ?_⟩, mem_ls_iff.mpr ⟨hmem, .inl hroot⟩⟩
  decide

end Magisk.Boot
