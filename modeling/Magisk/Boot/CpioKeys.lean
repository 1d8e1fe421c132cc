import Magisk.Boot.CpioCommands
import Magisk.Boot.CpioDump
import Magisk.Boot.CpioNames
import Magisk.Lib.Transition

/-!
# The names of an archive over whole runs

All commands look an entry up under its normal path, but the reader, `backup` and `restore` make
names of their own.

* `CpioCmd`, `cpioSystem`: the commands as a transition system;
* `SteadyName`: a name that stays normal when it is backed up and restored;
* `CpioCmd.Steady`: a command that brings in such names only;
* `names_reachable`: in every state of a run, each entry is found under its name.
-/

namespace Magisk.Boot

open Magisk.Base Magisk.Lib List Option Std ExtTreeMap

/-! ### Runs -/

/-- The commands that change an archive.  `backup` comes with the bytes of its origin. -/
inductive CpioCmd where
  | rm (path : Str) (recursive : Bool)
  | mv (src dst : Str)
  | mkdir (mode : UInt32) (dir : Str)
  | ln (src dst : Str)
  | add (mode : UInt32) (path : Str) (file : Option HostFile)
  | patch (keepVerity keepForceEncrypt : Bool)
  | backup (origin : Option Str) (skipCompress : Bool)
  | restore

/-- The archive after a command.  `none` ends the run with an error. -/
def CpioCmd.run (X : Xz) (c : Cpio) : CpioCmd → Option Cpio
  | .rm path recursive => some (c.rm path recursive)
  | .mv src dst => c.mv src dst
  | .mkdir mode dir => some (c.mkdir mode dir)
  | .ln src dst => some (c.ln src dst)
  | .add mode path file => c.add mode path file
  | .patch keepVerity keepForceEncrypt => some (c.patch keepVerity keepForceEncrypt)
  | .backup none _ => none
  | .backup (some data) skipCompress =>
    match loadFromData data with
    | .error _ => none
    | .ok origin => some (c.backup X skipCompress origin)
  | .restore => some (c.restore X)

/-- The runs of `cpio_commands`: an archive is loaded and the commands change it. -/
def cpioSystem (X : Xz) (data : Str) : System Cpio CpioCmd :=
  ⟨fun c => loadFromData data = .ok c, CpioCmd.run X⟩

/-! ### Names that stay normal -/

/-- `.xz`, some number of times. -/
def xzRun (n : Nat) : Str := (List.replicate n xzExt).flatten

/-- A normal name whose last piece is not made of `.xz` alone, unless it stands alone or right below
`.backup`.  Without its extension such a piece would be empty. -/
structure SteadyName (name : Str) : Prop where
  norm : normPath name = name
  xz : ∀ x n, name = x ++ slash :: xzRun (n + 1) → x = backupDir

/-- The names of an archive are steady. -/
def SteadyNames (c : Cpio) : Prop := ∀ name ∈ c.entries, SteadyName name

/-- The names that a command brings in are steady. -/
def CpioCmd.Steady : CpioCmd → Prop
  | .rm _ _ | .patch _ _ | .restore | .backup none _ => True
  | .mv _ dst | .ln _ dst => SteadyName (normPath dst)
  | .mkdir _ dir => SteadyName (normPath dir)
  | .add _ path _ => SteadyName (normPath path)
  | .backup (some data) _ => ∀ origin, loadFromData data = .ok origin →
      ∀ name ∈ origin.entries, reserved name = false → name ≠ [] ∧ SteadyName name

lemma xzRun_succ (n : Nat) : xzRun (n + 1) = xzRun n ++ xzExt := by
  rw [xzRun, replicate_succ', flatten_append]
  rfl

variable {r name : Str} {m : Entries}

/-- Where the last slash of a name below `.backup/` stands. -/
lemma backupPre_append_eq {x w : Str} (h : backupPre ++ r = x ++ slash :: w) :
    (x = backupDir ∧ r = w) ∨ ∃ a, x = backupPre ++ a ∧ r = a ++ slash :: w := by
  have hpre : backupPre = backupDir ++ [slash] := by decide
  rw [hpre, append_assoc] at h
  rcases append_eq_append_iff.mp h with ⟨a, rfl, ha⟩ | ⟨a, ha, hw⟩
  · cases a with
    | nil => exact .inl ⟨append_nil _, (cons.inj ha).2⟩
    | cons d a =>
      obtain ⟨rfl, hr⟩ := cons.inj ha
      exact .inr ⟨a, by rw [hpre, append_assoc, singleton_append], hr⟩
  · cases a with
    | nil =>
      rw [append_nil] at ha
      exact .inl ⟨ha.symm, (cons.inj hw).2.symm⟩
    | cons d a =>
      obtain ⟨rfl, -⟩ := cons.inj hw
      have hmem : slash ∈ backupDir := ha ▸ mem_append_right x (.head _)
      exact absurd hmem (by decide)

lemma backupPre_append_ne (x : Str) : backupPre ++ x ≠ backupDir := by
  intro h
  have hlen := congrArg List.length h
  rw [length_append, show backupPre.length = 8 by decide,
    show backupDir.length = 7 by decide] at hlen
  omega

lemma full_backupPre : Full slash (backupPre ++ r) ↔ Full slash r := by
  have hpre : backupPre ++ r = backupDir ++ slash :: r := by
    rw [show backupPre = backupDir ++ [slash] by decide, append_assoc, singleton_append]
  rw [hpre, full_append_cons, and_iff_right (full_of_notMem (by decide) (by decide))]

lemma full_of_norm (h : normPath name = name) (hne : name ≠ []) : Full slash name :=
  (normPath_eq_self_iff.mp h).resolve_left hne

lemma norm_of_full (h : Full slash name) : normPath name = name :=
  normPath_eq_self_iff.mpr (.inr h)

/-! ### Backups -/

section

variable (h : SteadyName name) (hne : name ≠ []) (hout : reserved name = false)

include h hne hout

/-- A name that is backed up as it is. -/
lemma SteadyName.plain :
    SteadyName (backupPre ++ name) where
  norm := norm_of_full (full_backupPre.mpr (full_of_norm h.norm hne))
  xz x n heq := by
    rcases backupPre_append_eq heq with ⟨hx, -⟩ | ⟨a, -, hname⟩
    · exact hx
    · -- the name would be below `.backup/` itself
      have hpre : backupPre.isPrefixOf name = true := by
        rw [ isPrefixOf_iff_prefix, hname, h.xz a n hname]
        exact ⟨xzRun (n + 1), by
          rw [show backupPre = backupDir ++ [slash] by decide, append_assoc,
            singleton_append]⟩
      rw [reserved, hpre, Bool.or_true] at hout
      cases hout

/-- A name that is backed up with the extension. -/
lemma SteadyName.packed :
    SteadyName (backupPre ++ name ++ xzExt) where
  norm := norm_of_full ((full_backupPre.mpr (full_of_norm h.norm hne)).append (by decide))
  xz x n heq := by
    rw [xzRun_succ, ← cons_append, ← append_assoc] at heq
    have heq' := append_cancel_right heq
    cases n with
    | succ n => exact (h.plain hne hout).xz x n heq'
    | zero =>
      -- the name would end with a slash
      rcases backupPre_append_eq heq' with ⟨-, hname⟩ | ⟨a, -, hname⟩
      · exact absurd hname hne
      · refine absurd ?_ (full_of_norm h.norm hne).getLast?_ne
        rw [hname]
        exact getLast?_concat

end

lemma SteadyName.of_backupPre (h : SteadyName (backupPre ++ r)) : SteadyName r where
  norm := norm_of_full (full_backupPre.mp (full_of_norm h.norm (by simp [backupPre, str])))
  xz x n heq := by
    refine absurd (h.xz (backupPre ++ x) n ?_) (backupPre_append_ne x)
    rw [heq, append_assoc]

/-- What is restored without the extension. -/
lemma SteadyName.of_packed (h : SteadyName (backupPre ++ (r ++ xzExt))) : SteadyName r := by
  have hno (x : Str) (n : Nat) : r ≠ x ++ slash :: xzRun n := by
    intro heq
    refine absurd (h.xz (backupPre ++ x) n ?_) (backupPre_append_ne x)
    rw [heq, xzRun_succ]
    simp
  have hfull := full_of_norm h.of_backupPre.norm (by simp [xzExt, str])
  have hlast : r.getLast? ≠ some slash := by
    intro hlast
    obtain ⟨x, hx⟩ := getLast?_eq_some_iff.mp hlast
    exact hno x 0 hx
  exact ⟨normPath_eq_self_iff.mpr (full_of_append hfull hlast), fun x n heq =>
    absurd heq (hno x (n + 1))⟩

/-! ### Commands -/

variable {X : Xz} {c c' : Cpio}

lemma SteadyNames.mono (h : SteadyNames c) (hsub : ∀ name ∈ c'.entries, name ∈ c.entries) :
    SteadyNames c' := fun name hname => h name (hsub name hname)

lemma SteadyNames.insert (h : SteadyNames c) (hname : SteadyName name) (e : CpioEntry) :
    SteadyNames (c.insert name e) := by
  intro k hk
  rcases mem_insert.mp hk with heq | hk
  · rwa [← LawfulEqCmp.compare_eq_iff_eq.mp heq]
  · exact h k hk

lemma SteadyNames.union (h : SteadyNames c) (hm : ∀ name ∈ m, SteadyName name) :
    SteadyNames ⟨c.entries ∪ m⟩ := by
  intro k hk
  rcases mem_union_iff.mp hk with hk | hk
  · exact h k hk
  · exact hm k hk

lemma mem_insertMany {l : List (Str × CpioEntry)} (h : k ∈ m.insertMany l) :
    k ∈ m ∨ ∃ e, (k, e) ∈ l := by
  rw [ExtTreeMap.mem_insertMany_list, List.contains_iff_mem, List.mem_map] at h
  rcases h with h | ⟨⟨_, e⟩, hmem, rfl⟩
  · exact .inl h
  · exact .inr ⟨e, hmem⟩

lemma mem_of_getElem? (h : m[k]? = some e) : k ∈ m :=
  mem_iff_isSome_getElem?.mpr (by rw [h]; rfl)

lemma mem_of_mem_rm (h : name ∈ (c.rm path recursive).entries) : name ∈ c.entries := by
  rw [Cpio.rm] at h
  split at h
  · obtain ⟨hmem, -⟩ := mem_filter.mp h
    exact mem_of_mem_erase hmem
  · exact mem_of_mem_erase h

lemma steadyName_of_getLast? (hnorm : normPath name = name)
    (hlast : name.getLast? ≠ some (chr 'z')) :
    SteadyName name := by
  refine ⟨hnorm, fun x n heq => absurd ?_ hlast⟩
  rw [heq, xzRun_succ, ← cons_append, ← append_assoc,
    getLast?_append_of_ne_nil _ (by decide)]
  decide

/-- `backup` adds steady names. -/
lemma steady_backupMap
    (ho : ∀ name ∈ o.entries, reserved name = false ∧ name ≠ [] ∧ SteadyName name) :
    ∀ name ∈ backupMap X skipCompress o p, SteadyName name := by
  have hstored (name : Str) (e : CpioEntry) (hsaved : Saved o p name e) :
      SteadyName (stored X skipCompress name e).1 := by
    obtain ⟨hout, hne, hname⟩ := ho name (mem_of_getElem? hsaved.1)
    rcases stored_cases X skipCompress name e with ⟨packed, -, heq⟩ | heq <;> rw [heq]
    · exact hname.packed hne hout
    · exact hname.plain hne hout
  have hbase : ∀ name ∈ ((∅ : Entries).insert backupDir (plainEntry sIfdir [])).insertMany
      ((joined o p).filterMap (savedOf X skipCompress)), SteadyName name := by
    intro name hname
    rcases mem_insertMany hname with hname | ⟨e, hmem⟩
    · rcases mem_insert.mp hname with heq | hname
      · rw [← LawfulEqCmp.compare_eq_iff_eq.mp heq]
        exact steadyName_of_getLast? (by decide) (by decide)
      · exact absurd hname not_mem_empty
    · obtain ⟨name', e', hsaved, heq⟩ := (mem_saved X skipCompress).mp hmem
      have hst := hstored name' e' hsaved
      rwa [heq] at hst
  intro name hname
  rw [backupMap] at hname
  split at hname
  · exact hbase name hname
  · rcases mem_insert.mp hname with heq | hname
    · rw [← LawfulEqCmp.compare_eq_iff_eq.mp heq]
      exact steadyName_of_getLast? (by decide) (by decide)
    · exact hbase name hname

/-- What an entry is restored as. -/
lemma steady_restoreEntry (h : SteadyName (backupPre ++ r)) (e : CpioEntry) :
    SteadyName (restoreEntry X (backupPre ++ r) e).1 := by
  by_cases hxz : xzExt <:+ r
  · obtain ⟨r', rfl⟩ := exists_of_xzExt_suffix hxz
    cases hd : e.decompress X with
    | none =>
      rw [restoreEntry_of_decompress_none hd]
      exact h.of_backupPre
    | some e' =>
      rw [restoreEntry_of_decompress hd]
      exact h.of_packed
  · rw [restoreEntry_plain hxz]
    exact h.of_backupPre

/-- `restore` brings in steady names. -/
lemma SteadyNames.restore (h : SteadyNames c) : SteadyNames (c.restore X) := by
  have htaken : ∀ name ∈ (∅ : Entries).insertMany
      ((c.entries.toList.filter fun e => backupPre.isPrefixOf e.1).filterMap (takenOf X)),
      SteadyName name := by
    intro name hname
    rcases mem_insertMany hname with hname | ⟨e, hmem⟩
    · exact absurd hname not_mem_empty
    · obtain ⟨⟨path, entry⟩, hpath, htaken⟩ := mem_filterMap.mp hmem
      obtain ⟨hlist, hpre⟩ := mem_filter.mp hpath
      obtain ⟨r, rfl⟩ := isPrefixOf_iff_prefix.mp hpre
      have hmem := mem_of_getElem? (mem_toList_iff_getElem?_eq_some.mp hlist)
      rw [takenOf] at htaken
      split at htaken
      · cases htaken
      · have hsteady := steady_restoreEntry (X := X) (h _ hmem) entry
        rwa [some.inj htaken] at hsteady
  have hrest (names : List Str) (c' : Cpio) (hc' : SteadyNames c') :
      SteadyNames (names.foldl (fun c name => c.rm name false) c') := by
    induction names generalizing c' with
    | nil => exact hc'
    | cons name names ih => exact ih _ (hc'.mono fun _ => mem_of_mem_rm)
  rw [Cpio.restore, foldl_extract]
  split
  · exact fun name hname => absurd hname not_mem_empty
  · refine (hrest _ _ (h.mono fun name hname => ?_)).union htaken
    obtain ⟨hmem, -⟩ := mem_filter.mp (mem_of_mem_rm hname)
    exact hmem

lemma exists_of_add
    (h : c.add mode path file = some c') : ∃ e, c' = c.insert (normPath path) e := by
  rcases file with _ | data | ⟨major, minor⟩ | ⟨major, minor⟩ | _ <;>
    simp only [Cpio.add] at h <;> split at h <;> cases h <;> exact ⟨_, rfl⟩

/-- **One command** keeps the names steady if those that it brings in are. -/
lemma CpioCmd.Steady.run {cmd : CpioCmd} (hcmd : cmd.Steady) (h : SteadyNames c)
    (hrun : cmd.run X c = some c') : SteadyNames c' := by
  cases cmd with
  | rm path recursive =>
    cases hrun
    exact h.mono fun _ => mem_of_mem_rm
  | mv src dst =>
    rw [CpioCmd.run, Cpio.mv] at hrun
    split at hrun
    · cases hrun
    · cases hrun
      refine SteadyNames.insert (h.mono fun name hname => ?_) hcmd _
      exact mem_of_mem_erase hname
  | mkdir mode dir =>
    cases hrun
    exact h.insert hcmd _
  | ln src dst =>
    cases hrun
    exact h.insert hcmd _
  | add mode path file =>
    obtain ⟨e, rfl⟩ := exists_of_add hrun
    exact h.insert hcmd e
  | patch keepVerity keepForceEncrypt =>
    cases hrun
    exact h.mono fun name hname => (mem_filterMap.mp hname).1
  | backup origin skipCompress =>
    cases origin with
    | none => cases hrun
    | some data =>
      rw [CpioCmd.run] at hrun
      split at hrun
      · cases hrun
      · rename_i o ho
        cases hrun
        rw [backup_eq]
        refine (h.mono fun _ => mem_of_mem_rm).union (steady_backupMap fun name hname => ?_)
        have hout := outside_rm o name hname
        exact ⟨hout, hcmd o ho name (mem_of_mem_rm hname) hout⟩
  | restore =>
    cases hrun
    exact h.restore

/-- **In every state of a run** each name is normal, so that the entries that `ls` prints are
found, removed and extracted under the names it prints. -/
theorem names_reachable (X : Xz) {data : Str} {c : Cpio}
    (hload : ∀ c₀, loadFromData data = .ok c₀ → SteadyNames c₀)
    (h : (cpioSystem X data).Reach (fun _ cmd => cmd.Steady) c) :
    (∀ name ∈ c.entries, normPath name = name) ∧
      ∀ path recursive, ∀ name ∈ c.ls path recursive, c.existsEntry name = true ∧
        name ∉ (c.rm name false).entries ∧ ∃ e, c.extract name = some e := by
  have hsteady : SteadyNames c :=
    h.invariant hload fun c cmd c' hc hcmd hrun => hcmd.run hc hrun
  refine ⟨fun name hname => (hsteady name hname).norm, fun path recursive name hls => ?_⟩
  have hmem : name ∈ c.entries := mem_keys.mp (mem_of_mem_filter hls)
  have hnorm := (hsteady name hmem).norm
  refine ⟨?_, ?_, ?_⟩
  · rw [Cpio.existsEntry, hnorm]
    exact mem_iff_contains.mp hmem
  · simp [Cpio.rm, hnorm]
  · rw [Cpio.extract, hnorm]
    exact isSome_iff_exists.mp (mem_iff_isSome_getElem?.mp hmem)

lemma loadFromData_dump (hc : Dumpable c) : loadFromData c.dump = .ok c := by
  have hat : At c.dump 0 (dumps [(c, 0)]) := by
    rw [dumps, flatMap_singleton, replicate_zero, append_nil]
    exact At.zero _
  have hall : ∀ a ∈ [(c, 0)], Dumpable a.1 ∧ 4 ∣ a.2 :=
    forall_mem_singleton.mpr ⟨hc, Nat.dvd_zero 4⟩
  have hself : (∅ : Entries).insertMany c.entries.toList = c.entries := by
    refine ext_getElem? fun name => ?_
    rw [getElem?_insertMany_toList, getElem?_empty, or_none]
  rw [loadFromData, loadFrom_dumps hall hat (Nat.dvd_zero 4), foldl_cons, foldl_nil,
    hself]
  rfl

/-- `init` is loaded and a directory is made under a path that is not normal. -/
theorem names_reachable_mkdir :
    let c := (initArchive [1]).mkdir 0o755 (str "/a//b")
    (∀ name ∈ c.entries, normPath name = name) ∧
      ∀ path recursive, ∀ name ∈ c.ls path recursive, c.existsEntry name = true ∧
        name ∉ (c.rm name false).entries ∧ ∃ e, c.extract name = some e := by
  have hdump : Dumpable (initArchive [1]) := dumpable_initArchive (by decide)
  have hload := loadFromData_dump hdump
  refine names_reachable storeXz (fun c₀ h₀ name hname => ?_)
    (.step (a := .mkdir 0o755 (str "/a//b")) (.init hload) ?_ rfl)
  · cases hload.symm.trans h₀
    obtain rfl : str "init" = name := by simpa [initArchive] using hname
    exact steadyName_of_getLast? (by decide) (by decide)
  · exact steadyName_of_getLast? (by decide) (by decide)

/-- An archive of one file `/init`. -/
def absoluteArchive : Cpio := ⟨(∅ : Entries).insert (str "/init") ⟨0o100750, 0, 0, 0, 0, [1]⟩⟩

lemma mem_absoluteArchive : name ∈ absoluteArchive.entries ↔ str "/init" = name := by
  simp [absoluteArchive]

/-- The archive can be written. -/
lemma dumpable_absoluteArchive : Dumpable absoluteArchive where
  names := by
    intro name hname
    obtain rfl := mem_absoluteArchive.mp hname
    exact ⟨by decide, validUtf8_ascii (ascii_of_all (by decide)), by decide, by decide, by decide,
      by decide⟩
  fields := by
    intro name e he
    obtain rfl := mem_absoluteArchive.mp (mem_of_getElem? he)
    obtain rfl : (⟨0o100750, 0, 0, 0, 0, [1]⟩ : CpioEntry) = e := by
      simpa [absoluteArchive] using he
    exact ⟨Nat.two_pow_pos 32, Nat.two_pow_pos 32, by decide⟩
  size := by
    decide

/-- **The reader keeps the slash of `/init`**: `ls` prints the name, and no command finds it. -/
theorem names_absolute :
    ∃ data c, loadFromData data = .ok c ∧ str "/init" ∈ c.ls [] true ∧
      normPath (str "/init") ≠ str "/init" ∧ c.existsEntry (str "/init") = false ∧
      str "/init" ∈ (c.rm (str "/init") false).entries ∧ c.extract (str "/init") = none := by
  have hmem : str "/init" ∈ absoluteArchive.entries := mem_absoluteArchive.mpr rfl
  have hnot : str "init" ∉ absoluteArchive.entries := fun h =>
    absurd (mem_absoluteArchive.mp h) (by decide)
  refine ⟨_, _, loadFromData_dump dumpable_absoluteArchive, ?_, by decide, ?_, ?_, ?_⟩
  · exact mem_filter.mpr ⟨mem_keys.mpr hmem, by decide⟩
  · rw [Cpio.existsEntry]
    exact Bool.eq_false_iff.mpr fun h => hnot (mem_iff_contains.mpr h)
  · rw [Cpio.rm]
    exact mem_erase.mpr ⟨by decide, hmem⟩
  · rw [Cpio.extract]
    exact getElem?_eq_none hnot

end Magisk.Boot
