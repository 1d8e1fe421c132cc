import Magisk.Core.Deny.Root

/-!
# The index and the keys it points at

The elements of the index by app id are views of keys of `pkg_to_procs`.  A key
that was erased is followed by counting: every key has a generation, the number of
times it was erased, and every element of the index the generation of the key it
was made from.  An element is not replaced by an equal one.

* `IndexOk`: the index leads to packages with processes only;
* `Tracked`, `viewSystem`: the system with generations;
* `ViewsOk`: the index leads to processes, no missing entry is dereferenced, and
  no element is a view of an erased key;
* `ViewOk`: the steps that keep it so;
* `views_ok`: it is so after such steps, and no longer after any other one;
* `removed_after_uninstall`: a package is taken off the list after it was
  uninstalled.
-/

namespace Magisk.Core.Deny

open Magisk.Base Magisk.Lib Option Std ExtTreeMap

variable {l : Lists} {s : Daemon}

/-! ### The index leads to processes -/

/-- Every key has a process, and so has every package in the index. -/
def IndexOk (l : Lists) : Prop := NoEmptyKey l ∧ ∀ a q, l.Indexed a q → ∃ p, l.Entry q p

section IndexOk

variable {d : AppData} {pkg proc : Str}

lemma wellIndexed_iff_indexOk : WellIndexed d (fun _ _ => False) l ↔ IndexOk l :=
  ⟨fun h => ⟨h.noEmptyKey, h.entry_of_indexed⟩, fun h => ⟨h.1, h.2, fun _ _ _ _ hf => hf.elim⟩⟩

lemma IndexOk.addMem (h : IndexOk l) : IndexOk (addMem d l pkg proc).1 := by
  have hadd : WellIndexed d _ (Deny.addMem d l pkg proc).1 := (wellIndexed_iff_indexOk.mpr h).addMem
  exact ⟨hadd.noEmptyKey, hadd.entry_of_indexed⟩

lemma IndexOk.rmMem (h : IndexOk l)
    (hlast : RemovesLast l pkg proc → ∀ a, l.Indexed a pkg → d.Installed pkg a) :
    IndexOk (rmMem d l pkg proc).1 :=
  wellIndexed_iff_indexOk.mp ((wellIndexed_iff_indexOk (d := d).mpr h).rmMem hlast)

lemma IndexOk.of_eq (h : IndexOk l) (hprocs : l'.pkgToProcs = l.pkgToProcs)
    (hids : l'.appIdToPkgs = l.appIdToPkgs) (d : AppData) : IndexOk l' :=
  wellIndexed_iff_indexOk.mp ((wellIndexed_iff_indexOk (d := d).mpr h).of_eq hprocs hids)

lemma indexOk_scanDenyApps {s : Lists × List Row} (h : NoEmptyKey s.1) :
    IndexOk (scanDenyApps d s).1 :=
  wellIndexed_iff_indexOk.mp (wellIndexed_scanDenyApps h fun _ _ _ _ hf => hf.elim)

/-- The lists are in order once they are loaded. -/
def Clean (s : Daemon) : Prop := ∀ l, s.lists = some l → IndexOk l

lemma Clean.ensureData (h : Clean s) : IndexOk (ensureData d s).1 := by
  cases hl : s.lists with
  | none =>
    have hload := noEmptyKey_load s.db (l := .empty) fun q hq => by simp [Lists.empty] at hq
    simp only [Deny.ensureData, hl]
    exact indexOk_scanDenyApps hload
  | some l =>
    simp only [Deny.ensureData, hl]
    exact h l hl

/-- If `is_deny_target` comes to a missing entry, the index leads to it. -/
lemma exists_missing_of_isDenyTarget (h : l.isDenyTarget uid process = none) :
    toAppId uid < 90000 ∧ ∃ pkg, l.Indexed (toAppId uid) pkg ∧ pkg ∉ l.pkgToProcs := by
  by_cases hiso : 90000 ≤ toAppId uid
  · simp only [Lists.isDenyTarget, if_pos hiso] at h
    cases hprocs : l.pkgToProcs[isolatedMagic]? <;> simp [hprocs] at h
  · refine ⟨Int.not_le.mp hiso, ?_⟩
    simp only [Lists.isDenyTarget, if_neg hiso] at h
    cases hpkgs : l.appIdToPkgs[toAppId uid]? with
    | none =>
      rw [hpkgs] at h
      cases h
    | some pkgs =>
      rw [hpkgs] at h
      rcases anyProc_cases l process pkgs.toList with ⟨h', -⟩ | ⟨-, q, hq, hmissing⟩ | ⟨h', -⟩
      · cases h.symm.trans h'
      · exact ⟨q, ⟨pkgs, hpkgs, ExtTreeSet.mem_toList.mp hq⟩, hmissing⟩
      · cases h.symm.trans h'

lemma IndexOk.isDenyTarget (h : IndexOk l) (uid : Int) (process : Str) :
    l.isDenyTarget uid process ≠ none := by
  intro hnone
  obtain ⟨-, pkg, hidx, hmissing⟩ := exists_missing_of_isDenyTarget hnone
  obtain ⟨p, he⟩ := h.2 _ pkg hidx
  exact hmissing he.mem

end IndexOk

/-! ### The steps -/

/-- The steps that leave no view of an erased key behind: a package that loses its last
entry is installed under every app id it is indexed under. -/
def ViewOk (w : World) : Label → Prop
  | .rm pkg proc => ∀ l, w.daemon.lists = some l → RemovesLast l (cStr pkg) (cStr proc) →
      ∀ id, l.Indexed id (cStr pkg) → w.data.Installed (cStr pkg) id
  | _ => True

section Step

variable {w w' : World} {a : Label} {pkg proc : Str} {d : AppData}

section

variable (h : Clean w.daemon)

include h

lemma Clean.add :
    Clean (addList w.data w.daemon pkg proc).1 := by
  cases hv : validate pkg (addProc pkg proc) with
  | true =>
    intro l hl
    obtain rfl : _ = l := some.inj ((addList_eq hv).1.symm.trans hl)
    exact h.ensureData.addMem
  | false =>
    simp only [addList, hv]
    exact h

lemma Clean.rm (hok : ViewOk w (.rm pkg proc)) :
    Clean (rmList w.data w.daemon (cStr pkg) (cStr proc)).1 := by
  intro l hl
  obtain rfl : _ = l := some.inj (lists_rmList.symm.trans hl)
  refine h.ensureData.rmMem fun hlast id hidx => ?_
  cases hlists : w.daemon.lists with
  | none => exact installed_of_indexed_load hlists hidx
  | some l =>
    have hdata : (Deny.ensureData w.data w.daemon).1 = l := by simp [Deny.ensureData, hlists]
    rw [hdata] at hlast hidx
    exact hok l hlists hlast id hidx

lemma Clean.setLocked : Clean (setLocked w.data w.daemon pkg locked).1 := by
  by_cases hpkg : pkg = isolatedMagic
  · rw [Deny.setLocked, if_pos hpkg]
    exact h
  · intro l hl
    obtain ⟨l', hl', hprocs, hids⟩ := @lists_setLocked w.data w.daemon pkg locked hpkg
    obtain rfl : l' = l := some.inj (hl'.symm.trans hl)
    exact h.ensureData.of_eq hprocs hids w.data

lemma Clean.zygoteRestart : Clean (zygoteRestart w.data w.daemon) := by
  intro l hl
  cases hlists : w.daemon.lists with
  | none =>
    simp only [Deny.zygoteRestart, hlists] at hl
    cases hl
  | some l₀ =>
    simp only [Deny.zygoteRestart, hlists] at hl
    obtain rfl : _ = l := some.inj hl
    exact indexOk_scanDenyApps (h l₀ hlists).1

lemma Clean.loaded : Clean (loaded w.data w.daemon) := by
  intro l hl
  obtain rfl : _ = l := some.inj hl
  exact h.ensureData

/-- Every admitted step keeps the lists in order. -/
lemma Clean.step (hok : ViewOk w a) (hs : w.step a = some w') :
    Clean w'.daemon := by
  cases a with
  | add pkg proc =>
    have hadd : Clean (addList w.data w.daemon (cStr pkg) (cStr proc)).1 := h.add
    simp only [World.step] at hs
    split_ifs at hs <;> exact some.inj hs ▸ hadd
  | rm pkg proc => exact some.inj hs ▸ h.rm hok
  | setLocked pkg locked => exact some.inj hs ▸ h.setLocked
  | ls =>
    cases hs
    intro l hl
    obtain rfl : _ = l := some.inj hl
    exact indexOk_scanDenyApps h.ensureData.1
  | zygoteRestart => exact some.inj hs ▸ h.zygoteRestart
  | su uid =>
    cases hs
    simp only [rootAllowed]
    split_ifs
    · exact h
    · exact h.loaded
  | denyTarget uid process => exact some.inj hs ▸ h.loaded
  | install user pkg appId =>
    obtain ⟨d', -, rfl⟩ := map_eq_some_iff.mp hs
    exact h
  | uninstall user pkg => exact some.inj hs ▸ h

end

/-- The package goes with its last entry. -/
lemma rmMem_of_removesLast (h : RemovesLast l pkg proc) (he : l.Entry pkg p) :
    (rmMem d l pkg proc).1 = { l.updateAppId (d.getAppId pkg) pkg true with
      pkgToProcs := (l.updateAppId (d.getAppId pkg) pkg true).pkgToProcs.erase pkg } := by
  obtain ⟨hlock, hproc⟩ := h
  obtain ⟨procs, hprocs, hp⟩ := he
  have hmem : proc = [] ∨ proc ∈ procs :=
    hproc.imp_right fun hall => by rwa [← hall p ⟨procs, hprocs, hp⟩]
  rw [rmMem_of_removes hlock hprocs hmem, removed, if_pos (hproc.imp_right fun hall => ?_)]
  rw [ExtTreeSet.isEmpty_iff, ExtTreeSet.eq_empty_iff_forall_not_mem]
  intro q hq
  obtain ⟨hne, hq⟩ := ExtTreeSet.mem_erase.mp hq
  exact hne (LawfulEqCmp.compare_eq_iff_eq.mpr (hall q ⟨procs, hprocs, hq⟩).symm)

lemma installed_of_getAppId (h : 0 < d.getAppId pkg) : d.Installed pkg (d.getAppId pkg) := by
  rw [AppData.getAppId] at h ⊢
  split_ifs at h ⊢ with hpkg
  · exact absurd h (by decide)
  · exact installed_of_getAppIdOf h.ne'

/-- A package that goes while it is not installed under an app id it is indexed under stays
in the index. -/
lemma indexed_rm_of_not_installed (h : RemovesLast l pkg proc) (hok : IndexOk l) {id : Int}
    (hidx : l.Indexed id pkg) (hinst : ¬ d.Installed pkg id) :
    (rmMem d l pkg proc).1.Indexed id pkg ∧ pkg ∉ (rmMem d l pkg proc).1.pkgToProcs := by
  obtain ⟨p, he⟩ := hok.2 id pkg hidx
  rw [rmMem_of_removesLast h he]
  constructor
  · have hkept : (l.updateAppId (d.getAppId pkg) pkg true).Indexed id pkg := by
      rcases lt_or_ge 0 (d.getAppId pkg) with hpos | hneg
      · refine (Lists.indexed_updateAppId_remove hpos).mpr ⟨hidx, fun heq => hinst ?_⟩
        rw [heq.1]
        exact installed_of_getAppId hpos
      · rw [Lists.updateAppId_of_nonpos hneg]
        exact hidx
    exact hkept
  · intro hmem
    exact (mem_erase.mp hmem).1 (LawfulEqCmp.compare_eq_iff_eq.mpr rfl)

end Step

/-! ### Generations of keys -/

/-- Is the package a key? -/
def Daemon.keyed (s : Daemon) (pkg : Str) : Bool :=
  s.lists.any fun l => l.pkgToProcs.contains pkg

/-- Is the package in the index under the app id? -/
def Daemon.indexed (s : Daemon) (id : Int) (pkg : Str) : Bool :=
  s.lists.any fun l => (l.appIdToPkgs.getD id ∅).contains pkg

/-- The world, how often each key was erased, and the generation of the key that each
element of the index is a view of. -/
structure Tracked where
  world : World
  gen : Str → Nat
  refs : Int → Str → Nat

/-- A step, with the generations.  What was in the index before stays the view it was,
unless the step builds the index anew. -/
def Tracked.step (t : Tracked) (a : Label) : Option Tracked :=
  (t.world.step a).map fun w =>
    let gen pkg :=
      if t.world.daemon.keyed pkg && !w.daemon.keyed pkg then t.gen pkg + 1 else t.gen pkg
    { world := w
      gen := gen
      refs := fun id pkg =>
        if t.world.daemon.indexed id pkg && !rebuilds t.world.daemon a then t.refs id pkg
        else gen pkg }

/-- Runs start as those of the system without generations. -/
def viewSystem : System Tracked Label where
  init t := denySystem.init t.world
  step := Tracked.step

/-- The index is in order: it leads to processes, `is_deny_target` never dereferences a
missing entry, and no element is a view of an erased key. -/
structure ViewsOk (t : Tracked) : Prop where
  keys : ∀ l, t.world.daemon.lists = some l → ∀ id pkg, l.Indexed id pkg →
    ∃ procs, l.pkgToProcs[pkg]? = some procs ∧ procs.isEmpty = false
  defined : ∀ uid process, (isDenyTarget t.world.data t.world.daemon uid process).2 ≠ none
  live : ∀ l, t.world.daemon.lists = some l → ∀ id pkg, l.Indexed id pkg →
    t.refs id pkg = t.gen pkg

section Views

variable {t t' : Tracked} {a : Label}

lemma indexed_of_lists (hl : s.lists = some l) (id : Int) (pkg : Str) :
    s.indexed id pkg = true ↔ l.Indexed id pkg := by
  rw [Daemon.indexed, hl, any_some, ExtTreeSet.contains_iff_mem,
    getD_eq_getD_getElem?, Lists.Indexed]
  cases l.appIdToPkgs[id]? <;> simp

lemma keyed_of_lists (hl : s.lists = some l) (pkg : Str) :
    s.keyed pkg = true ↔ pkg ∈ l.pkgToProcs := by
  rw [Daemon.keyed, hl, any_some, contains_iff_mem]

/-- What the steps keep: lists that are in order, and views of live keys. -/
def ViewInv (t : Tracked) : Prop :=
  Clean t.world.daemon ∧
    ∀ id pkg, t.world.daemon.indexed id pkg = true → t.refs id pkg = t.gen pkg

lemma ViewInv.viewsOk (h : ViewInv t) : ViewsOk t where
  keys l hl id pkg hidx := by
    obtain ⟨p, procs, hprocs, hp⟩ := (h.1 l hl).2 id pkg hidx
    refine ⟨procs, hprocs, Bool.eq_false_iff.mpr fun hempty => ?_⟩
    rw [ExtTreeSet.isEmpty_iff.mp hempty] at hp
    exact ExtTreeSet.not_mem_empty hp
  defined uid process := (h.1.ensureData).isDenyTarget uid process
  live l hl id pkg hidx := h.2 id pkg ((indexed_of_lists hl id pkg).mpr hidx)

/-- An admitted step keeps the invariant. -/
lemma ViewInv.step (h : ViewInv t) (hok : ViewOk t.world a) (hs : t.step a = some t') :
    ViewInv t' := by
  obtain ⟨w, hw, rfl⟩ := map_eq_some_iff.mp hs
  have hclean : Clean w.daemon := h.1.step hok hw
  refine ⟨hclean, fun id pkg hidx => ?_⟩
  -- what is in the index is a key, so it was not erased by the step
  have hkey : w.daemon.keyed pkg = true := by
    cases hl : w.daemon.lists with
    | none =>
      rw [Daemon.indexed, hl] at hidx
      cases hidx
    | some l =>
      obtain ⟨p, hp⟩ := (hclean l hl).2 id pkg ((indexed_of_lists hl id pkg).mp hidx)
      exact (keyed_of_lists hl pkg).mpr hp.mem
  simp only [hkey, Bool.not_true, Bool.and_false, Bool.false_eq_true, if_false]
  split_ifs with hold
  · exact h.2 id pkg (Bool.and_eq_true _ _ ▸ hold).1
  · rfl

lemma viewInv_of_reach (h : viewSystem.Reach (fun t a => ViewOk t.world a) t) : ViewInv t := by
  refine h.invariant (fun t ht => ⟨fun l hl => ?_, fun id pkg hidx => ?_⟩)
    fun _ _ _ hinv hok hstep => hinv.step hok hstep
  · rw [ht.1] at hl
    cases hl
  · rw [Daemon.indexed, ht.1] at hidx
    cases hidx

/-- A step that is not admitted leaves a package in the index that is no key. -/
lemma not_viewsOk_of_not_viewOk (h : ViewInv t) (hbad : ¬ ViewOk t.world a)
    (hs : t.step a = some t') : ¬ ViewsOk t' := by
  obtain ⟨w, hw, rfl⟩ := map_eq_some_iff.mp hs
  cases a with
  | rm pkg proc =>
    simp only [ViewOk, not_forall] at hbad
    obtain ⟨l, hl, hlast, id, hidx, hinst⟩ := hbad
    cases hw
    have hdata : (ensureData t.world.data t.world.daemon).1 = l := by
      simp [ensureData, hl]
    obtain ⟨hkept, hgone⟩ := indexed_rm_of_not_installed hlast (h.1 l hl) hidx hinst
    intro hok
    obtain ⟨procs, hprocs, -⟩ := hok.keys _ lists_rmList id (cStr pkg) (hdata.symm ▸ hkept)
    rw [hdata] at hprocs
    exact hgone (mem_iff_isSome_getElem?.mpr (by rw [hprocs]; rfl))
  | _ => exact absurd trivial hbad

/-- **The index leads to live keys.**  In every run of admitted steps the index is in order;
and a further step leaves it so exactly if it is admitted too. -/
theorem views_ok (t : Tracked) (h : viewSystem.Reach (fun t a => ViewOk t.world a) t) :
    ViewsOk t ∧ ∀ a t', viewSystem.step t a = some t' → (ViewsOk t' ↔ ViewOk t.world a) := by
  have hinv := viewInv_of_reach h
  refine ⟨hinv.viewsOk, fun a t' hs => ⟨fun hok => ?_, fun hok => (hinv.step hok hs).viewsOk⟩⟩
  by_contra hbad
  exact not_viewsOk_of_not_viewOk hinv hbad hs hok

end Views

/-! ### A device with one app -/

/-- One app, an empty denylist, and no key erased yet. -/
def oneAppViews : Tracked := ⟨oneApp, fun _ => 0, fun _ _ => 0⟩

/-- The app is put on the denylist: the index leads to it. -/
theorem oneApp_viewsOk : ∃ t, viewSystem.step oneAppViews (.add (str "com.app") []) = some t ∧
    ViewsOk t ∧ t.world.daemon.indexed 10001 (str "com.app") = true := by
  obtain ⟨t, ht⟩ : ∃ t, viewSystem.step oneAppViews (.add (str "com.app") []) = some t := ⟨_, rfl⟩
  have hinit : viewSystem.Reach (fun t a => ViewOk t.world a) oneAppViews := .init ⟨rfl, rfl⟩
  have hadd : ViewOk oneAppViews.world (.add (str "com.app") []) := trivial
  refine ⟨t, ht, (views_ok t (.step hinit hadd ht)).1, ?_⟩
  cases ht
  decide

/-- The app is put on the denylist, uninstalled, and then taken off the list. -/
def uninstallSchedule : List Label :=
  [.add (str "com.app") [], .uninstall 0 (str "com.app"), .rm (str "com.app") []]

/-- The index still holds the app, under a view of the erased key, and a process with its
user id makes `is_deny_target` dereference the missing entry. -/
theorem removed_after_uninstall :
    ∃ t, viewSystem.Reach (fun _ _ => True) t ∧
      t.world.daemon.indexed 10001 (str "com.app") = true ∧
      t.world.daemon.keyed (str "com.app") = false ∧
      t.refs 10001 (str "com.app") ≠ t.gen (str "com.app") ∧
      (isDenyTarget t.world.data t.world.daemon 10001 (str "com.app")).2 = none ∧
      ¬ ViewsOk t := by
  have htest : (viewSystem.run oneAppViews uninstallSchedule).any (fun t =>
      t.world.daemon.indexed 10001 (str "com.app") && !t.world.daemon.keyed (str "com.app") &&
      decide (t.refs 10001 (str "com.app") ≠ t.gen (str "com.app")) &&
      decide ((isDenyTarget t.world.data t.world.daemon 10001 (str "com.app")).2 = none)) =
        true := by decide
  obtain ⟨t, ht, htest⟩ := (any_eq_true _ _).mp htest
  simp only [Bool.and_eq_true, Bool.not_eq_true', decide_eq_true_eq] at htest
  obtain ⟨⟨⟨hindexed, hkeyed⟩, hrefs⟩, hnone⟩ := htest
  exact ⟨t, .of_run (fun _ _ => trivial) (.init ⟨rfl, rfl⟩) ht, hindexed, hkeyed, hrefs, hnone,
    fun hok => hok.defined 10001 (str "com.app") hnone⟩

end Magisk.Core.Deny
