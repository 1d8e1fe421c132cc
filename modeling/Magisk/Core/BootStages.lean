import Magisk.Base.Str
import Mathlib.Tactic

/-!
# The boot stages

The daemon is asked to run `post_fs_data`, `late_start` and `boot_complete` by scripts of
`init`, in any order and any number of times.  A counter in the database, which outlives
the daemon, tells boots that end before `boot_complete`.

* `postFsData`, `lateStart`, `bootComplete`: the stages;
* `bootStageHandler`: which requests run a stage;
* `boot`, `bootAll`: the requests of a boot, and boot after boot;
* `stages_once_iff`: when no stage runs twice;
* `late_start_twice`: requests for which one does;
* `bootloop_counter`: what the counter counts, and what follows for safe mode.
-/

namespace Magisk.Core.BootStages

open Magisk.Base List

variable {es : List Event}

/-! ### Settings -/

/-- The keys of the settings. -/
inductive DbEntryKey where
  | suMntNs
  | denylistConfig
  | zygiskConfig
  | bootloopCount
  deriving DecidableEq

/-- The table of settings. -/
abbrev Settings := DbEntryKey → Option Int

/-- What the daemon knows of the device. -/
structure Device where
  sdkInt : Int
  isEmulator : Bool

/-- `set_db_setting`. -/
def setDbSetting (db : Settings) (key : DbEntryKey) (value : Int32) : Settings :=
  Function.update db key (some value.toInt)

/-- `get_db_setting`. -/
def getDbSetting (v : Device) (db : Settings) (key : DbEntryKey) : Int32 :=
  match db key with
  | some value => .ofInt value
  | none =>
    match key with
    | .suMntNs => 1
    | .denylistConfig => 0
    | .zygiskConfig => if v.isEmulator then 1 else 0
    | .bootloopCount => 0

/-! ### Stages -/

/-- The stages of a boot. -/
inductive Stage where
  | postFsData
  | lateStart
  | bootComplete
  deriving DecidableEq

/-- What the daemon does, as far as it can be seen. -/
inductive Event where
  | stage (stage : Stage)
  | mkdirSecureDir
  | safeModeCheck (safeMode : Bool)
  | disableModules
  | execCommonScripts (stage : Str)
  | execModuleScripts (stage : Str)
  | initializeDenylist
  | handleModules
  | cleanMounts
  | setupPreinitDir
  | resetZygisk (restore : Bool)
  deriving DecidableEq

/-- The flags of `BootState`. -/
structure BootState where
  postFsDataDone : Bool
  lateStartDone : Bool
  bootComplete : Bool
  safeMode : Bool

/-- The daemon, with the database and a record of what was done. -/
structure Daemon where
  state : BootState
  db : Settings
  zygiskEnabled : Bool
  moduleList : Bool
  events : List Event

/-- A daemon that has just started. -/
def Daemon.fresh (db : Settings) : Daemon := ⟨⟨false, false, false, false⟩, db, false, false, []⟩

/-- The daemon does something. -/
def Daemon.emit (d : Daemon) (events : List Event) : Daemon :=
  { d with events := d.events ++ events }

/-- What the system answers while a request is handled: `check_data`, whether the secure
directory exists, whether `setup_magisk_env` succeeds, and the triggers of safe mode
other than the counter. -/
structure Answers where
  checkData : Bool
  secureDir : Bool
  magiskEnv : Bool
  persistSafeMode : Bool
  roSafeMode : Bool
  keyCombo : Bool

/-- `post_fs_data`: should the boot be cut short? -/
def postFsData (v : Device) (a : Answers) (d : Daemon) : Daemon × Bool :=
  let d := d.emit [.stage .postFsData]
  if !a.secureDir && 24 ≤ v.sdkInt then (d, true)
  else
    let d := if a.secureDir then d else d.emit [.mkdirSecureDir]
    if !a.magiskEnv then (d, true)
    else
      let bootCnt := getDbSetting v d.db .bootloopCount
      let d := { d with db := setDbSetting d.db .bootloopCount (bootCnt + 1) }
      let safeMode := decide (2 ≤ bootCnt) || a.persistSafeMode || a.roSafeMode || a.keyCombo
      let d := d.emit [.safeModeCheck safeMode]
      if safeMode then
        let d := d.emit [.disableModules]
        ({ d with db := setDbSetting d.db .zygiskConfig 0 }, true)
      else
        let d := d.emit [.execCommonScripts (str "post-fs-data")]
        let d := { d with zygiskEnabled := getDbSetting v d.db .zygiskConfig ≠ 0 }
        let d := d.emit [.initializeDenylist, .handleModules]
        let d := { d with moduleList := true }
        (d.emit [.cleanMounts], false)

/-- `late_start`. -/
def lateStart (d : Daemon) : Daemon :=
  let d := d.emit [.stage .lateStart, .execCommonScripts (str "service")]
  if d.moduleList then d.emit [.execModuleScripts (str "service")] else d

/-- `boot_complete`. -/
def bootComplete (a : Answers) (d : Daemon) : Daemon :=
  let d := d.emit [.stage .bootComplete]
  let d := { d with db := setDbSetting d.db .bootloopCount 0 }
  let d := if a.secureDir then d else d.emit [.mkdirSecureDir]
  let d := d.emit [.setupPreinitDir]
  if d.zygiskEnabled then d.emit [.resetZygisk true] else d

/-! ### Requests -/

/-- The codes that `boot_stage_handler` knows, and the others. -/
inductive RequestCode where
  | postFsData
  | lateStart
  | bootComplete
  | other
  deriving DecidableEq

/-- A request, with the answers of the system while it is handled. -/
structure Request where
  code : RequestCode
  answers : Answers

/-- `boot_stage_handler`. -/
def bootStageHandler (v : Device) (d : Daemon) (r : Request) : Daemon :=
  match r.code with
  | .postFsData =>
    if r.answers.checkData && !d.state.postFsDataDone then
      let (d, safeMode) := postFsData v r.answers d
      let d := if safeMode then { d with state := { d.state with safeMode := true } } else d
      { d with state := { d.state with postFsDataDone := true } }
    else d
  | .lateStart =>
    if d.state.postFsDataDone && !d.state.safeMode then
      let d := lateStart d
      { d with state := { d.state with lateStartDone := true } }
    else d
  | .bootComplete =>
    if d.state.postFsDataDone then
      let d := { d with state := { d.state with bootComplete := true } }
      bootComplete r.answers d
    else d
  | .other => d

/-- The requests of a boot. -/
def boot (v : Device) (db : Settings) (rs : List Request) : Daemon :=
  rs.foldl (bootStageHandler v) (.fresh db)

/-- Boot after boot: the database they leave, and what was done in each. -/
def bootAll (v : Device) : Settings → List (List Request) → Settings × List (List Event)
  | db, [] => (db, [])
  | db, rs :: boots =>
    let d := boot v db rs
    let (db, logs) := bootAll v d.db boots
    (db, d.events :: logs)

/-! ### What a stage does -/

section Stages

variable {v : Device} {a : Answers} {d : Daemon} {db : Settings} {r : Request}

/-- Neither the start of a stage nor the check for safe mode. -/
def Event.Quiet : Event → Prop
  | .stage _ => False
  | .safeModeCheck _ => False
  | _ => True

/-- The value of the counter. -/
def bootloopCount (v : Device) (db : Settings) : Int := (getDbSetting v db .bootloopCount).toInt

lemma emit_emit (es es' : List Event) : (d.emit es).emit es' = d.emit (es ++ es') := by
  rw [Daemon.emit, Daemon.emit, Daemon.emit, append_assoc]

lemma lateStart_eq (d : Daemon) :
    ∃ es, (∀ e ∈ es, e.Quiet) ∧ lateStart d = d.emit (.stage .lateStart :: es) := by
  rw [lateStart]
  split_ifs
  · exact ⟨[.execCommonScripts (str "service"), .execModuleScripts (str "service")],
      by simp [Event.Quiet], emit_emit _ _⟩
  · exact ⟨[.execCommonScripts (str "service")], by simp [Event.Quiet], rfl⟩

lemma bootComplete_eq (a : Answers) (d : Daemon) :
    ∃ es, (∀ e ∈ es, e.Quiet) ∧ bootComplete a d =
      { d.emit (.stage .bootComplete :: es) with db := setDbSetting d.db .bootloopCount 0 } := by
  refine ⟨(if a.secureDir then [] else [.mkdirSecureDir]) ++ [.setupPreinitDir] ++
    (if d.zygiskEnabled then [.resetZygisk true] else []), ?_, ?_⟩
  · split_ifs <;> simp [Event.Quiet]
  · rw [bootComplete]
    cases ha : a.secureDir <;> cases hz : d.zygiskEnabled <;> simp [Daemon.emit, hz]

/-- `post_fs_data` stops at the environment, or it counts the boot and checks for safe
mode. -/
lemma postFsData_spec (v : Device) (a : Answers) (d : Daemon) :
    (∃ es, (∀ e ∈ es, e.Quiet) ∧
      postFsData v a d = (d.emit (.stage .postFsData :: es), true)) ∨
    ∃ es es' safeMode, (∀ e ∈ es, e.Quiet) ∧ (∀ e ∈ es', e.Quiet) ∧
      (safeMode = (decide (2 ≤ getDbSetting v d.db .bootloopCount) || a.persistSafeMode ||
        a.roSafeMode || a.keyCombo)) ∧
      (postFsData v a d).2 = safeMode ∧ (postFsData v a d).1.state = d.state ∧
      (postFsData v a d).1.events =
        d.events ++ (.stage .postFsData :: es ++ .safeModeCheck safeMode :: es') ∧
      (postFsData v a d).1.db .bootloopCount =
        some (getDbSetting v d.db .bootloopCount + 1).toInt := by
  set es : List Event := if a.secureDir then [] else [.mkdirSecureDir] with hes
  have hquiet : ∀ e ∈ es, e.Quiet := by
    rw [hes]
    split_ifs <;> simp [Event.Quiet]
  have hdir : (if a.secureDir then d.emit [.stage .postFsData]
      else (d.emit [.stage .postFsData]).emit [.mkdirSecureDir]) =
        d.emit (.stage .postFsData :: es) := by
    rw [hes]
    split_ifs
    · rfl
    · exact emit_emit _ _
  simp only [postFsData, hdir]
  split_ifs with hmissing henv hsafe
  · exact .inl ⟨[], by simp, rfl⟩
  · exact .inl ⟨es, hquiet, rfl⟩
  · refine .inr ⟨es, [.disableModules], true, hquiet, by simp [Event.Quiet], hsafe.symm, rfl, rfl,
      ?_, ?_⟩
    · rw [hsafe]
      simp [Daemon.emit]
    · simp [Daemon.emit, setDbSetting]
  · rw [Bool.not_eq_true] at hsafe
    refine .inr ⟨es, [.execCommonScripts (str "post-fs-data"), .initializeDenylist,
      .handleModules, .cleanMounts], false, hquiet, by simp [Event.Quiet], hsafe.symm, rfl, rfl,
      ?_, ?_⟩
    · rw [hsafe]
      simp [Daemon.emit]
    · simp [Daemon.emit, setDbSetting]

/-- A request that asks for `post_fs_data` at a time when there is a data partition. -/
def Request.Effective (r : Request) : Prop :=
  r.code = .postFsData ∧ r.answers.checkData = true

instance (r : Request) : Decidable r.Effective := inferInstanceAs (Decidable (_ ∧ _))

lemma bootStageHandler_fresh (h : ¬ r.Effective) :
    bootStageHandler v (.fresh db) r = .fresh db := by
  rw [bootStageHandler]
  cases hcode : r.code with
  | postFsData =>
    have hdata : r.answers.checkData = false := by
      rw [← Bool.not_eq_true]
      exact fun hdata => h ⟨hcode, hdata⟩
    simp [hdata]
  | _ => rfl

lemma postFsData_state (v : Device) (a : Answers) (d : Daemon) :
    (postFsData v a d).1.state = d.state := by
  rcases postFsData_spec v a d with ⟨es, -, heq⟩ | ⟨_, _, _, -, -, -, -, hstate, -⟩
  · rw [heq]
    rfl
  · exact hstate

lemma bootStageHandler_effective (v : Device) (db : Settings) (h : r.Effective) :
    bootStageHandler v (.fresh db) r = { (postFsData v r.answers (.fresh db)).1 with
      state := ⟨true, false, false, (postFsData v r.answers (.fresh db)).2⟩ } := by
  have hstate := postFsData_state v r.answers (.fresh db)
  rw [bootStageHandler, h.1]
  rw [if_pos (by rw [h.2]; rfl)]
  generalize postFsData v r.answers (.fresh db) = p at hstate ⊢
  obtain ⟨⟨state, _, _, _, _⟩, _ | _⟩ := p <;> obtain rfl : state = _ := hstate <;> rfl

/-- The stage that a request runs after that. -/
def Request.nextStage (r : Request) (safeMode : Bool) : Option Stage :=
  match r.code with
  | .lateStart => if safeMode then none else some .lateStart
  | .bootComplete => some .bootComplete
  | _ => none

/-- It is run, and the two flags that decide about requests stay. -/
lemma bootStageHandler_done (v : Device) (r : Request) (h : d.state.postFsDataDone = true) :
    ∃ es, (∀ e ∈ es, e.Quiet) ∧
      (bootStageHandler v d r).events =
        d.events ++ ((r.nextStage d.state.safeMode).toList.map .stage ++ es) ∧
      (bootStageHandler v d r).db = (if r.nextStage d.state.safeMode = some .bootComplete then
        setDbSetting d.db .bootloopCount 0 else d.db) ∧
      (bootStageHandler v d r).state.postFsDataDone = true ∧
      (bootStageHandler v d r).state.safeMode = d.state.safeMode := by
  rw [Request.nextStage, bootStageHandler]
  cases hcode : r.code with
  | postFsData =>
    simp only [h, Bool.not_true, Bool.and_false, Bool.false_eq_true, if_false]
    exact ⟨[], nofun, (append_nil _).symm, rfl, trivial, trivial⟩
  | lateStart =>
    cases hsafe : d.state.safeMode with
    | true =>
      simp only [Bool.not_true, Bool.and_false]
      exact ⟨[], nofun, (append_nil _).symm, rfl, h, hsafe⟩
    | false =>
      obtain ⟨es, hes, hrun⟩ := lateStart_eq d
      simp only [h, hrun]
      exact ⟨es, hes, rfl, rfl, h, hsafe⟩
  | bootComplete =>
    obtain ⟨es, hes, hrun⟩ :=
      bootComplete_eq r.answers { d with state := { d.state with bootComplete := true } }
    rw [if_pos h, hrun]
    exact ⟨es, hes, rfl, rfl, h, rfl⟩
  | other => exact ⟨[], nofun, (append_nil _).symm, rfl, h, rfl⟩

/-- The request that runs `post_fs_data`, and those after it. -/
def afterPostFsData : List Request → Option (Request × List Request)
  | [] => none
  | r :: rs => if r.Effective then some (r, rs) else afterPostFsData rs

lemma afterPostFsData_eq_some {rs after : List Request} (h : afterPostFsData rs = some (r, after)) :
    r.Effective ∧ r ∈ rs := by
  induction rs with
  | nil => cases h
  | cons r' rs ih =>
    rw [afterPostFsData] at h
    split_ifs at h with heff
    · cases h
      exact ⟨heff, .head _⟩
    · exact ⟨(ih h).1, .tail _ (ih h).2⟩

lemma boot_eq (v : Device) (db : Settings) (rs : List Request) :
    boot v db rs = match afterPostFsData rs with
      | none => .fresh db
      | some (r, after) => after.foldl (bootStageHandler v) (bootStageHandler v (.fresh db) r) := by
  rw [boot]
  induction rs with
  | nil => rfl
  | cons r rs ih =>
    rw [foldl_cons, afterPostFsData]
    split_ifs with heff
    · rfl
    · rw [bootStageHandler_fresh heff, ih]

end Stages

/-! ### Each stage once -/

section Once

variable {v : Device} {d : Daemon} {db : Settings} {r : Request}

/-- How often a stage has run. -/
def Daemon.runs (d : Daemon) (stage : Stage) : Nat := d.events.count (.stage stage)

lemma count_stage_quiet (h : ∀ e ∈ es, e.Quiet) (stage : Stage) : es.count (.stage stage) = 0 :=
  count_eq_zero.mpr fun hmem => h _ hmem

lemma runs_postFsData (v : Device) (a : Answers) (d : Daemon) (stage : Stage) :
    (postFsData v a d).1.runs stage = d.runs stage + if .postFsData = stage then 1 else 0 := by
  rcases postFsData_spec v a d with
    ⟨es, hes, heq⟩ | ⟨es, es', safeMode, hes, hes', -, -, -, hevents, -⟩
  · rw [heq, Daemon.runs, Daemon.emit, count_append, count_cons, count_stage_quiet hes]
    simp [Daemon.runs]
  · rw [Daemon.runs, hevents, cons_append, count_append, count_cons,
      count_append, count_cons, count_stage_quiet hes, count_stage_quiet hes']
    simp [Daemon.runs]

/-- The requests after it run what they are for. -/
lemma runs_done (v : Device) (rs : List Request) (stage : Stage)
    (h : d.state.postFsDataDone = true) :
    (rs.foldl (bootStageHandler v) d).runs stage =
      d.runs stage + rs.countP (·.nextStage d.state.safeMode = some stage) := by
  induction rs generalizing d with
  | nil => rfl
  | cons r rs ih =>
    obtain ⟨es, hes, hevents, -, hdone, hsafe⟩ := bootStageHandler_done v r h
    have hrun : (bootStageHandler v d r).runs stage =
        d.runs stage + if r.nextStage d.state.safeMode = some stage then 1 else 0 := by
      rw [Daemon.runs, hevents, count_append, count_append, count_stage_quiet hes]
      cases r.nextStage d.state.safeMode with
      | none => simp [Daemon.runs]
      | some stage' => simp [Daemon.runs, count_singleton]
    rw [foldl_cons, ih hdone, hsafe, countP_cons]
    simp only [decide_eq_true_eq]
    omega

/-- Requests for which each stage runs once: after the one that runs `post_fs_data`, at most
one is for `boot_complete`, and at most one for `late_start` unless the boot is cut
short. -/
def AtMostOnce (v : Device) (db : Settings) (rs : List Request) : Prop :=
  ∀ r after, afterPostFsData rs = some (r, after) →
    after.countP (·.code = .bootComplete) ≤ 1 ∧
      ((postFsData v r.answers (.fresh db)).2 = false → after.countP (·.code = .lateStart) ≤ 1)

lemma nextStage_bootComplete (r : Request) (safeMode : Bool) :
    r.nextStage safeMode = some .bootComplete ↔ r.code = .bootComplete := by
  rw [Request.nextStage]
  cases r.code <;> cases safeMode <;> simp

lemma nextStage_lateStart (r : Request) (safeMode : Bool) :
    r.nextStage safeMode = some .lateStart ↔ safeMode = false ∧ r.code = .lateStart := by
  rw [Request.nextStage]
  cases r.code <;> cases safeMode <;> simp

lemma nextStage_ne_postFsData (r : Request) (safeMode : Bool) :
    r.nextStage safeMode ≠ some .postFsData := by
  rw [Request.nextStage]
  cases r.code <;> cases safeMode <;> simp

/-- How often each stage runs in a boot. -/
lemma runs_boot {rs after : List Request} (h : afterPostFsData rs = some (r, after))
    (stage : Stage) :
    (boot v db rs).runs stage = (if .postFsData = stage then 1 else 0) +
      after.countP (·.nextStage (postFsData v r.answers (.fresh db)).2 = some stage) := by
  have hstart := bootStageHandler_effective v db (afterPostFsData_eq_some h).1
  have hdone : (bootStageHandler v (.fresh db) r).state.postFsDataDone = true := by rw [hstart]
  have hsafe : (bootStageHandler v (.fresh db) r).state.safeMode =
      (postFsData v r.answers (.fresh db)).2 := by rw [hstart]
  have hruns : (bootStageHandler v (.fresh db) r).runs stage =
      (postFsData v r.answers (.fresh db)).1.runs stage := by rw [hstart]; rfl
  rw [boot_eq, h]
  rw [runs_done v after stage hdone, hsafe, hruns, runs_postFsData]
  simp [Daemon.runs, Daemon.fresh]

/-- **When each stage runs at most once.** -/
theorem stages_once_iff (v : Device) (db : Settings) (rs : List Request) :
    (∀ stage, (boot v db rs).runs stage ≤ 1) ↔ AtMostOnce v db rs := by
  cases hafter : afterPostFsData rs with
  | none =>
    refine iff_of_true (fun stage => ?_) fun r after h => ?_
    · rw [boot_eq, hafter]
      exact Nat.zero_le _
    · cases hafter.symm.trans h
  | some p =>
    obtain ⟨r, after⟩ := p
    have hpost : (boot v db rs).runs .postFsData = 1 := by
      simp [runs_boot hafter, nextStage_ne_postFsData]
    have hboot : (boot v db rs).runs .bootComplete = after.countP (·.code = .bootComplete) := by
      simp [runs_boot hafter, nextStage_bootComplete]
    have hlate : (boot v db rs).runs .lateStart =
        if (postFsData v r.answers (.fresh db)).2 then 0
        else after.countP (·.code = .lateStart) := by
      simp only [runs_boot hafter, nextStage_lateStart]
      split_ifs <;> simp_all
    constructor
    · intro h r' after' h'
      cases hafter.symm.trans h'
      refine ⟨hboot ▸ h .bootComplete, fun hsafe => ?_⟩
      have hone := h .lateStart
      rwa [hlate, hsafe, if_neg Bool.false_ne_true] at hone
    · intro h stage
      obtain ⟨hboots, hlates⟩ := h r after hafter
      cases stage with
      | postFsData => exact Nat.le_of_eq hpost
      | bootComplete => exact hboot ▸ hboots
      | lateStart =>
        rw [hlate]
        split_ifs with hsafe
        · exact Nat.zero_le 1
        · exact hlates (Bool.not_eq_true _ ▸ hsafe)

/-- Everything is in place, and nothing triggers safe mode. -/
def allWell : Answers := ⟨true, true, true, false, false, false⟩

/-- `init` asks for `late_start` twice, by the two triggers that `inject_magisk_rc` gives to
`--service`, and for `boot_complete` each time `sys.boot_completed` is set. -/
def repeatedRequests : List Request :=
  [⟨.postFsData, allWell⟩, ⟨.lateStart, allWell⟩, ⟨.lateStart, allWell⟩,
    ⟨.bootComplete, allWell⟩, ⟨.bootComplete, allWell⟩]

/-- Both stages run twice. -/
theorem late_start_twice :
    (boot ⟨34, false⟩ (fun _ => none) repeatedRequests).runs .lateStart = 2 ∧
      (boot ⟨34, false⟩ (fun _ => none) repeatedRequests).runs .bootComplete = 2 := by
  decide

end Once

/-! ### The bootloop counter -/

section Counter

variable {v : Device} {d : Daemon} {db : Settings} {r : Request} {n : Nat}

/-- The runs of `post_fs_data` past the environment check since the last `boot_complete`, where
`n` of them were before. -/
def runsSince (n : Nat) (log : List Event) : Nat :=
  log.foldl (fun n e =>
    match e with
    | .safeModeCheck _ => n + 1
    | .stage .bootComplete => 0
    | _ => n) n

lemma bootloopCount_of_eq {value : Int32} (h : db .bootloopCount = some value.toInt) :
    bootloopCount v db = value.toInt := by
  rw [bootloopCount, getDbSetting, h]
  exact congrArg Int32.toInt (Int32.ofInt_toInt value)

lemma runsSince_append (n : Nat) (l l' : List Event) :
    runsSince n (l ++ l') = runsSince (runsSince n l) l' := foldl_append

lemma runsSince_quiet (h : ∀ e ∈ es, e.Quiet) (n : Nat) : runsSince n es = n := by
  induction es with
  | nil => rfl
  | cons e es ih =>
    have he := h e (.head _)
    have hes := ih fun e' he' => h e' (.tail _ he')
    cases e with
    | stage _ => exact he.elim
    | safeModeCheck _ => exact he.elim
    | _ => exact hes

/-- There is no check for safe mode among the events. -/
def NoCheck (es : List Event) : Prop := ∀ safeMode, .safeModeCheck safeMode ∉ es

lemma runsSince_le (h : NoCheck es) (n : Nat) : runsSince n es ≤ n := by
  induction es generalizing n with
  | nil => exact Nat.le_refl n
  | cons e es ih =>
    have hes := ih fun safeMode hmem => h safeMode (.tail _ hmem)
    cases e with
    | safeModeCheck safeMode => exact absurd (.head _) (h safeMode)
    | stage stage =>
      cases stage with
      | bootComplete => exact Nat.le_trans (hes 0) (Nat.zero_le n)
      | _ => exact hes n
    | _ => exact hes n

/-- Each check for safe mode in the log finds it if there were two runs before. -/
def ChecksOk (n : Nat) (log : List Event) : Prop :=
  ∀ pre safeMode post, log = pre ++ .safeModeCheck safeMode :: post →
    (safeMode = true ↔ 2 ≤ runsSince n pre)

lemma NoCheck.checksOk (h : NoCheck log) (n : Nat) : ChecksOk n log := by
  rintro pre safeMode post rfl
  exact absurd (mem_append_right _ (.head _)) (h safeMode)

/-- One log after another. -/
lemma ChecksOk.append (h : ChecksOk n l) (h' : ChecksOk (runsSince n l) l') :
    ChecksOk n (l ++ l') := by
  intro pre safeMode post heq
  rcases append_eq_append_iff.mp heq with ⟨k, rfl, hl'⟩ | ⟨k, rfl, hk⟩
  · rw [runsSince_append]
    exact h' k safeMode post hl'
  · cases k with
    | nil =>
      rw [append_nil] at h'
      exact h' [] safeMode post hk.symm
    | cons e k =>
      obtain ⟨rfl, -⟩ := cons.inj hk
      exact h pre safeMode k rfl

lemma checksOk_singleton (h : safeMode = true ↔ 2 ≤ n) : ChecksOk n [.safeModeCheck safeMode] := by
  intro pre safeMode' post heq
  cases pre with
  | nil =>
    obtain ⟨hcheck, -⟩ := cons.inj heq
    obtain rfl := Event.safeModeCheck.inj hcheck
    exact h
  | cons e pre => simp at heq

lemma noCheck_quiet (h : ∀ e ∈ es, e.Quiet) : NoCheck es :=
  fun _ hmem => h _ hmem

/-- After `post_fs_data`, a request changes the counter as it should, makes no check, and
does not run `late_start` if the boot is cut short. -/
lemma counter_step (r : Request) (h : d.state.postFsDataDone = true)
    (hn : bootloopCount v d.db = n) :
    ∃ es, (bootStageHandler v d r).events = d.events ++ es ∧ NoCheck es ∧
      bootloopCount v (bootStageHandler v d r).db = runsSince n es ∧
      (d.state.safeMode = true → .stage .lateStart ∉ es) := by
  obtain ⟨es, hes, hevents, hdb, -⟩ := bootStageHandler_done v r h
  refine ⟨_, hevents, fun safeMode hmem => ?_, ?_, fun hsafe hmem => ?_⟩
  · rcases mem_append.mp hmem with hstage | hquiet
    · obtain ⟨stage, -, heq⟩ := mem_map.mp hstage
      cases heq
    · exact hes _ hquiet
  · rw [hdb, runsSince_append, runsSince_quiet hes]
    cases r.nextStage d.state.safeMode with
    | none => exact hn
    | some stage =>
      cases stage with
      | bootComplete =>
        have hreset : setDbSetting d.db .bootloopCount 0 .bootloopCount =
            some (0 : Int32).toInt := Function.update_self _ _ _
        exact bootloopCount_of_eq hreset
      | _ => exact hn
  · rcases mem_append.mp hmem with hstage | hquiet
    · obtain ⟨stage, hnext, heq⟩ := mem_map.mp hstage
      obtain rfl := Event.stage.inj heq
      have hlate := (nextStage_lateStart r _).mp (Option.mem_toList.mp hnext)
      exact Bool.false_ne_true (hlate.1.symm.trans hsafe)
    · exact hes _ hquiet

/-- So do all requests after it. -/
lemma counter_done (rs : List Request) (h : d.state.postFsDataDone = true)
    (hn : bootloopCount v d.db = n) :
    ∃ es, (rs.foldl (bootStageHandler v) d).events = d.events ++ es ∧ NoCheck es ∧
      bootloopCount v (rs.foldl (bootStageHandler v) d).db = runsSince n es ∧
      (d.state.safeMode = true → .stage .lateStart ∉ es) := by
  induction rs generalizing d n with
  | nil => exact ⟨[], (append_nil _).symm, nofun, hn, nofun⟩
  | cons r rs ih =>
    obtain ⟨es, hevents, hcheck, hcount, hlate⟩ := counter_step r h hn
    obtain ⟨-, -, -, -, hdone, hsafe⟩ := bootStageHandler_done v r h
    obtain ⟨es', hevents', hcheck', hcount', hlate'⟩ := ih hdone hcount
    refine ⟨es ++ es', ?_, fun safeMode hmem => ?_, ?_, fun hcut hmem => ?_⟩
    · rw [foldl_cons, hevents', hevents, append_assoc]
    · exact (mem_append.mp hmem).elim (hcheck safeMode) (hcheck' safeMode)
    · rw [foldl_cons, hcount', runsSince_append]
    · exact (mem_append.mp hmem).elim (hlate hcut) (hlate' (hsafe.trans hcut))

/-- Nothing but the counter triggers safe mode. -/
def Answers.NoTrigger (a : Answers) : Prop :=
  a.persistSafeMode = false ∧ a.roSafeMode = false ∧ a.keyCombo = false

/-- What a log says of a boot that began with `n` runs: its checks are right, there is at
most one, and `late_start` does not run in safe mode. -/
structure LogOk (n : Nat) (log : List Event) : Prop where
  checks : ChecksOk n log
  atMostOne : runsSince n log ≤ n + 1
  noLateStart : .safeModeCheck true ∈ log → .stage .lateStart ∉ log

lemma toInt_add_one {x : Int32} (hx : x.toInt = n) (hn : n + 1 < 2 ^ 31) :
    (x + 1).toInt = (n + 1 : Nat) := by
  have hone : (1 : Int32).toInt = 1 := rfl
  rw [Int32.toInt_add, hx, Int.bmod_eq_of_le (by omega) (by omega)]
  rfl

section Checked

variable {es' : List Event} {safeMode : Bool}

lemma runsSince_checked (hes : ∀ e ∈ es, e.Quiet) (hes' : ∀ e ∈ es', e.Quiet) (safeMode : Bool)
    (n : Nat) :
    runsSince n (.stage .postFsData :: es ++ .safeModeCheck safeMode :: es') = n + 1 := by
  have hpre : runsSince n (.stage .postFsData :: es) = n := runsSince_quiet hes n
  rw [runsSince_append, hpre]
  exact runsSince_quiet hes' (n + 1)

lemma noCheck_postFsData (hes : ∀ e ∈ es, e.Quiet) : NoCheck (.stage .postFsData :: es) := by
  rintro safeMode (_ | ⟨_, hmem⟩)
  exact hes _ hmem

lemma checksOk_checked (hes : ∀ e ∈ es, e.Quiet) (hes' : ∀ e ∈ es', e.Quiet)
    (h : safeMode = true ↔ 2 ≤ n) :
    ChecksOk n (.stage .postFsData :: es ++ .safeModeCheck safeMode :: es') := by
  have hcount : runsSince n (.stage .postFsData :: es) = n := runsSince_quiet hes n
  have hcheck := (checksOk_singleton h).append ((noCheck_quiet hes').checksOk _)
  refine ((noCheck_postFsData hes).checksOk n).append ?_
  rw [hcount]
  exact hcheck

lemma mem_checked (hes : ∀ e ∈ es, e.Quiet) (hes' : ∀ e ∈ es', e.Quiet)
    (he : e ∈ Event.stage .postFsData :: es ++ .safeModeCheck safeMode :: es') :
    e = .stage .postFsData ∨ e = .safeModeCheck safeMode ∨ e.Quiet := by
  rcases mem_append.mp he with (_ | ⟨_, hq⟩) | (_ | ⟨_, hq⟩)
  · exact .inl rfl
  · exact .inr (.inr (hes e hq))
  · exact .inr (.inl rfl)
  · exact .inr (.inr (hes' e hq))

lemma lateStart_notMem_checked (hes : ∀ e ∈ es, e.Quiet) (hes' : ∀ e ∈ es', e.Quiet)
    (safeMode : Bool) :
    .stage .lateStart ∉ Event.stage .postFsData :: es ++ .safeModeCheck safeMode :: es' := by
  intro hstage
  rcases mem_checked hes hes' hstage with h | h | h
  · cases h
  · cases h
  · exact h

lemma safeMode_of_mem_checked (hes : ∀ e ∈ es, e.Quiet) (hes' : ∀ e ∈ es', e.Quiet)
    (hfound : .safeModeCheck true ∈
      Event.stage .postFsData :: es ++ .safeModeCheck safeMode :: es') : safeMode = true := by
  rcases mem_checked hes hes' hfound with h | h | h
  · cases h
  · exact (Event.safeModeCheck.inj h).symm
  · exact h.elim

end Checked

lemma Answers.NoTrigger.check_iff {a : Answers} (h : a.NoTrigger) (hn : bootloopCount v db = n) :
    (decide (2 ≤ getDbSetting v db .bootloopCount) || a.persistSafeMode || a.roSafeMode ||
      a.keyCombo) = true ↔ 2 ≤ n := by
  obtain ⟨hpersist, hro, hkey⟩ := h
  have hle : (2 : Int32) ≤ getDbSetting v db .bootloopCount ↔ (2 : Int) ≤ n := by
    rw [Int32.le_iff_toInt_le, ← hn]
    rfl
  rw [hpersist, hro, hkey, Bool.or_false, Bool.or_false, Bool.or_false, decide_eq_true_eq]
  exact hle.trans Nat.ofNat_le_cast

/-- The request that runs `post_fs_data`: the log says what the counter is, and if it found
safe mode the boot is cut short. -/
lemma counter_effective (heff : r.Effective) (hn : bootloopCount v db = n) (hlt : n + 1 < 2 ^ 31)
    (htrigger : r.answers.NoTrigger) :
    bootloopCount v (bootStageHandler v (.fresh db) r).db =
        runsSince n (bootStageHandler v (.fresh db) r).events ∧
      LogOk n (bootStageHandler v (.fresh db) r).events ∧
      .stage .lateStart ∉ (bootStageHandler v (.fresh db) r).events ∧
      (.safeModeCheck true ∈ (bootStageHandler v (.fresh db) r).events →
        (bootStageHandler v (.fresh db) r).state.safeMode = true) := by
  rw [bootStageHandler_effective v db heff]
  rcases postFsData_spec v r.answers (.fresh db) with
    ⟨es, hes, hrun⟩ | ⟨es, es', safeMode, hes, hes', hcheck, hcut, -, hevents, hcount⟩
  · -- it stops at the environment, and the counter is not touched
    have hno : NoCheck (.stage .postFsData :: es) := noCheck_postFsData hes
    have hlate : .stage .lateStart ∉ Event.stage .postFsData :: es := by
      rintro (_ | ⟨_, hmem⟩)
      exact hes _ hmem
    have hsame : runsSince n (.stage .postFsData :: es) = n := runsSince_quiet hes n
    rw [hrun]
    refine ⟨?_, ⟨hno.checksOk n, ?_, fun hmem => absurd hmem (hno true)⟩, hlate, fun _ => rfl⟩
    · exact hn.trans (congrArg _ hsame.symm)
    · exact hsame.trans_le (Nat.le_succ n)
  · have htwo : safeMode = true ↔ 2 ≤ n := by
      rw [hcheck]
      exact htrigger.check_iff hn
    have hruns := runsSince_checked hes hes' safeMode n
    have hlate := lateStart_notMem_checked hes hes' safeMode
    have hnext : bootloopCount v (postFsData v r.answers (.fresh db)).1.db = (n + 1 : Nat) :=
      (bootloopCount_of_eq hcount).trans (toInt_add_one hn hlt)
    rw [hevents, hcut]
    exact ⟨hnext.trans (congrArg _ hruns.symm), ⟨checksOk_checked hes hes' htwo, hruns.le,
      fun _ => hlate⟩, hlate, safeMode_of_mem_checked hes hes'⟩

/-- One boot. -/
lemma counter_boot (hn : bootloopCount v db = n) (hlt : n + 1 < 2 ^ 31)
    (htrigger : ∀ r ∈ rs, r.answers.NoTrigger) :
    bootloopCount v (boot v db rs).db = runsSince n (boot v db rs).events ∧
      LogOk n (boot v db rs).events := by
  rw [boot_eq]
  cases hafter : afterPostFsData rs with
  | none => exact ⟨hn, NoCheck.checksOk (fun _ => not_mem_nil) n, Nat.le_succ n, nofun⟩
  | some p =>
    obtain ⟨r, after⟩ := p
    obtain ⟨heff, hr⟩ := afterPostFsData_eq_some hafter
    obtain ⟨hcount, hlog, hlate, hsafe⟩ := counter_effective heff hn hlt (htrigger r hr)
    have hdone : (bootStageHandler v (.fresh db) r).state.postFsDataDone = true := by
      rw [bootStageHandler_effective v db heff]
    obtain ⟨es, hevents, hno, hcount', hlate'⟩ := counter_done after hdone hcount
    rw [hevents, hcount', runsSince_append]
    refine ⟨rfl, hlog.checks.append (hno.checksOk _), ?_, fun hmem hstage => ?_⟩
    · rw [runsSince_append]
      exact (runsSince_le hno _).trans hlog.atMostOne
    · have hcut := (mem_append.mp hmem).elim hsafe fun hcheck => absurd hcheck (hno true)
      exact (mem_append.mp hstage).elim hlate (hlate' hcut)

/-- **What the counter counts.**  Over any sequence of boots, where nothing but the counter
triggers safe mode: the counter is the number of runs of `post_fs_data` past the
environment check since the last `boot_complete`; such a run finds safe mode if and
only if there were two before it; and `late_start` does not run in a boot that does. -/
theorem bootloop_counter (v : Device) (db : Settings) (n : Nat) (boots : List (List Request))
    (hn : bootloopCount v db = n) (hlt : n + boots.length < 2 ^ 31)
    (htrigger : ∀ rs ∈ boots, ∀ r ∈ rs, r.answers.NoTrigger) :
    bootloopCount v (bootAll v db boots).1 = runsSince n (bootAll v db boots).2.flatten ∧
      (∀ pre safeMode post,
        (bootAll v db boots).2.flatten = pre ++ .safeModeCheck safeMode :: post →
          (safeMode = true ↔ 2 ≤ runsSince n pre)) ∧
      ∀ log ∈ (bootAll v db boots).2, .safeModeCheck true ∈ log → .stage .lateStart ∉ log := by
  induction boots generalizing db n with
  | nil => exact ⟨hn, NoCheck.checksOk (fun _ => not_mem_nil) n, nofun⟩
  | cons rs boots ih =>
    rw [length_cons] at hlt
    obtain ⟨hcount, hlog⟩ := counter_boot hn (by omega) (htrigger rs (.head _))
    have hle := hlog.atMostOne
    obtain ⟨hcounts, hchecks, hlates⟩ := ih (boot v db rs).db _ hcount (by omega)
      fun rs' hrs' => htrigger rs' (.tail _ hrs')
    rw [bootAll]
    rw [flatten_cons, runsSince_append]
    refine ⟨hcounts, hlog.checks.append hchecks, ?_⟩
    rintro log (_ | ⟨_, hmem⟩)
    · exact hlog.noLateStart
    · exact hlates log hmem

/-- Three boots that do not get to `boot_complete`. -/
def threeBoots : List (List Request) :=
  [[⟨.postFsData, allWell⟩, ⟨.lateStart, allWell⟩], [⟨.postFsData, allWell⟩],
    [⟨.postFsData, allWell⟩, ⟨.lateStart, allWell⟩]]

/-- The third finds safe mode. -/
theorem third_boot_safe :
    bootloopCount ⟨34, false⟩ (bootAll ⟨34, false⟩ (fun _ => none) threeBoots).1 = 3 ∧
      ∃ log ∈ (bootAll ⟨34, false⟩ (fun _ => none) threeBoots).2,
        .safeModeCheck true ∈ log ∧ .stage .lateStart ∉ log := by
  have htrigger : ∀ rs ∈ threeBoots, ∀ r ∈ rs, r.answers.NoTrigger := by
    simp [threeBoots, allWell, Answers.NoTrigger]
  obtain ⟨hcount, -, hlate⟩ :=
    bootloop_counter ⟨34, false⟩ (fun _ => none) 0 threeBoots rfl (by decide) htrigger
  have hlog : ∃ log ∈ (bootAll ⟨34, false⟩ (fun _ => none) threeBoots).2,
      Event.safeModeCheck true ∈ log := by decide
  obtain ⟨log, hmem, hsafe⟩ := hlog
  exact ⟨hcount.trans (by decide), log, hmem, hsafe, hlate log hmem hsafe⟩

end Counter

end Magisk.Core.BootStages
