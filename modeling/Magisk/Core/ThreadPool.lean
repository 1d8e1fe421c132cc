import Magisk.Lib.Transition
import Magisk.Lib.Condvar

/-!
The daemon's thread pool (`core/thread.rs`): `ThreadPool::pool_loop` and
`ThreadPool::exec_task_impl` as a transition system in which one step is one
holding of the mutex, or something the environment does to a thread that does
not hold it.

A task is named by the call of `exec_task` that submitted it, so two closures
are never confused.  The waits of the two condition variables may end
spuriously, a timed wait may report a timeout although it has been notified, and
`notify_one` wakes a thread of the environment's choice.  Threads are created
successfully, and no worker is the main thread of the process (`getpid() ==
gettid()` holds only in a forked child, which leaves the pool).

* `accounted_of_reach`: in every interleaving a submitted task is in the slot,
  with one worker, or has been run, exactly once;
* `no_task_lost`: tasks are never dropped or run twice, and a full slot is
  always about to be emptied, as long as no wake-up goes to a worker that has
  stopped listening (`WakeReaches`);
* `wake_lost`: without that proviso the slot stays full with nobody coming.
-/

namespace Magisk.Core.ThreadPool

open Magisk.Lib List Option

/-! ### The pool -/

/-- `CORE_POOL_SIZE`. -/
def corePoolSize : Int := 3

/-- Where a worker of `pool_loop` stands while it does not hold the mutex. -/
inductive WorkerLoc where
  /-- created by `new_daemon_thread`, first lock still ahead -/
  | starting
  /-- back at the head of the loop, about to lock -/
  | ready
  /-- blocked in `task_is_some.wait` or `task_is_some.wait_timeout` -/
  | waiting
  /-- the wait has ended without a timeout, the mutex is not yet regained -/
  | notified
  /-- the timed wait has ended with a timeout, the mutex is not yet regained -/
  | timedOut
  /-- outside the critical section with what `info.task.take()` returned -/
  | running (task : Option Nat)
  /-- returned from `pool_loop` -/
  | exited
  deriving DecidableEq, Repr

/-- A worker and the argument `is_core_pool` it was created with. -/
structure Worker where
  isCorePool : Bool
  loc : WorkerLoc
  deriving DecidableEq, Repr

/-- Where a call of `exec_task_impl` stands while it does not hold the mutex. -/
inductive CallerLoc where
  | ready
  /-- blocked in `task_is_none.wait` -/
  | waiting
  | notified
  /-- the task is in the slot and the call has returned -/
  | done
  deriving DecidableEq, Repr

/-- `PoolInfo` together with the threads around it; `ran` lists the tasks whose
closure has been called. -/
structure Pool where
  idleThreads : Int
  totalThreads : Int
  task : Option Nat
  workers : List Worker
  callers : List CallerLoc
  ran : List Nat
  deriving DecidableEq, Repr

/-- `ThreadPool::default()`. -/
def Pool.empty : Pool := ⟨0, 0, none, [], [], []⟩

/-- `task_is_some.notify_one()`. -/
def notifyWorker (ws : List Worker) (pick : Option Nat) : Option (List Worker) :=
  notifyOne (fun w => w.loc == .waiting) (fun w => { w with loc := .notified }) ws pick

/-- `task_is_none.notify_one()`. -/
def notifyCaller (cs : List CallerLoc) (pick : Option Nat) : Option (List CallerLoc) :=
  notifyOne (· == .waiting) (fun _ => .notified) cs pick

/-! ### The critical sections -/

namespace Pool

/-- Worker `k` moves to `loc`. -/
def setWorker (s : Pool) (k : Nat) (w : Worker) (loc : WorkerLoc) : Pool :=
  { s with workers := s.workers.set k { w with loc := loc } }

section setWorker

variable (s : Pool) (k : Nat) (w : Worker) (loc : WorkerLoc)

@[simp] lemma setWorker_task : (s.setWorker k w loc).task = s.task := rfl

@[simp] lemma setWorker_callers : (s.setWorker k w loc).callers = s.callers := rfl

@[simp] lemma setWorker_ran : (s.setWorker k w loc).ran = s.ran := rfl

@[simp] lemma setWorker_idleThreads : (s.setWorker k w loc).idleThreads = s.idleThreads := rfl

@[simp] lemma setWorker_workers :
    (s.setWorker k w loc).workers = s.workers.set k { w with loc := loc } := rfl

end setWorker

/-- The end of the critical section of `pool_loop`: take the task, signal
`task_is_none`, stop counting as idle. -/
def takeTask (s : Pool) (k : Nat) (w : Worker) (pick : Option Nat) : Option Pool :=
  (notifyCaller s.callers pick).map fun cs =>
    { s with
      task := none
      idleThreads := s.idleThreads - 1
      callers := cs
      workers := s.workers.set k { w with loc := .running s.task } }

/-- The critical section from the head of the loop: count as idle, then wait on
an empty slot or take the task from a full one. -/
def lockHead (s : Pool) (k : Nat) (w : Worker) (pick : Option Nat) : Option Pool :=
  let s := { s with idleThreads := s.idleThreads + 1 }
  if s.task = none then some (s.setWorker k w .waiting) else s.takeTask k w pick

/-- The timed-out branch: the thread terminates without a look at the slot. -/
def terminate (s : Pool) (k : Nat) (w : Worker) : Pool :=
  { s.setWorker k w .exited with
    idleThreads := s.idleThreads - 1
    totalThreads := s.totalThreads - 1 }

/-- The end of an iteration: the taken task, if any, has been called. -/
def runTask (s : Pool) (k : Nat) (w : Worker) (task : Option Nat) : Pool :=
  { s.setWorker k w .ready with ran := s.ran ++ task.toList }

/-- `exec_task_impl` of call `i` with the mutex held: wait for an empty slot,
else fill it and start a worker or signal `task_is_some`. -/
def execTaskImpl (s : Pool) (i : Nat) (pick : Option Nat) : Option Pool :=
  if s.task.isSome then some { s with callers := s.callers.set i .waiting }
  else
    let s := { s with task := some i, callers := s.callers.set i .done }
    if s.idleThreads = 0 then
      let total := s.totalThreads + 1
      some { s with
        totalThreads := total
        workers := s.workers ++ [⟨total ≤ corePoolSize, .starting⟩] }
    else (notifyWorker s.workers pick).map fun ws => { s with workers := ws }

end Pool

/-! ### The transition system -/

/-- One step of some thread, or of the environment.  `pick` is the thread a
`notify_one` of the step wakes. -/
inductive Label where
  /-- a thread enters `exec_task` -/
  | call
  /-- call `i` holds the mutex -/
  | execTask (i : Nat) (pick : Option Nat)
  /-- the wait of call `i` ends spuriously -/
  | callerWake (i : Nat)
  /-- worker `k` holds the mutex from the head of the loop -/
  | lock (k : Nat) (pick : Option Nat)
  /-- the wait of worker `k` ends spuriously -/
  | wake (k : Nat)
  /-- the timed wait of worker `k` reports a timeout -/
  | expire (k : Nat)
  /-- worker `k` regains the mutex after its wait -/
  | regain (k : Nat) (pick : Option Nat)
  /-- worker `k` finishes what it took -/
  | run (k : Nat)
  deriving DecidableEq, Repr

/-- The effect of one step. -/
def Pool.step (s : Pool) : Label → Option Pool
  | .call => some { s with callers := s.callers ++ [.ready] }
  | .execTask i pick =>
    match s.callers[i]? with
    | some .ready => s.execTaskImpl i pick
    | some .notified => s.execTaskImpl i pick
    | _ => none
  | .callerWake i =>
    match s.callers[i]? with
    | some .waiting => some { s with callers := s.callers.set i .notified }
    | _ => none
  | .lock k pick =>
    match s.workers[k]? with
    | some ⟨core, .starting⟩ => s.lockHead k ⟨core, .starting⟩ pick
    | some ⟨core, .ready⟩ => s.lockHead k ⟨core, .ready⟩ pick
    | _ => none
  | .wake k =>
    match s.workers[k]? with
    | some ⟨core, .waiting⟩ => some (s.setWorker k ⟨core, .waiting⟩ .notified)
    | _ => none
  | .expire k =>
    -- only `wait_timeout` of a non-core worker can expire, notified or not
    match s.workers[k]? with
    | some ⟨false, .waiting⟩ => some (s.setWorker k ⟨false, .waiting⟩ .timedOut)
    | some ⟨false, .notified⟩ => some (s.setWorker k ⟨false, .notified⟩ .timedOut)
    | _ => none
  | .regain k pick =>
    match s.workers[k]? with
    | some ⟨core, .notified⟩ => s.takeTask k ⟨core, .notified⟩ pick
    | some ⟨core, .timedOut⟩ => some (s.terminate k ⟨core, .timedOut⟩)
    | _ => none
  | .run k =>
    match s.workers[k]? with
    | some ⟨core, .running t⟩ => some (s.runTask k ⟨core, .running t⟩ t)
    | _ => none

/-- The pool from its default state. -/
def poolSystem : System Pool Label := ⟨(· = Pool.empty), Pool.step⟩

/-! ### What a step can do -/

/-- The steps of the pool with their guards, one constructor for each way
through a critical section. -/
inductive StepTo (s : Pool) : Label → Pool → Prop
  | call : StepTo s .call { s with callers := s.callers ++ [.ready] }
  | wait {i : Nat} {pick : Option Nat} {c : CallerLoc} :
      s.callers[i]? = some c → c = .ready ∨ c = .notified → s.task.isSome →
      StepTo s (.execTask i pick) { s with callers := s.callers.set i .waiting }
  | spawn {i : Nat} {pick : Option Nat} {c : CallerLoc} {core : Bool} :
      s.callers[i]? = some c → c = .ready ∨ c = .notified → s.task = none →
      s.idleThreads = 0 →
      StepTo s (.execTask i pick)
        { s with
          task := some i
          callers := s.callers.set i .done
          totalThreads := s.totalThreads + 1
          workers := s.workers ++ [⟨core, .starting⟩] }
  | signal {i : Nat} {pick : Option Nat} {c : CallerLoc} {ws : List Worker} :
      s.callers[i]? = some c → c = .ready ∨ c = .notified → s.task = none →
      s.idleThreads ≠ 0 → notifyWorker s.workers pick = some ws →
      StepTo s (.execTask i pick)
        { s with task := some i, callers := s.callers.set i .done, workers := ws }
  | callerWake {i : Nat} : s.callers[i]? = some .waiting →
      StepTo s (.callerWake i) { s with callers := s.callers.set i .notified }
  | park {k : Nat} {pick : Option Nat} {w : Worker} :
      s.workers[k]? = some w → w.loc = .starting ∨ w.loc = .ready → s.task = none →
      StepTo s (.lock k pick)
        { s.setWorker k w .waiting with idleThreads := s.idleThreads + 1 }
  | grab {k t : Nat} {pick : Option Nat} {w : Worker} {cs : List CallerLoc} :
      s.workers[k]? = some w → w.loc = .starting ∨ w.loc = .ready → s.task = some t →
      notifyCaller s.callers pick = some cs →
      StepTo s (.lock k pick)
        { s.setWorker k w (.running (some t)) with task := none, callers := cs }
  | wake {k : Nat} {w : Worker} : s.workers[k]? = some w → w.loc = .waiting →
      StepTo s (.wake k) (s.setWorker k w .notified)
  | expire {k : Nat} {w : Worker} : s.workers[k]? = some w →
      w.loc = .waiting ∨ w.loc = .notified → w.isCorePool = false →
      StepTo s (.expire k) (s.setWorker k w .timedOut)
  | resume {k : Nat} {pick : Option Nat} {w : Worker} {cs : List CallerLoc} :
      s.workers[k]? = some w → w.loc = .notified → notifyCaller s.callers pick = some cs →
      StepTo s (.regain k pick)
        { s.setWorker k w (.running s.task) with
          task := none
          callers := cs
          idleThreads := s.idleThreads - 1 }
  | terminate {k : Nat} {pick : Option Nat} {w : Worker} :
      s.workers[k]? = some w → w.loc = .timedOut →
      StepTo s (.regain k pick) (s.terminate k w)
  | run {k : Nat} {w : Worker} {t : Option Nat} :
      s.workers[k]? = some w → w.loc = .running t → StepTo s (.run k) (s.runTask k w t)

variable {s' s : Pool} {i k : Nat} {pick : Option Nat} {c : CallerLoc} {a : Label}
  {cs : List CallerLoc} {ws : List Worker} {w : Worker}

/-- `exec_task_impl` waits, starts a worker, or signals one. -/
lemma stepTo_of_execTaskImpl (hc : s.callers[i]? = some c) (hcl : c = .ready ∨ c = .notified)
    (h : s.execTaskImpl i pick = some s') : StepTo s (.execTask i pick) s' := by
  unfold Pool.execTaskImpl at h
  by_cases htask : s.task.isSome
  · rw [if_pos htask] at h
    cases h
    exact .wait hc hcl htask
  · rw [if_neg htask] at h
    have hnone : s.task = none := by simpa using htask
    by_cases hidle : s.idleThreads = 0
    · rw [if_pos hidle] at h
      cases h
      exact .spawn hc hcl hnone hidle
    · rw [if_neg hidle, map_eq_some_iff] at h
      obtain ⟨ws, hws, rfl⟩ := h
      exact .signal hc hcl hnone hidle hws

/-- From the head of the loop a worker parks on an empty slot and takes the task
from a full one. -/
lemma stepTo_of_lockHead (hw : s.workers[k]? = some w) (hl : w.loc = .starting ∨ w.loc = .ready)
    (h : s.lockHead k w pick = some s') : StepTo s (.lock k pick) s' := by
  unfold Pool.lockHead at h
  simp only at h
  split_ifs at h with htask
  · cases h
    exact .park hw hl htask
  · obtain ⟨t, ht⟩ := ne_none_iff_exists'.mp htask
    simp only [Pool.takeTask, map_eq_some_iff] at h
    obtain ⟨cs, hcs, rfl⟩ := h
    have hstep := StepTo.grab hw hl ht hcs
    simpa [Pool.setWorker, ht] using hstep

/-- Every step is one of the listed ones. -/
lemma stepTo_of_step (h : s.step a = some s') : StepTo s a s' := by
  cases a with
  | call => cases h; exact .call
  | execTask i pick =>
    simp only [Pool.step] at h
    split at h
    · exact stepTo_of_execTaskImpl ‹_› (.inl rfl) h
    · exact stepTo_of_execTaskImpl ‹_› (.inr rfl) h
    · cases h
  | callerWake i =>
    simp only [Pool.step] at h
    split at h <;> cases h
    exact .callerWake ‹_›
  | lock k pick =>
    simp only [Pool.step] at h
    split at h
    · exact stepTo_of_lockHead ‹_› (.inl rfl) h
    · exact stepTo_of_lockHead ‹_› (.inr rfl) h
    · cases h
  | wake k =>
    simp only [Pool.step] at h
    split at h <;> cases h
    exact .wake ‹_› rfl
  | expire k =>
    simp only [Pool.step] at h
    split at h <;> cases h
    · exact .expire ‹_› (.inl rfl) rfl
    · exact .expire ‹_› (.inr rfl) rfl
  | regain k pick =>
    simp only [Pool.step] at h
    split at h
    · simp only [Pool.takeTask, map_eq_some_iff] at h
      obtain ⟨cs, hcs, rfl⟩ := h
      exact .resume ‹_› rfl hcs
    · cases h
      exact .terminate ‹_› rfl
    · cases h
  | run k =>
    simp only [Pool.step] at h
    split at h <;> cases h
    exact .run ‹_› rfl

/-! ### Every submitted task is somewhere, once -/

/-- The worker is about to call task `i` or is calling it. -/
def Worker.holds (i : Nat) (w : Worker) : Bool := w.loc == .running (some i)

/-- The number of places task `i` is in: the slot, a worker's hands, the list of
called tasks. -/
def Pool.places (s : Pool) (i : Nat) : Nat :=
  s.task.toList.count i + s.workers.countP (Worker.holds i) + s.ran.count i

/-- Call `i` has put its task in the slot. -/
def Pool.submitted (s : Pool) (i : Nat) : Bool := s.callers[i]? == some .done

/-- A submitted task is in exactly one place, in particular called at most once
and never gone; a task not yet submitted is in none. -/
def Accounted (s : Pool) : Prop := ∀ i, s.places i = (s.submitted i).toNat

lemma submitted_notifyCaller (h : notifyCaller cs pick = some cs') (i : Nat) :
    (cs'[i]? == some CallerLoc.done) = (cs[i]? == some CallerLoc.done) := by
  rcases getElem?_notifyOne h i with heq | ⟨c, hc, hb, hc'⟩
  · rw [heq]
  · rw [hc, hc']
    simp only [beq_iff_eq] at hb
    subst hb
    rfl

lemma submitted_append (cs : List CallerLoc) (j : Nat) :
    ((cs ++ [.ready])[j]? == some CallerLoc.done) = (cs[j]? == some CallerLoc.done) := by
  rcases lt_or_ge j cs.length with hlt | hge
  · rw [getElem?_append_left hlt]
  · rw [getElem?_append_right hge, getElem?_eq_none hge]
    cases j - cs.length <;> simp

lemma submitted_set (hc : cs[i]? = some c) (hcd : c ≠ .done) (hd : d ≠ .done)
    (j : Nat) : ((cs.set i d)[j]? == some CallerLoc.done) = (cs[j]? == some CallerLoc.done) := by
  by_cases hij : i = j
  · subst hij
    rw [List.getElem?_set_self (List.getElem?_eq_some_iff.mp hc).1, hc]
    simp [hcd, hd]
  · rw [getElem?_set_ne hij]

lemma submitted_set_done (hc : cs[i]? = some c) (j : Nat) :
    ((cs.set i .done)[j]? == some CallerLoc.done)
      = (decide (i = j) || (cs[j]? == some CallerLoc.done)) := by
  by_cases hij : i = j
  · subst hij
    rw [List.getElem?_set_self (List.getElem?_eq_some_iff.mp hc).1]
    simp
  · rw [getElem?_set_ne hij]
    simp [hij]

lemma countP_holds_notifyWorker (h : notifyWorker ws pick = some ws') (i : Nat) :
    ws'.countP (Worker.holds i) = ws.countP (Worker.holds i) := by
  refine countP_notifyOne (fun w hw => ?_) h
  simp only [beq_iff_eq] at hw
  simp [Worker.holds, hw]

lemma holds_eq_false (h : ∀ t, w.loc ≠ .running t) (i : Nat) : w.holds i = false := by
  simp [Worker.holds, h (some i)]

lemma holds_running (h : w.loc = .running t) (i : Nat) :
    (if w.holds i then 1 else 0) = t.toList.count i := by
  cases t with
  | none => simp [Worker.holds, h]
  | some t => by_cases hti : t = i <;> simp [Worker.holds, h, hti]

lemma countP_holds_move (hw : ws[k]? = some w) (h : ∀ t, w.loc ≠ .running t)
    (h' : ∀ t, loc ≠ .running t) (i : Nat) :
    (ws.set k { w with loc := loc }).countP (Worker.holds i) = ws.countP (Worker.holds i) := by
  have hc := countP_set_add (p := Worker.holds i) { w with loc := loc } hw
  rw [holds_eq_false h, holds_eq_false (w := { w with loc := loc }) h'] at hc
  simpa using hc

lemma countP_holds_take (hw : ws[k]? = some w) (h : ∀ t, w.loc ≠ .running t) (t : Option Nat)
    (i : Nat) :
    (ws.set k { w with loc := .running t }).countP (Worker.holds i)
      = ws.countP (Worker.holds i) + t.toList.count i := by
  have hc := countP_set_add (p := Worker.holds i) { w with loc := .running t } hw
  rw [holds_eq_false h, holds_running rfl] at hc
  simpa using hc

lemma countP_holds_run (hw : ws[k]? = some w) (h : w.loc = .running t) (i : Nat) :
    (ws.set k { w with loc := .ready }).countP (Worker.holds i) + t.toList.count i
      = ws.countP (Worker.holds i) := by
  have hc := countP_set_add (p := Worker.holds i) { w with loc := .ready } hw
  rw [holds_running h, holds_eq_false (w := { w with loc := .ready }) (by simp)] at hc
  simpa using hc

/-- A call that fills the empty slot gives its task its one place. -/
lemma places_fill (hs : Accounted s) (hc : s.callers[i]? = some c)
    (hcl : c = .ready ∨ c = .notified) (htask : s.task = none) (j : Nat) :
    (some i).toList.count j + s.workers.countP (Worker.holds j) + s.ran.count j
      = ((s.callers.set i .done)[j]? == some CallerLoc.done).toNat := by
  have hj := hs j
  simp only [Pool.places, Pool.submitted, htask, toList_none, count_nil] at hj
  rw [submitted_set_done hc]
  by_cases hij : i = j
  · subst hij
    have hc' : (s.callers[i]? == some CallerLoc.done) = false := by
      rcases hcl with rfl | rfl <;> simp [hc]
    rw [hc', Bool.toNat_false] at hj
    simp only [toList_some, count_singleton_self, decide_true, Bool.true_or,
      Bool.toNat_true]
    omega
  · simp only [toList_some, count_singleton, beq_iff_eq, if_neg hij,
      decide_eq_false hij, Bool.false_or]
    omega

/-- One step keeps the account. -/
lemma Accounted.step (hs : Accounted s) (h : StepTo s a s') : Accounted s' := by
  intro j
  have hj := hs j
  simp only [Pool.places, Pool.submitted] at hj ⊢
  cases h with
  | call => rw [submitted_append, hj]
  | wait hc hcl _ =>
    rw [submitted_set hc (by rcases hcl with rfl | rfl <;> simp) (by simp), hj]
  | spawn hc hcl htask _ =>
    rw [← places_fill hs hc hcl htask j]
    simp [Worker.holds]
  | signal hc hcl htask _ hws =>
    rw [← places_fill hs hc hcl htask j, countP_holds_notifyWorker hws]
  | callerWake hc => rw [submitted_set hc (by simp) (by simp), hj]
  | @park _ _ w hw hl _ =>
    have hnr : ∀ t, w.loc ≠ .running t := by rcases hl with h | h <;> simp [h]
    simp only [Pool.setWorker_task, Pool.setWorker_workers, Pool.setWorker_ran,
      Pool.setWorker_callers]
    rw [countP_holds_move hw hnr (by simp), hj]
  | @grab _ t _ w _ hw hl ht hcs =>
    have hnr : ∀ t, w.loc ≠ .running t := by rcases hl with h | h <;> simp [h]
    simp only [Pool.setWorker_workers, Pool.setWorker_ran, toList_none, count_nil]
    rw [submitted_notifyCaller hcs, ← hj, countP_holds_take hw hnr, ht]
    omega
  | wake hw hl =>
    simp only [Pool.setWorker_task, Pool.setWorker_workers, Pool.setWorker_ran,
      Pool.setWorker_callers]
    rw [countP_holds_move hw (by simp [hl]) (by simp), hj]
  | @expire _ w hw hl _ =>
    have hnr : ∀ t, w.loc ≠ .running t := by rcases hl with h | h <;> simp [h]
    simp only [Pool.setWorker_task, Pool.setWorker_workers, Pool.setWorker_ran,
      Pool.setWorker_callers]
    rw [countP_holds_move hw hnr (by simp), hj]
  | resume hw hl hcs =>
    simp only [Pool.setWorker_workers, Pool.setWorker_ran, toList_none, count_nil]
    rw [submitted_notifyCaller hcs, countP_holds_take hw (by simp [hl])]
    omega
  | terminate hw hl =>
    simp only [Pool.terminate, Pool.setWorker_task, Pool.setWorker_workers, Pool.setWorker_ran,
      Pool.setWorker_callers]
    rw [countP_holds_move hw (by simp [hl]) (by simp), hj]
  | run hw hl =>
    -- the task moves from the worker's hands to the list of called tasks
    have hc := countP_holds_run hw hl j
    simp only [Pool.runTask, Pool.setWorker_task, Pool.setWorker_workers, Pool.setWorker_callers,
      count_append]
    omega

/-- **The account balances in every interleaving**: no submitted task is run
twice or dropped. -/
lemma accounted_of_reach (hs : poolSystem.Reach ok s) : Accounted s := by
  refine hs.invariant (fun t ht => ?_) fun _ _ _ hinv _ hstep => hinv.step (stepTo_of_step hstep)
  rw [show t = Pool.empty from ht]
  exact fun i => by simp [Pool.places, Pool.submitted, Pool.empty]

/-! ### The idle counter -/

/-- The worker is between the increment and the decrement of `idle_threads`. -/
def Worker.counted (w : Worker) : Bool :=
  match w.loc with
  | .waiting | .notified | .timedOut => true
  | _ => false

/-! ### A full slot is about to be emptied -/

/-- The worker is starting up, has a wake-up pending, or is about to lock the
mutex from the head of the loop: its next look at the slot takes what is there. -/
def Worker.coming (w : Worker) : Bool :=
  match w.loc with
  | .starting | .notified | .ready => true
  | _ => false

/-- If the slot is full, somebody is coming for it. -/
def Served (s : Pool) : Prop := s.task.isSome → ∃ w ∈ s.workers, w.coming

/-- No wake-up goes to a worker that has stopped listening: a call that signals
instead of starting a worker finds one of the counted workers still inside its
wait, and a timed wait that has been notified does not report a timeout while
the slot is full, unless somebody else is coming. -/
def WakeReaches (s : Pool) : Label → Prop
  | .execTask _ _ => s.task = none → s.idleThreads ≠ 0 →
      ∃ w ∈ s.workers, w.counted ∧ w.loc ≠ .timedOut
  | .expire k => s.task.isSome → (∃ w, s.workers[k]? = some w ∧ w.loc = .notified) →
      ∃ j w, j ≠ k ∧ s.workers[j]? = some w ∧ w.coming
  | _ => True

lemma exists_coming_set (w' : Worker) (hjk : j ≠ k) (hw : ws[j]? = some w) (hc : w.coming) :
    ∃ v ∈ ws.set k w', v.coming := by
  refine ⟨w, mem_of_getElem? (i := j) ?_, hc⟩
  rw [getElem?_set_ne (Ne.symm hjk), hw]

lemma exists_coming_set_self (hw : ws[k]? = some w) (hc : w'.coming) :
    ∃ v ∈ ws.set k w', v.coming :=
  ⟨w', List.mem_set (List.getElem?_eq_some_iff.mp hw).1 w', hc⟩

lemma exists_coming_notifyWorker (h : notifyWorker ws pick = some ws')
    (hl : ∃ w ∈ ws, w.counted ∧ w.loc ≠ .timedOut) : ∃ w ∈ ws', w.coming := by
  obtain ⟨w, hw, hcount, hloc⟩ := hl
  by_cases hwait : w.loc = .waiting
  · obtain ⟨v, -, hv⟩ := exists_wake_of_notifyOne h ⟨w, hw, by simpa using hwait⟩
    exact ⟨_, hv, by simp [Worker.coming]⟩
  · -- not waiting and not expired: the wake-up of an earlier signal is pending
    have hnot : w.loc = .notified := by
      cases hl : w.loc <;> simp_all [Worker.counted]
    exact ⟨w, mem_of_notifyOne h hw (by simp [hnot]), by simp [Worker.coming, hnot]⟩

/-- One step that meets the proviso keeps a full slot served. -/
lemma Served.step (hs : Served s) (hok : WakeReaches s a) (h : StepTo s a s') : Served s' := by
  intro hfull
  cases h with
  | call => exact hs hfull
  | wait => exact hs hfull
  | spawn => exact ⟨_, mem_append_right _ (mem_singleton_self _), rfl⟩
  | signal _ _ htask hidle hws => exact exists_coming_notifyWorker hws (hok htask hidle)
  | callerWake => exact hs hfull
  | park _ _ htask => simp [htask] at hfull
  | grab => simp at hfull
  | wake hw _ => exact exists_coming_set_self hw (by simp [Worker.coming])
  | @expire k w hw hl _ =>
    -- an expiry only matters if it takes away the pending wake-up
    rcases hl with hwait | hnot
    · obtain ⟨v, hv, hvc⟩ := hs hfull
      obtain ⟨j, hj⟩ := mem_iff_getElem?.mp hv
      refine exists_coming_set _ ?_ hj hvc
      rintro rfl
      rw [hw, Option.some.injEq] at hj
      subst hj
      simp [Worker.coming, hwait] at hvc
    · obtain ⟨j, v, hjk, hj, hvc⟩ := hok hfull ⟨w, hw, hnot⟩
      exact exists_coming_set _ hjk hj hvc
  | resume => simp at hfull
  | @terminate k _ w hw hl =>
    obtain ⟨v, hv, hvc⟩ := hs hfull
    obtain ⟨j, hj⟩ := mem_iff_getElem?.mp hv
    refine exists_coming_set _ ?_ hj hvc
    rintro rfl
    rw [hw, Option.some.injEq] at hj
    subst hj
    simp [Worker.coming, hl] at hvc
  | run hw _ => exact exists_coming_set_self hw (by simp [Worker.coming])

/-- **The hand-off.**  In every interleaving no submitted task is run twice or
dropped, and in every interleaving whose wake-ups all reach a listening worker
a full slot always has somebody coming for it. -/
theorem no_task_lost (s : Pool) :
    (poolSystem.Reach (fun _ _ => True) s → Accounted s) ∧
      (poolSystem.Reach WakeReaches s → Accounted s ∧ Served s) := by
  refine ⟨fun hs => accounted_of_reach hs, fun hs => ⟨accounted_of_reach hs, ?_⟩⟩
  refine hs.invariant (fun t ht => ?_) fun _ _ _ hinv hok hstep =>
    hinv.step hok (stepTo_of_step hstep)
  rw [show t = Pool.empty from ht]
  intro hfull
  simp [Pool.empty] at hfull

/-- The first call of a pool starts a worker, which is then coming for it. -/
theorem first_task_served :
    ∃ s, poolSystem.Reach WakeReaches s ∧ s.task = some 0 ∧ Accounted s ∧ Served s := by
  have hcall : poolSystem.Reach WakeReaches { Pool.empty with callers := [.ready] } :=
    .step (a := .call) (.init rfl) trivial rfl
  -- the counter is zero, so the call starts a worker instead of signalling one
  have hok : WakeReaches { Pool.empty with callers := [.ready] } (.execTask 0 none) :=
    fun _ hidle => absurd rfl hidle
  have hfill := System.Reach.step hcall hok rfl
  exact ⟨_, hfill, rfl, (no_task_lost _).2 hfill⟩

/-- Three core workers are kept busy, the fourth worker's wait expires, and the
next call signals nobody. -/
def lostWakeSchedule : List Label :=
  [.call, .execTask 0 none, .lock 0 none, .call, .execTask 1 none, .lock 1 none,
   .call, .execTask 2 none, .lock 2 none, .call, .execTask 3 none, .lock 3 none,
   .run 3, .lock 3 none, .expire 3, .call, .execTask 4 none]

/-- The signal of the last call is lost: the only counted worker has timed out,
and the slot is full with nobody coming. -/
theorem wake_lost : ∃ s, poolSystem.Reach (fun _ _ => True) s ∧ ¬ Served s := by
  obtain ⟨s, hs⟩ : ∃ s, poolSystem.run Pool.empty lostWakeSchedule = some s :=
    isSome_iff_exists.mp (by decide)
  refine ⟨s, .of_run (fun _ _ => trivial) (.init rfl) hs, ?_⟩
  have hstate : (poolSystem.run Pool.empty lostWakeSchedule).map
      (fun s => s.task.isSome && s.workers.all fun w => !w.coming) = some true := by decide
  rw [hs] at hstate
  simp only [Option.map_some, Option.some.injEq, Bool.and_eq_true, List.all_eq_true,
    Bool.not_eq_true'] at hstate
  intro hserved
  obtain ⟨w, hw, hc⟩ := hserved hstate.1
  simp [hstate.2 w hw] at hc

end Magisk.Core.ThreadPool
