import Magisk.Base.Text
import Magisk.Core.Socket
import Magisk.Lib.Result

/-!
# The groups of a root shell

`su -g` asks for a primary group and `su -G` for supplementary ones.  The client puts all of them
into one list, in the order of the options, and sends it to the daemon, whose child takes the first
of the list as its primary group.

* `Opt`, `CommandLine`, `suClientMain`: the options, and the request that they make;
* `setIdentity`, `shellIdentity`: the credentials that the shell gets;
* `Promised`: the credentials that the usage text promises;
* `gids_foldlM`: the list is that of the options;
* `promised_iff`: the promise is kept exactly if the group of `-g` comes first;
* `group_not_first`: a command line for which it is broken.
-/

namespace Magisk.Core.Su

open Magisk.Base Magisk.Lib Magisk.Core.Socket List Option

/-! ### The client -/

/-- What `getopt_long` returns, but for `-c`, which takes the rest of the command line. -/
inductive Opt where
  | help
  | interactive
  | login
  | preserveEnvironment
  | dropCap
  | shell (path : Text)
  | versionCode
  | version
  | context (con : Text)
  | mountMaster
  | target (pid : Str)
  | group (gid : Str)
  | suppGroup (gid : Str)
  | unknown

/-- `DEFAULT_SHELL`. -/
def defaultShell : Text := ⟨str "/system/bin/sh", rfl⟩

/-- `SuRequest::default`. -/
def defaultRequest : Socket.SuRequest where
  targetUid := 0
  targetPid := -1
  login := false
  keepEnv := false
  dropCap := false
  shell := defaultShell
  command := ⟨[], rfl⟩
  context := ⟨[], rfl⟩
  gids := []

/-- The case for `-g` and `-G`.  The group goes to the beginning or to the end of a vector of its
own, which is then added to those of the request. -/
def addGroup (req : Socket.SuRequest) (primary : Bool) (arg : Str) : Except Int Socket.SuRequest :=
  let gids : List UInt32 := []
  let gid := parseInt arg
  if 0 ≤ gid.toInt then
    let gids := if primary then gid.toUInt32 :: gids else gids ++ [gid.toUInt32]
    .ok { req with gids := req.gids ++ gids }
  else .error 1

/-- The case for `-M` and `-t`. -/
def setTarget (req : Socket.SuRequest) (arg : Option Str) : Except Int Socket.SuRequest :=
  if req.targetPid ≠ -1 then .error 1
  else
    match arg with
    | none => .ok { req with targetPid := 0 }
    | some pid =>
      if pid.head? = some (chr '-') ∨ parseInt pid = -1 then .error 1
      else .ok { req with targetPid := parseInt pid }

/-- One round of the option loop: the request, or the status that the client exits with. -/
def applyOpt (req : Socket.SuRequest) : Opt → Except Int Socket.SuRequest
  | .help => .error 0
  | .interactive => .ok req
  | .login => .ok { req with login := true }
  | .preserveEnvironment => .ok { req with keepEnv := true }
  | .dropCap => .ok { req with dropCap := true }
  | .shell path => .ok { req with shell := path }
  | .versionCode => .error 0
  | .version => .error 0
  | .context con => .ok { req with context := con }
  | .mountMaster => setTarget req none
  | .target pid => setTarget req (some pid)
  | .group gid => addGroup req true gid
  | .suppGroup gid => addGroup req false gid
  | .unknown => .error 2

/-- A command line: the options, the command behind `-c`, whether a `-` follows, and the user. -/
structure CommandLine where
  opts : List Opt
  command : Option Text
  dash : Bool
  user : Option Int32

/-- `su_client_main` up to the request that it sends. -/
def suClientMain (cl : CommandLine) : Except Int Socket.SuRequest := do
  let req ← cl.opts.foldlM applyOpt defaultRequest
  let req := cl.command.elim req fun text => { req with command := text }
  let req := if cl.dash then { req with login := true } else req
  pure (cl.user.elim req fun uid => { req with targetUid := uid })

/-! ### The daemon -/

/-- The credentials of a process. -/
structure Cred where
  uid : UInt32
  gid : UInt32
  groups : List UInt32

/-- `NGROUPS_MAX`. -/
def ngroupsMax : Nat := 65536

/-- The id that `setresuid` and `setresgid` take for no change. -/
def noChange : UInt32 := 0xffffffff

/-- `set_identity`, in a process that exits on an error. -/
def setIdentity (c : Cred) (uid : Int32) (groups : List UInt32) : Option Cred := do
  let (c, gid) ←
    match groups with
    | [] => some (c, uid.toUInt32)
    | gid :: _ =>
      if ngroupsMax < groups.length then none else some ({ c with groups := groups }, gid)
  let c := if gid = noChange then c else { c with gid := gid }
  pure (if uid.toUInt32 = noChange then c else { c with uid := uid.toUInt32 })

/-- The part of `exec_root_shell` that sets the credentials. -/
def shellIdentity (c : Cred) (req : Socket.SuRequest) : Option Cred :=
  if req.targetUid ≠ 0 ∨ 0 < req.gids.length then setIdentity c req.targetUid req.gids else some c

/-! ### What the usage text says -/

/-- The group of `-g`. -/
def Opt.primary? : Opt → Option UInt32
  | .group gid => some (parseInt gid).toUInt32
  | _ => none

/-- The group of `-G`. -/
def Opt.supp? : Opt → Option UInt32
  | .suppGroup gid => some (parseInt gid).toUInt32
  | _ => none

/-- The group of either. -/
def Opt.gid? (o : Opt) : Option UInt32 := o.primary?.or o.supp?

/-- The groups that are given. -/
def given (opts : List Opt) : List UInt32 := opts.filterMap Opt.gid?

/-- The group of the first `-g`. -/
def firstPrimary (opts : List Opt) : Option UInt32 := (opts.filterMap Opt.primary?).head?

/-- The primary group that is asked for: that of `-g`, or else the first of `-G`. -/
def primaryGroup (opts : List Opt) : Option UInt32 :=
  (firstPrimary opts).or (opts.filterMap Opt.supp?).head?

/-- The shell has the groups that the usage text promises. -/
structure Promised (opts : List Opt) (c : Cred) : Prop where
  primary : ∀ gid, primaryGroup opts = some gid → c.gid = gid
  supplementary : ∀ gid, gid ∈ c.groups ↔ gid ∈ given opts

/-! ### The list of groups -/

section Groups

variable {req req' : Socket.SuRequest} {o : Opt} {opts : List Opt}

lemma addGroup_eq_ok (h : addGroup req primary arg = .ok req') :
    0 ≤ (parseInt arg).toInt ∧ req'.gids = req.gids ++ [(parseInt arg).toUInt32] := by
  unfold addGroup at h
  by_cases hpos : 0 ≤ (parseInt arg).toInt
  · simp only [if_pos hpos] at h
    have hgids := congrArg Socket.SuRequest.gids (Except.ok.inj h)
    cases primary <;> exact ⟨hpos, hgids.symm⟩
  · simp only [if_neg hpos] at h
    exact absurd h nofun

lemma gids_setTarget (h : setTarget req arg = .ok req') : req'.gids = req.gids := by
  unfold setTarget at h
  split_ifs at h
  cases arg with
  | none => exact (congrArg Socket.SuRequest.gids (Except.ok.inj h)).symm
  | some pid =>
    simp only at h
    split_ifs at h
    exact (congrArg Socket.SuRequest.gids (Except.ok.inj h)).symm

lemma toUInt32_ne_noChange {v : Int32} (h : 0 ≤ v.toInt) : v.toUInt32 ≠ noChange := by
  intro heq
  have hv : v = noChange.toInt32 := by rw [← heq, Int32.toInt32_toUInt32]
  rw [hv] at h
  exact absurd h (by decide)

/-- The groups that one option adds to the list. -/
lemma gids_applyOpt (h : applyOpt req o = .ok req') :
    req'.gids = req.gids ++ o.gid?.toList ∧ ∀ gid ∈ o.gid?, gid ≠ noChange := by
  have hgroup : ∀ {primary : Bool} {arg : Str}, addGroup req primary arg = .ok req' →
      req'.gids = req.gids ++ [(parseInt arg).toUInt32] ∧
        ∀ gid ∈ some (parseInt arg).toUInt32, gid ≠ noChange := by
    intro primary arg hadd
    obtain ⟨hpos, hgids⟩ := addGroup_eq_ok hadd
    refine ⟨hgids, fun gid hgid => ?_⟩
    rw [← some.inj hgid]
    exact toUInt32_ne_noChange hpos
  have htarget : ∀ arg : Option Str, setTarget req arg = .ok req' →
      req'.gids = req.gids ++ [] := by
    intro arg hset
    rw [gids_setTarget hset, append_nil]
  cases o with
  | group gid => exact hgroup h
  | suppGroup gid => exact hgroup h
  | help => exact absurd h nofun
  | versionCode => exact absurd h nofun
  | version => exact absurd h nofun
  | unknown => exact absurd h nofun
  | mountMaster => exact ⟨htarget none h, nofun⟩
  | target pid => exact ⟨htarget (some pid) h, nofun⟩
  | _ =>
    -- the other options set a field of their own
    rw [← Except.ok.inj h]
    exact ⟨(append_nil _).symm, nofun⟩

/-- **The list that is sent** has the groups in the order of the options. -/
lemma gids_foldlM (h : opts.foldlM applyOpt req = .ok req') :
    req'.gids = req.gids ++ given opts ∧ noChange ∉ given opts := by
  induction opts generalizing req with
  | nil =>
    obtain rfl : req = req' := Except.ok.inj h
    exact ⟨(append_nil _).symm, not_mem_nil⟩
  | cons o os ih =>
    obtain ⟨mid, hmid, hrest⟩ := bind_eq_ok.mp h
    obtain ⟨hgids, hne⟩ := gids_applyOpt hmid
    obtain ⟨hall, hnot⟩ := ih hrest
    have hcons : given (o :: os) = o.gid?.toList ++ given os := by
      cases hg : o.gid? <;> simp [given, hg]
    rw [hcons, hall, hgids, append_assoc]
    refine ⟨rfl, fun hmem => ?_⟩
    rcases mem_append.mp hmem with hhead | htail
    · exact hne noChange (mem_toList.mp hhead) rfl
    · exact hnot htail

lemma gids_suClientMain (h : suClientMain cl = .ok req) :
    req.gids = given cl.opts ∧ noChange ∉ given cl.opts := by
  obtain ⟨mid, hmid, hreq⟩ := bind_eq_ok.mp h
  obtain ⟨hgids, hnot⟩ := gids_foldlM hmid
  refine ⟨?_, hnot⟩
  rw [← Except.ok.inj hreq]
  obtain ⟨opts, command, dash, user⟩ := cl
  cases command <;> cases dash <;> cases user <;> exact hgids

end Groups

/-! ### The credentials -/

section Identity

variable {c : Cred} {req : Socket.SuRequest}

lemma shellIdentity_nil (hnil : req.gids = []) :
    ∃ c', shellIdentity c req = some c' ∧ c'.groups = c.groups := by
  rw [shellIdentity, hnil]
  split_ifs with hset
  · refine ⟨_, rfl, ?_⟩
    split_ifs <;> rfl
  · exact ⟨c, rfl, rfl⟩

lemma shellIdentity_eq_none (h : ngroupsMax < req.gids.length) : shellIdentity c req = none := by
  rw [shellIdentity, if_pos (.inr (by omega))]
  cases hgids : req.gids with
  | nil => rw [hgids] at h; exact absurd h (Nat.not_lt_zero _)
  | cons gid gids =>
    rw [hgids] at h
    simp only [setIdentity, if_pos h]
    rfl

lemma shellIdentity_cons (hgids : req.gids = gid :: gids)
    (hlen : req.gids.length ≤ ngroupsMax) (hne : gid ≠ noChange) :
    ∃ c', shellIdentity c req = some c' ∧ c'.gid = gid ∧ c'.groups = req.gids := by
  have hpos : 0 < req.gids.length := by rw [hgids]; exact Nat.succ_pos _
  rw [shellIdentity, if_pos (.inr hpos)]
  rw [hgids] at hlen ⊢
  simp only [setIdentity, if_neg (not_lt.mpr hlen)]
  refine ⟨_, rfl, ?_⟩
  split_ifs <;> exact ⟨rfl, rfl⟩

end Identity

/-! ### The promise -/

section Promise

variable {opts : List Opt}

lemma gid?_eq_none_iff {o : Opt} : o.gid? = none ↔ o.primary? = none ∧ o.supp? = none :=
  or_eq_none_iff

lemma primaryGroup_eq_none (h : given opts = []) : primaryGroup opts = none := by
  have hnone : ∀ o ∈ opts, o.primary? = none ∧ o.supp? = none := fun o ho =>
    gid?_eq_none_iff.mp (filterMap_eq_nil_iff.mp h o ho)
  rw [primaryGroup, firstPrimary, filterMap_eq_nil_iff.mpr fun o ho => (hnone o ho).1,
    filterMap_eq_nil_iff.mpr fun o ho => (hnone o ho).2]
  rfl

lemma given_eq_supp (h : firstPrimary opts = none) : given opts = opts.filterMap Opt.supp? := by
  have hnone := filterMap_eq_nil_iff.mp (head?_eq_none_iff.mp h)
  refine filterMap_congr fun o ho => ?_
  rw [Opt.gid?, hnone o ho, none_or]

lemma head?_given_iff :
    (∀ gid, primaryGroup opts = some gid → (given opts).head? = some gid) ↔
      ∀ gid, firstPrimary opts = some gid → (given opts).head? = some gid := by
  cases hfirst : firstPrimary opts with
  | some gid => rw [primaryGroup, hfirst, some_or]
  | none =>
    rw [primaryGroup, hfirst, given_eq_supp hfirst]
    exact ⟨fun _ => nofun, fun _ _ hgid => hgid⟩

end Promise

/-- **When the promise is kept.**  The shell gets the groups of the options, with that of `-g`,
or else the first of `-G`, as the primary one, exactly if they are not too many, no other group
comes before that of `-g`, and the daemon has no groups that a shell without any would keep. -/
theorem promised_iff {cl : CommandLine} {req : Socket.SuRequest} (h : suClientMain cl = .ok req)
    (c : Cred) :
    (∃ c', shellIdentity c req = some c' ∧ Promised cl.opts c') ↔
      (given cl.opts).length ≤ ngroupsMax ∧
        (∀ gid, firstPrimary cl.opts = some gid → (given cl.opts).head? = some gid) ∧
        (given cl.opts = [] → c.groups = []) := by
  obtain ⟨hgids, hne⟩ := gids_suClientMain h
  rw [← head?_given_iff]
  cases hgiven : given cl.opts with
  | nil =>
    obtain ⟨c', hc', hgroups⟩ := shellIdentity_nil (c := c) (hgids.trans hgiven)
    have hnone := primaryGroup_eq_none hgiven
    constructor
    · rintro ⟨c'', hc'', hpromised⟩
      obtain rfl : c' = c'' := some.inj (hc'.symm.trans hc'')
      refine ⟨Nat.zero_le _, fun gid hgid => absurd (hnone.symm.trans hgid) nofun, fun _ => ?_⟩
      rw [← hgroups]
      refine eq_nil_iff_forall_not_mem.mpr fun gid hgid => ?_
      have hmem := (hpromised.supplementary gid).mp hgid
      rw [hgiven] at hmem
      exact absurd hmem not_mem_nil
    · rintro ⟨-, -, hempty⟩
      refine ⟨c', hc', fun gid hgid => absurd (hnone.symm.trans hgid) nofun, fun gid => ?_⟩
      rw [hgroups, hempty rfl, hgiven]
  | cons gid gids =>
    rw [← hgiven, ← hgids]
    by_cases hlen : req.gids.length ≤ ngroupsMax
    · have hfirst : gid ≠ noChange := by
        rintro rfl
        rw [hgiven] at hne
        exact hne (.head _)
      obtain ⟨c', hc', hgid, hgroups⟩ :=
        shellIdentity_cons (c := c) (hgids.trans hgiven) hlen hfirst
      have hhead : ∀ g, (req.gids.head? = some g ↔ c'.gid = g) := fun g => by
        rw [hgids, hgiven, hgid, head?_cons, Option.some.injEq]
      simp only [hhead]
      constructor
      · rintro ⟨c'', hc'', hpromised⟩
        obtain rfl : c' = c'' := some.inj (hc'.symm.trans hc'')
        refine ⟨hlen, hpromised.primary, fun hnil => ?_⟩
        rw [hgids, hgiven] at hnil
        exact absurd hnil nofun
      · rintro ⟨-, hprimary, -⟩
        refine ⟨c', hc', hprimary, fun g => ?_⟩
        rw [hgroups, hgids]
    · constructor
      · rintro ⟨c', hc', -⟩
        rw [shellIdentity_eq_none (not_le.mp hlen)] at hc'
        exact absurd hc' nofun
      · rintro ⟨hle, -⟩
        exact absurd hle hlen

/-- The options `-g 1000 -G 2000`. -/
def groupFirst : CommandLine :=
  ⟨[.group (str "1000"), .suppGroup (str "2000")], none, false, none⟩

/-- They give what they promise. -/
theorem promised_groupFirst :
    ∃ req, suClientMain groupFirst = .ok req ∧
      ∃ c', shellIdentity ⟨0, 0, []⟩ req = some c' ∧ Promised groupFirst.opts c' := by
  refine ⟨{ defaultRequest with gids := [1000, 2000] }, by rfl, (promised_iff (by rfl) _).mpr ?_⟩
  refine ⟨by decide, fun gid hgid => ?_, nofun⟩
  exact hgid

/-- The options `-G 2000 -g 1000`. -/
def groupLast : CommandLine :=
  ⟨[.suppGroup (str "2000"), .group (str "1000")], none, false, none⟩

/-- **The group of `-g` is not the primary one.**  It is after a group of `-G`, so that one is. -/
theorem group_not_first :
    ∃ req c', suClientMain groupLast = .ok req ∧ shellIdentity ⟨0, 0, []⟩ req = some c' ∧
      firstPrimary groupLast.opts = some 1000 ∧ c'.gid = 2000 ∧ ¬Promised groupLast.opts c' := by
  refine ⟨{ defaultRequest with gids := [2000, 1000] }, ⟨0, 2000, [2000, 1000]⟩, by rfl, by rfl,
    by rfl, rfl, fun hpromised => ?_⟩
  exact absurd (hpromised.primary 1000 rfl) (by decide)

end Magisk.Core.Su
