import Mathlib.Tactic
import Magisk.Base.Str

/-!
# The native bridge property

Zygisk is loaded through a read-only property that it shares with the platform's
own native bridge.  The daemon writes its loader in front of the original value
and keeps the only copy of that value behind the loader's name.

* `SysProp`: the platform's property area, with what its functions promise;
* `Resetprop.setProp`, `Resetprop.getProp`: the helpers of `resetprop`;
* `State.setProp`, `State.restoreProp`, `State.reset`: the methods of `ZygiskState`;
* `Kept`: the property can be told from the loader's name and the original value;
* `kept_iff`: it is kept throughout a sequence of calls exactly if no restore
  comes without a set before it, or there was no original value.
-/

namespace Magisk.Core.Zygisk

open Magisk.Base List Function

/-! ### System properties -/

/-- `PROP_VALUE_MAX`. -/
def propValueMax : Nat := 92

/-- Is the key one of a read-only property? -/
def readOnly (key : Str) : Bool := (str "ro.").isPrefixOf key

/-- The property area of the platform.  A value is UTF-8 text.  A value that is long,
or becomes long, cannot be updated in place; a read-only property can be added
with a value of any length. -/
structure SysProp (σ : Type*) where
  find : σ → Str → Option Str
  isLong : σ → Str → Bool
  update : σ → Str → Str → σ
  add : σ → Str → Str → σ
  delete : σ → Str → σ
  find_update : ∀ s key val, (find s key).isSome → isLong s key = false →
    val.length < propValueMax → find (update s key val) = Function.update (find s) key (some val)
  find_add : ∀ s key val, find s key = none → readOnly key = true →
    find (add s key val) = Function.update (find s) key (some val)
  find_delete : ∀ s key, find (delete s key) = Function.update (find s) key none

namespace Resetprop

variable {σ : Type*} (P : SysProp σ)

/-- `resetprop::get_prop`, on keys that are not persistent. -/
def getProp (s : σ) (key : Str) : Str := (P.find s key).getD []

/-- `resetprop::set_prop`: `ResetProp::set` without the property service. -/
def setProp (s : σ) (key val : Str) : σ :=
  match P.find s key with
  | none => P.add s key val
  | some _ =>
    if readOnly key && (P.isLong s key || propValueMax ≤ val.length) then
      P.add (P.delete s key) key val
    else P.update s key val

variable {P}

/-- A read-only property is set whatever the lengths of its values. -/
lemma find_setProp (hro : readOnly key = true) (val : Str) :
    P.find (setProp P s key val) = update (P.find s) key (some val) := by
  rw [setProp]
  cases hfind : P.find s key with
  | none => exact P.find_add s key val hfind hro
  | some old =>
    simp only [hro, Bool.true_and]
    by_cases hlong : (P.isLong s key || propValueMax ≤ val.length) = true
    · have hgone : P.find (P.delete s key) key = none := by
        rw [P.find_delete, update_self]
      rw [if_pos hlong, P.find_add _ _ _ hgone hro, P.find_delete, update_idem]
    · rw [if_neg hlong]
      simp only [Bool.or_eq_true, decide_eq_true_eq, not_or, Bool.not_eq_true, not_le] at hlong
      exact P.find_update s key val (by rw [hfind]; rfl) hlong.1 hlong.2

lemma getProp_setProp_self (hro : readOnly key = true) (val : Str) :
    getProp P (setProp P s key val) key = val := by
  rw [getProp, find_setProp hro, update_self, Option.getD_some]

lemma getProp_setProp_ne (hro : readOnly key = true) (val : Str)
    (hne : key' ≠ key) : getProp P (setProp P s key val) key' = getProp P s key' := by
  rw [getProp, find_setProp hro, update_of_ne hne, getProp]

end Resetprop

/-! ### The state of Zygisk -/

open Resetprop (getProp)

/-- `NBPROP`. -/
def nbprop : Str := str "ro.dalvik.vm.native.bridge"

/-- `ZYGISKLDR`. -/
def zygiskldr : Str := str "libzygisk.so"

/-- Huawei's Maple compiler is enabled by this property. -/
def mapleProp : Str := str "ro.maple.enable"

/-- `"0"`, the value of the property without a native bridge. -/
def noBridge : Str := str "0"

/-- `ZygiskState` without its sockets. -/
structure ZygiskState where
  libName : Str
  startCount : UInt32

/-- `ZygiskState::default()`. -/
def ZygiskState.fresh : ZygiskState := ⟨[], 1⟩

/-- The daemon's state and the property area. -/
structure State (σ : Type*) where
  area : σ
  zygisk : ZygiskState

namespace State

variable {σ : Type*} (P : SysProp σ) (s : State σ)

/-- `ZygiskState::set_prop`. -/
def setProp : State σ :=
  if s.zygisk.libName ≠ [] then s
  else
    let orig := getProp P s.area nbprop
    let libName := if orig = [] ∨ orig = noBridge then zygiskldr else zygiskldr ++ orig
    let area := Resetprop.setProp P s.area nbprop libName
    { area :=
        if getProp P area mapleProp = str "1" then Resetprop.setProp P area mapleProp (str "0")
        else area
      zygisk := { s.zygisk with libName := libName } }

/-- `ZygiskState::restore_prop`. -/
def restoreProp : State σ :=
  let orig :=
    if zygiskldr.length < s.zygisk.libName.length then s.zygisk.libName.drop zygiskldr.length
    else noBridge
  { area := Resetprop.setProp P s.area nbprop orig
    zygisk := { s.zygisk with libName := [] } }

/-- `ZygiskState::reset`.  Too many crashes of zygote roll back. -/
def reset (restore : Bool) : State σ :=
  let count := if restore then 1 else s.zygisk.startCount + 1
  let s' : State σ := { s with zygisk := { s.zygisk with startCount := count } }
  if restore || 3 < count then restoreProp P s' else setProp P s'

end State

/-- The calls the daemon makes: `set_prop` when modules are loaded, `reset(true)` on boot
complete, `reset(false)` when zygote restarts, `restore_prop` when the daemon stops. -/
inductive Call where
  | setProp
  | restoreProp
  | reset (restore : Bool)
  deriving DecidableEq, Repr

section Run

variable {σ : Type*} (P : SysProp σ)

/-- One call. -/
def call (s : State σ) : Call → State σ
  | .setProp => s.setProp P
  | .restoreProp => s.restoreProp P
  | .reset restore => s.reset P restore

/-- A sequence of calls. -/
def run (s : State σ) (cs : List Call) : State σ := cs.foldl (call P) s

end Run

/-! ### The property is kept -/

/-- The native bridge a value of the property names: empty and `"0"` name none. -/
def bridge (val : Str) : Str := if val = noBridge then [] else val

/-- The property is the original value, or the loader followed by it. -/
def Kept {σ : Type*} (P : SysProp σ) (orig : Str) (s : State σ) : Prop :=
  if s.zygisk.libName = [] then bridge (getProp P s.area nbprop) = bridge orig
  else getProp P s.area nbprop = zygiskldr ++ bridge orig

/-- Does the call restore the property? -/
def restores (z : ZygiskState) : Call → Bool
  | .setProp => false
  | .restoreProp => true
  | .reset restore => restore || 3 < z.startCount + 1

/-- The calls that keep the property: a restore needs the original value, which is in the
loader's name only while the property is set. -/
def CallOk (orig : Str) (z : ZygiskState) (c : Call) : Prop :=
  restores z c = true → z.libName ≠ [] ∨ bridge orig = []

@[simp]
lemma bridge_bridge (val : Str) : bridge (bridge val) = bridge val := by
  by_cases h : val = noBridge
  · rw [bridge, bridge, if_pos h, if_neg (by decide)]
  · rw [bridge, bridge, if_neg h, if_neg h]

@[simp]
lemma bridge_noBridge : bridge noBridge = [] := if_pos rfl

lemma libName_eq (orig : Str) :
    (if orig = [] ∨ orig = noBridge then zygiskldr else zygiskldr ++ orig) =
      zygiskldr ++ bridge orig := by
  by_cases h : orig = noBridge
  · rw [if_pos (.inr h), bridge, if_pos h, append_nil]
  · rw [bridge, if_neg h]
    by_cases h' : orig = []
    · rw [if_pos (.inl h'), h', append_nil]
    · rw [if_neg (not_or.mpr ⟨h', h⟩)]

section Kept

variable {σ : Type*} {P : SysProp σ} {orig : Str} {s : State σ} {c : Call}

/-- What the calls keep: the loader's name is what the property holds, as long as it is
set. -/
def Inv (P : SysProp σ) (orig : Str) (s : State σ) : Prop :=
  (s.zygisk.libName = [] ∧ bridge (getProp P s.area nbprop) = bridge orig) ∨
    (s.zygisk.libName = zygiskldr ++ bridge orig ∧
      getProp P s.area nbprop = zygiskldr ++ bridge orig)

lemma zygiskldr_append_ne (val : Str) : zygiskldr ++ val ≠ [] := by
  intro h
  exact absurd (append_eq_nil_iff.mp h).1 (by decide)

lemma Inv.kept (h : Inv P orig s) : Kept P orig s := by
  rw [Kept]
  rcases h with ⟨hlib, hprop⟩ | ⟨hlib, hprop⟩
  · rw [if_pos hlib, hprop]
  · rw [if_neg (hlib ▸ zygiskldr_append_ne _), hprop]

lemma Inv.startCount (h : Inv P orig s) (n : UInt32) :
    Inv P orig { s with zygisk := { s.zygisk with startCount := n } } := h

lemma Inv.setProp (h : Inv P orig s) : Inv P orig (s.setProp P) := by
  rcases h with ⟨hlib, hprop⟩ | ⟨hlib, hprop⟩
  · have hset : getProp P (Resetprop.setProp P s.area nbprop (zygiskldr ++ bridge orig)) nbprop =
        zygiskldr ++ bridge orig := Resetprop.getProp_setProp_self (by decide) _
    simp only [State.setProp, hlib, ne_eq, not_true_eq_false, if_false, libName_eq, hprop]
    refine .inr ⟨rfl, ?_⟩
    split_ifs
    · -- Maple's property is another one
      rw [Resetprop.getProp_setProp_ne (by decide) _ (by decide), hset]
    · exact hset
  · rw [State.setProp, if_pos (hlib ▸ zygiskldr_append_ne _)]
    exact .inr ⟨hlib, hprop⟩

lemma getProp_restoreProp (s : State σ) : getProp P (s.restoreProp P).area nbprop =
    if zygiskldr.length < s.zygisk.libName.length then s.zygisk.libName.drop zygiskldr.length
    else noBridge := Resetprop.getProp_setProp_self (by decide) _

/-- A restore keeps the invariant if the original value is at hand. -/
lemma Inv.restoreProp (h : Inv P orig s) (hok : s.zygisk.libName ≠ [] ∨ bridge orig = []) :
    Inv P orig (s.restoreProp P) := by
  refine .inl ⟨rfl, ?_⟩
  rw [getProp_restoreProp]
  rcases h with ⟨hlib, -⟩ | ⟨hlib, -⟩
  · have hnone : bridge orig = [] := hok.resolve_left fun hne => hne hlib
    rw [hlib, if_neg (by simp), bridge_noBridge, hnone]
  · rw [hlib]
    split_ifs with hlen
    · rw [drop_left, bridge_bridge]
    · have hnone : bridge orig = [] := by
        rw [length_append, Nat.lt_add_right_iff_pos, not_lt, Nat.le_zero] at hlen
        exact length_eq_zero_iff.mp hlen
      rw [bridge_noBridge, hnone]

lemma not_kept_restoreProp (hlib : s.zygisk.libName = []) (horig : bridge orig ≠ []) :
    ¬ Kept P orig (s.restoreProp P) := by
  intro h
  rw [Kept, getProp_restoreProp, hlib] at h
  exact horig h.symm

lemma call_eq (P : SysProp σ) (s : State σ) (c : Call) :
    ∃ n, call P s c =
      if restores s.zygisk c then
        State.restoreProp P { s with zygisk := { s.zygisk with startCount := n } }
      else State.setProp P { s with zygisk := { s.zygisk with startCount := n } } := by
  cases c with
  | setProp => exact ⟨s.zygisk.startCount, rfl⟩
  | restoreProp => exact ⟨s.zygisk.startCount, rfl⟩
  | reset restore =>
    cases restore with
    | false => exact ⟨s.zygisk.startCount + 1, rfl⟩
    | true => exact ⟨1, rfl⟩

lemma Inv.call (h : Inv P orig s) (hok : CallOk orig s.zygisk c) : Inv P orig (call P s c) := by
  obtain ⟨n, hn⟩ := call_eq P s c
  rw [hn]
  split_ifs with hr
  · exact (h.startCount n).restoreProp (hok hr)
  · exact (h.startCount n).setProp

lemma callOk_of_kept (hk : Kept P orig (call P s c)) : CallOk orig s.zygisk c := by
  intro hr
  by_contra hno
  rw [not_or, not_not] at hno
  obtain ⟨n, hn⟩ := call_eq P s c
  rw [hn, if_pos hr] at hk
  exact not_kept_restoreProp hno.1 hno.2 hk

lemma run_concat (s : State σ) (cs : List Call) (c : Call) :
    run P s (cs ++ [c]) = call P (run P s cs) c := by
  rw [run, foldl_append]
  rfl

lemma Inv.run (h : Inv P orig s) (cs : List Call)
    (hok : ∀ pre c, pre ++ [c] <+: cs → CallOk orig (Zygisk.run P s pre).zygisk c) :
    Inv P orig (Zygisk.run P s cs) := by
  induction cs using List.reverseRecOn with
  | nil => exact h
  | append_singleton cs c ih =>
    rw [run_concat]
    have hpre := ih fun pre d hd => hok pre d (hd.trans (prefix_append _ _))
    exact hpre.call (hok cs c (prefix_refl _))

lemma inv_fresh (P : SysProp σ) (area : σ) :
    Inv P (getProp P area nbprop) ⟨area, .fresh⟩ := .inl ⟨rfl, rfl⟩

/-- **When the property is kept.**  For every property area and every sequence of calls on
a fresh state, the property is kept at every moment exactly if every call is in
order: a restore comes while the property is set, or there was no original
value. -/
theorem kept_iff (P : SysProp σ) (area : σ) (cs : List Call) :
    (∀ pre, pre <+: cs → Kept P (getProp P area nbprop) (run P ⟨area, .fresh⟩ pre)) ↔
      ∀ pre c, pre ++ [c] <+: cs →
        CallOk (getProp P area nbprop) (run P ⟨area, .fresh⟩ pre).zygisk c := by
  constructor
  · intro hk pre c hpre
    have hlast := hk (pre ++ [c]) hpre
    rw [run_concat] at hlast
    exact callOk_of_kept hlast
  · intro hok pre hpre
    exact ((inv_fresh P area).run pre fun p c hp => hok p c (hp.trans hpre)).kept

end Kept

/-! ### A property that is lost -/

/-- A property area that keeps the promises: a map. -/
def mapArea : SysProp (Str → Option Str) where
  find s := s
  isLong s key := (s key).any fun val => propValueMax ≤ val.length
  update s key val :=
    if ((s key).any fun old => propValueMax ≤ old.length) || propValueMax ≤ val.length then s
    else update s key (some val)
  add s key val :=
    if !readOnly key && propValueMax ≤ val.length then s else update s key (some val)
  delete s key := update s key none
  find_update s key val _ hlong hlen := by
    have hlen' : ¬ propValueMax ≤ val.length := not_le.mpr hlen
    rw [if_neg]
    simp only [hlong, Bool.false_or, decide_eq_true_eq]
    exact hlen'
  find_add s key val _ hro := by
    rw [hro]
    rfl
  find_delete _ _ := rfl

/-- A device with a native bridge. -/
def houdini : Str → Option Str := fun key =>
  if key = nbprop then some (str "libhoudini.so") else none

/-- The daemon is stopped without having set the property: the native bridge is gone. -/
theorem bridge_lost :
    getProp mapArea houdini nbprop = str "libhoudini.so" ∧
      getProp mapArea (run mapArea ⟨houdini, .fresh⟩ [.restoreProp]).area nbprop = str "0" ∧
      ¬ Kept mapArea (getProp mapArea houdini nbprop)
        (run mapArea ⟨houdini, .fresh⟩ [.restoreProp]) := by
  refine ⟨by decide, by decide, not_kept_restoreProp rfl ?_⟩
  decide

end Magisk.Core.Zygisk
