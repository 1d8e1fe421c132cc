import Magisk.Base.Str
import Magisk.Lib.Utf8

/-!
# The walk over the modules

`for_each_module` calls a function on each module in the order of the directory, except for those
whose names are not UTF-8.  The first call that fails ends the walk.

* `forEachModule`: the walk;
* `disableModules`, `removeModules`, `collectModules`: what it is used for;
* `handled`: what the function does to each module alone;
* `rest_handled_iff`: when a module that fails does not change what happens to the others.
-/

namespace Magisk.Core.ModuleWalk

open Magisk.Base Magisk.Lib List

/-- An entry of the module directory: which of the operations on it succeed, the paths that the
module contains, and the libraries for zygisk that can be opened. -/
structure DirEntry where
  name : Str
  isDir : Bool
  openAsDir : Bool
  createDisable : Bool
  removeAll : Bool
  unlink : Bool
  containsPath : Str → Bool
  z32 : Int
  z64 : Int

/-- `ModuleInfo`. -/
structure ModuleInfo where
  name : Str
  z32 : Int
  z64 : Int
  deriving DecidableEq

section Walk

variable {α : Type} (func : DirEntry → Option (Option α))

/-- The entries that are modules. -/
def isModule (e : DirEntry) : Bool := e.isDir && e.name != str ".core"

/-- `for_each_module`, with what the function that is called adds for each module.  If it fails the
walk ends. -/
def forEachModule : List DirEntry → List α
  | [] => []
  | e :: es =>
    if validUtf8 e.name && isModule e then
      match func e with
      | none => []
      | some out => out.toList ++ forEachModule es
    else forEachModule es

/-- What the function adds for each module where it does not fail. -/
def handled (es : List DirEntry) : List α := (es.filter isModule).filterMap fun e => (func e).join

/-- Nothing is to be done for the modules whose names are not UTF-8, nor for those from the first
one on that fails. -/
def Complete (es : List DirEntry) : Prop :=
  (∀ e ∈ es, isModule e = true → validUtf8 e.name = false → (func e).join = none) ∧
    ∀ e ∈ (es.filter fun e => validUtf8 e.name && isModule e).dropWhile fun e => (func e).isSome,
      (func e).join = none

variable {func}

lemma forEachModule_eq (es : List DirEntry) : forEachModule func es =
    ((es.filter fun e => validUtf8 e.name && isModule e).takeWhile
      fun e => (func e).isSome).filterMap fun e => (func e).join := by
  induction es with
  | nil => rfl
  | cons e es ih =>
    rw [forEachModule, filter_cons]
    split
    · cases hfunc : func e with
      | none => simp [hfunc]
      | some out => cases out <;> simp [hfunc, ih]
    · exact ih

lemma filterMap_filter_eq_iff {β : Type} {p : β → Bool} {g : β → Option α} (l : List β) :
    (l.filter p).filterMap g = l.filterMap g ↔ ∀ b ∈ l, p b = false → g b = none := by
  induction l with
  | nil => simp
  | cons b l ih =>
    have hle := ((filter_sublist (p := p) (l := l)).filterMap g).length_le
    cases hp : p b <;> cases hg : g b
    · simp [hp, hg, ih]
    · simp only [filter_cons, hp, filterMap_cons, hg, forall_mem_cons]
      refine iff_of_false (fun h => ?_) (by simp)
      have hlen := congrArg length h
      simp at hlen
      omega
    · simp [hp, hg, ih]
    · simp [hp, hg, ih]

/-- **The walk does what there is to do** just if it passes by no module that counts. -/
lemma forEachModule_eq_iff (es : List DirEntry) :
    forEachModule func es = handled func es ↔ Complete func es := by
  rw [forEachModule_eq, handled]
  set ms := es.filter isModule with hms
  set visited := es.filter fun e => validUtf8 e.name && isModule e with hvisited
  set g : DirEntry → Option α := fun e => (func e).join
  have hread : visited.filterMap g = ms.filterMap g ↔
      ∀ e ∈ ms, validUtf8 e.name = false → g e = none := by
    rw [← filterMap_filter_eq_iff ms, filter_filter]
  have hle : (visited.filterMap g).length ≤ (ms.filterMap g).length := by
    rw [hvisited, ← filter_filter]
    exact (filter_sublist.filterMap g).length_le
  have hsplit := congrArg (filterMap g)
    (takeWhile_append_dropWhile (p := fun e => (func e).isSome) (l := visited))
  rw [filterMap_append] at hsplit
  have hlen := congrArg length hsplit
  rw [length_append] at hlen
  constructor
  · intro h
    have htake := congrArg length h
    have hdrop : (visited.dropWhile fun e => (func e).isSome).filterMap g = [] :=
      length_eq_zero_iff.1 (by omega)
    rw [hdrop, append_nil, h] at hsplit
    exact ⟨fun e he hmod => hread.1 hsplit.symm e (mem_filter.2 ⟨he, hmod⟩),
      filterMap_eq_nil_iff.1 hdrop⟩
  · rintro ⟨hskip, hdrop⟩
    rw [filterMap_eq_nil_iff.2 hdrop, append_nil] at hsplit
    rw [hsplit]
    exact hread.2 fun e he => hskip e (mem_of_mem_filter he) (mem_filter.1 he).2

end Walk

/-! ### The three walks -/

/-- `disable_modules`: the modules that are marked. -/
def disable (e : DirEntry) : Option (Option Str) :=
  if e.openAsDir && e.createDisable then some (some e.name) else none

/-- `remove_modules`: the modules whose `uninstall.sh` is run. -/
def uninstall (e : DirEntry) : Option (Option Str) :=
  if e.openAsDir then some (if e.containsPath (str "uninstall.sh") then some e.name else none)
  else none

/-- `collect_modules`: the modules that are returned. -/
def collect (zygiskEnabled openZygisk : Bool) (e : DirEntry) : Option (Option ModuleInfo) :=
  if !e.openAsDir then none
  else if e.containsPath (str "remove") then if e.removeAll && e.unlink then some none else none
  else if e.containsPath (str "disable") then some none
  else if zygiskEnabled then
    if e.name = str "riru-core" || e.containsPath (str "riru") then some none
    else if openZygisk && e.containsPath (str "zygisk") then some (some ⟨e.name, e.z32, e.z64⟩)
    else some (some ⟨e.name, -1, -1⟩)
  else if e.containsPath (str "zygisk") then some none
  else some (some ⟨e.name, -1, -1⟩)

/-- **When a broken module does not change what happens to the rest**: in none of the walks does a
module that fails stand before one for which there is something to do, or has such a module a name
that is not UTF-8. -/
theorem rest_handled_iff (zygiskEnabled openZygisk : Bool) (es : List DirEntry) :
    (forEachModule disable es = handled disable es ∧
      forEachModule uninstall es = handled uninstall es ∧
      forEachModule (collect zygiskEnabled openZygisk) es =
        handled (collect zygiskEnabled openZygisk) es) ↔
    Complete disable es ∧ Complete uninstall es ∧
      Complete (collect zygiskEnabled openZygisk) es := by
  simp only [forEachModule_eq_iff]

/-- A module that cannot be opened, and one behind it. -/
theorem rest_not_handled :
    let broken : DirEntry := ⟨str "a", true, false, false, false, false, fun _ => false, -1, -1⟩
    let healthy : DirEntry := ⟨str "b", true, true, true, true, true,
      fun p => p == str "uninstall.sh", -1, -1⟩
    forEachModule disable [broken, healthy] = [] ∧ handled disable [broken, healthy] = [str "b"] ∧
      forEachModule uninstall [broken, healthy] = [] ∧
      handled uninstall [broken, healthy] = [str "b"] ∧
      forEachModule (collect true true) [broken, healthy] = [] ∧
      handled (collect true true) [broken, healthy] = [⟨str "b", -1, -1⟩] := by
  decide

end Magisk.Core.ModuleWalk
