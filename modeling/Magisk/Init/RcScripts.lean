import Magisk.Base.Str
import Magisk.Lib.Utf8
import Mathlib.Data.List.TakeWhile

/-!
# Patching init.rc

`patch_rc_scripts` reads `init.rc` line by line through a reader for UTF-8 and prints each line as
a C string.

* `lines`, `forEachLine`: the lines of a file, and those that the callback is called with;
* `substitute`, `patchInitRc`: what is printed for some lines, and the file that is written;
* `patchInitRc_iff`: when no other line is lost or altered.
-/

namespace Magisk.Init

open Magisk.Base Magisk.Lib List Option

/-- The lines of a file, each with the newline that ends it. -/
def lines : Str → List Str
  | [] => []
  | c :: s =>
    if c = chr '\n' then [c] :: lines s
    else
      match lines s with
      | [] => [[c]]
      | l :: ls => (c :: l) :: ls

/-- `for_each_line`: at a line that is not UTF-8 `read_line` fails, and the loop ends. -/
def forEachLine (content : Str) : List Str := (lines content).takeWhile validUtf8

/-- `line.sv().contains("start vaultkeeper")`. -/
def startsVaultkeeper (line : Str) : Bool :=
  line.tails.any ((str "start vaultkeeper").isPrefixOf ·)

/-- What the callback of `file_readline` prints for the lines that it knows. -/
def substitute (line : Str) : Option Str :=
  if startsVaultkeeper line then some []
  else if (str "service flash_recovery").isPrefixOf line then
    some (str "service flash_recovery /system/bin/true\n")
  else if (str "on property:persist.sys.zygote.early=").isPrefixOf line then
    some (str "on property:persist.sys.zygote.early.xxxxx=true\n")
  else none

/-- The callback.  Another line is printed with `fprintf("%s", line.c_str())`. -/
def patchLine (line : Str) : Str := (substitute line).getD (cStr line)

/-- What a line should become. -/
def wantedLine (line : Str) : Str := (substitute line).getD line

/-- The scripts of `rc_list`, and behind them what `inject_magisk_rc` writes. -/
def injected (rcList : List Str) (magiskRc : Str) : Str :=
  str "\n" ++ rcList.flatMap (fun script => str "\n" ++ cStr script ++ str "\n") ++ magiskRc

/-- The `init.rc` that `patch_rc_scripts` writes. -/
def patchInitRc (rcList : List Str) (magiskRc content : Str) : Str :=
  (forEachLine content).flatMap patchLine ++ injected rcList magiskRc

variable {line content : Str} {ls : List Str}

lemma ne_nil_of_mem_lines (h : line ∈ lines content) : line ≠ [] := by
  induction content generalizing line with
  | nil => cases h
  | cons c s ih =>
    rw [lines] at h
    split at h
    · rcases mem_cons.mp h with rfl | h
      · exact cons_ne_nil c []
      · exact ih h
    · split at h
      · rw [mem_singleton.mp h]
        exact cons_ne_nil c []
      · rename_i l ls hs
        rcases mem_cons.mp h with rfl | h
        · exact cons_ne_nil c l
        · exact ih (hs ▸ .tail _ h)

lemma wantedLine_eq_nil_iff (h : line ≠ []) :
    wantedLine line = [] ↔ startsVaultkeeper line = true := by
  unfold wantedLine substitute
  split_ifs with hv
  · simp [hv]
  · exact iff_of_false (by rw [getD_some]; decide) hv
  · exact iff_of_false (by rw [getD_some]; decide) hv
  · exact iff_of_false h hv

lemma prefix_wantedLine (line : Str) : patchLine line <+: wantedLine line := by
  rw [patchLine, wantedLine]
  cases substitute line with
  | some s => exact prefix_rfl
  | none => exact takeWhile_prefix _

lemma cStr_eq_self_iff : cStr line = line ↔ 0 ∉ line := by
  rw [cStr, takeWhile_eq_self_iff]
  simp only [decide_eq_true_eq]
  exact ⟨fun h h0 => h 0 h0 rfl, fun h c hc hc0 => h (hc0 ▸ hc)⟩

lemma patchLine_eq_iff :
    patchLine line = wantedLine line ↔ (substitute line = none → 0 ∉ line) := by
  rw [patchLine, wantedLine]
  cases substitute line with
  | some s => simp
  | none =>
    rw [getD_none, getD_none, cStr_eq_self_iff]
    simp

/-- No more is printed for the lines that are read than all of them should become. -/
lemma length_patched_le (ls : List Str) :
    ((ls.takeWhile validUtf8).flatMap patchLine).length ≤ (ls.flatMap wantedLine).length := by
  induction ls with
  | nil => exact le_rfl
  | cons l ls ih =>
    have hle := (prefix_wantedLine l).length_le
    rw [takeWhile_cons]
    split
    · simp only [flatMap_cons, length_append]
      omega
    · exact Nat.zero_le _

/-- **When no line of `init.rc` is lost or altered**: the lines from the first one on that is not
UTF-8 are all to be dropped, and before it no line that is copied has a NUL. -/
theorem patchInitRc_iff (rcList : List Str) (magiskRc content : Str) :
    patchInitRc rcList magiskRc content =
        (lines content).flatMap wantedLine ++ injected rcList magiskRc ↔
      (∀ l ∈ forEachLine content, substitute l = none → 0 ∉ l) ∧
        ∀ l ∈ (lines content).dropWhile validUtf8, startsVaultkeeper l = true := by
  have hne : ∀ l ∈ lines content, l ≠ [] := fun l => ne_nil_of_mem_lines
  rw [patchInitRc, forEachLine, append_left_inj]
  generalize lines content = ls at hne
  induction ls with
  | nil => simp
  | cons l ls ih =>
    obtain ⟨-, hls⟩ := forall_mem_cons.mp hne
    by_cases hv : validUtf8 l = true
    · rw [takeWhile_cons_of_pos hv, dropWhile_cons_of_pos hv, forall_mem_cons,
        and_assoc, flatMap_cons, flatMap_cons]
      refine Iff.trans ?_ (and_congr patchLine_eq_iff (ih hls))
      refine ⟨fun h => append_inj h ?_, fun h => by rw [h.1, h.2]⟩
      -- neither the line nor the rest is longer than it should be
      have hle := (prefix_wantedLine l).length_le
      have hrest := length_patched_le ls
      have hlen := congrArg List.length h
      rw [length_append, length_append] at hlen
      omega
    · rw [takeWhile_cons_of_neg hv, dropWhile_cons_of_neg hv, flatMap_nil, eq_comm,
        flatMap_eq_nil_iff]
      simp only [not_mem_nil, false_imp_iff, implies_true, true_and]
      exact forall₂_congr fun l hl => wantedLine_eq_nil_iff (hne l hl)

/-- What stands behind a line that is not UTF-8 is lost. -/
theorem patchInitRc_not_utf8 : patchInitRc [] [] (0xff :: str "\non boot\n") = str "\n" ∧
    (lines (0xff :: str "\non boot\n")).flatMap wantedLine = 0xff :: str "\non boot\n" := by
  decide

end Magisk.Init
