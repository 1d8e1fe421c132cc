import Magisk.Base.Str
import Magisk.Lib.Utf8

/-!
# Reading text files

The line reader shared by the Rust and C++ sides, and the number parser.

* `lines`, `forEachLine`: `BufReadExt::for_each_line`, which ends at the first line
  that is not valid UTF-8;
* `parseUint32Hex`, `parseInt`: `parse_uint32_hex` and `parse_int`;
* `hexDigits`, `parseUint32Hex_hexDigits`: a number printed with a fixed count of
  hexadecimal digits is read back.
-/

namespace Magisk.Base

open Magisk.Lib List

/-- `'\n'`. -/
abbrev newline : UInt8 := 10

/-! ### Lines -/

/-- What repeated calls of `read_line` find: each line with its newline, and a last
one that may lack it. -/
def lines : Str → List Str
  | [] => []
  | c :: cs =>
    if c = newline then [c] :: lines cs
    else
      match lines cs with
      | [] => [[c]]
      | l :: ls => (c :: l) :: ls

/-- `for_each_line`: the callback updates what it has captured and says whether to go
on.  `read_line` refuses a line that is not UTF-8, which ends the loop. -/
def forEachLine {σ : Type*} (f : Str → σ → σ × Bool) : List Str → σ → σ
  | [], s => s
  | l :: ls, s =>
    if validUtf8 l then
      match f l s with
      | (s', true) => forEachLine f ls s'
      | (s', false) => s'
    else s

lemma lines_append (hl : newline ∉ l) (rest : Str) :
    lines (l ++ newline :: rest) = (l ++ [newline]) :: lines rest := by
  induction l with
  | nil => rw [nil_append, lines, if_pos rfl, nil_append]
  | cons c l ih =>
    have hc : c ≠ newline := fun h => hl (h ▸ mem_cons_self)
    have hl' : newline ∉ l := fun h => hl (.tail _ h)
    rw [cons_append, lines, if_neg hc, ih hl']
    rfl

lemma lines_flatMap {ls : List Str} (hls : ∀ l ∈ ls, newline ∉ l) (rest : Str) :
    lines (ls.flatMap (· ++ [newline]) ++ rest) = ls.map (· ++ [newline]) ++ lines rest := by
  induction ls with
  | nil => rfl
  | cons l ls ih =>
    rw [flatMap_cons, append_assoc, append_assoc, singleton_append,
      lines_append (hls l (.head _)), ih fun m hm => hls m (.tail _ hm)]
    rfl

lemma forEachLine_skip {f : Str → σ → σ × Bool} {s : σ} {ls : List Str}
    (hls : ∀ l ∈ ls, validUtf8 l = true ∧ f l s = (s, true)) (rest : List Str) :
    forEachLine f (ls ++ rest) s = forEachLine f rest s := by
  induction ls with
  | nil => rfl
  | cons l ls ih =>
    obtain ⟨hvalid, hskip⟩ := hls l (.head _)
    rw [cons_append, forEachLine, if_pos hvalid, hskip]
    exact ih fun m hm => hls m (.tail _ hm)

/-! ### Numbers -/

/-- The value of one character in `parse_num<T, base>`. -/
def digit (base : Nat) (c : UInt8) : Option Nat :=
  let value : Option UInt8 :=
    if chr '0' ≤ c && c ≤ chr '9' then some (c - chr '0')
    else if 10 < base && chr 'A' ≤ c && c ≤ chr 'Z' then some (c - (chr 'A' - 10))
    else if 10 < base && chr 'a' ≤ c && c ≤ chr 'z' then some (c - (chr 'a' - 10))
    else none
  value.bind fun v => if base ≤ v.toNat then none else some v.toNat

/-- The loop of `parse_num<uint32_t, base>`; an error returns -1. -/
def parseUint32 (base : Nat) : Str → UInt32 → UInt32
  | [], val => val
  | c :: s, val =>
    match digit base c with
    | none => -1
    | some d => parseUint32 base s (val * UInt32.ofNat base + UInt32.ofNat d)

/-- `parse_uint32_hex`. -/
def parseUint32Hex (s : Str) : UInt32 := parseUint32 16 s 0

/-- `parse_int`.  A number that is too large wraps around. -/
def parseInt (s : Str) : Int32 := (parseUint32 10 s 0).toInt32

/-- One hexadecimal digit, as `printf("%x")` writes it. -/
def hexChar (d : Nat) : UInt8 := if d < 10 then chr '0' + d.toUInt8 else chr 'a' + (d - 10).toUInt8

/-- The last `n` hexadecimal digits of a number. -/
def hexDigits (n v : Nat) : Str :=
  match n with
  | 0 => []
  | n + 1 => hexChar (v / 16 ^ n % 16) :: hexDigits n v

lemma digit_hexChar (hd : d < 16) : digit 16 (hexChar d) = some d := by
  have hdec : ∀ d < 16, digit 16 (hexChar d) = some d := by decide
  exact hdec d hd

@[simp]
lemma length_hexDigits (n v : Nat) : (hexDigits n v).length = n := by
  induction n with
  | zero => rfl
  | succ n ih => rw [hexDigits, length_cons, ih]

lemma exists_of_mem_hexDigits (h : c ∈ hexDigits n v) : ∃ d < 16, c = hexChar d := by
  induction n with
  | zero => cases h
  | succ n ih =>
    rcases mem_cons.mp h with rfl | h
    · exact ⟨_, Nat.mod_lt _ (by decide), rfl⟩
    · exact ih h

lemma hexDigits_add (m n v : Nat) :
    hexDigits (m + n) v = hexDigits m (v / 16 ^ n) ++ hexDigits n v := by
  induction m with
  | zero => rw [Nat.zero_add, hexDigits, nil_append]
  | succ m ih =>
    rw [Nat.succ_add, hexDigits, hexDigits, ih, cons_append, Nat.div_div_eq_div_mul,
      Nat.add_comm m n, pow_add]

lemma parseUint32_hexDigits (n v acc : Nat) :
    parseUint32 16 (hexDigits n v) (UInt32.ofNat acc) =
      UInt32.ofNat (acc * 16 ^ n + v % 16 ^ n) := by
  induction n generalizing acc with
  | zero => rw [hexDigits, parseUint32, pow_zero, Nat.mod_one, Nat.mul_one, Nat.add_zero]
  | succ n ih =>
    rw [hexDigits, parseUint32, digit_hexChar (Nat.mod_lt _ (by decide))]
    simp only [← UInt32.ofNat_mul, ← UInt32.ofNat_add]
    rw [ih, Nat.mod_pow_succ]
    ring

lemma parseUint32Hex_hexDigits (v : Nat) :
    parseUint32Hex (hexDigits 8 v) = UInt32.ofNat (v % 2 ^ 32) := by
  have h := parseUint32_hexDigits 8 v 0
  rwa [Nat.zero_mul, Nat.zero_add] at h

end Magisk.Base
