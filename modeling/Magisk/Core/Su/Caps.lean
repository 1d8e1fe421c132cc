import Magisk.Base.Text

/-!
# Capability restriction of su requests

A requester whose bounding set is `CAP_SETUID` alone is restricted, and so should be
the shells it asks for.  The daemon finds out by reading the requester's
`/proc/<pid>/status`, whose first line shows a name the process has chosen.

* `procIsRestricted`, `dropCaps`, `execRootShell`: the code;
* `StatusText`: what the kernel writes around the bounding set;
* `procIsRestricted_content`: a name that is not UTF-8 hides the bounding set;
* `restriction_inherited_iff`: the answer is right, and chains of requests stay
  restricted, exactly if the names are UTF-8.
-/

namespace Magisk.Core.Su

open Magisk.Base Magisk.Lib List

/-! ### The code -/

/-- A set of capabilities, one bit each. -/
abbrev CapSet := BitVec 64

/-- `CAP_SETUID`. -/
def capSetuid : Nat := 7

/-- `CAP_SETPCAP`. -/
def capSetpcap : Nat := 8

/-- `CAP_WAKE_ALARM`. -/
def capWakeAlarm : Nat := 35

/-- `CAP_TO_INDEX`. -/
def capToIndex (cap : Nat) : Nat := cap / 32

/-- `CAP_TO_MASK`. -/
def capToMask (cap : Nat) : UInt32 := 1 <<< UInt32.ofNat (cap % 32)

/-- `isspace` in the C locale. -/
def isSpace (c : UInt8) : Bool := c = 32 || (9 ≤ c && c ≤ 13)

/-- The callback of `proc_is_restricted`: the two words of `data`, filled from the line
of the bounding set, whose last eight digits are the first word. -/
def readCapBnd (line : Str) (data : UInt32 × UInt32) : (UInt32 × UInt32) × Bool :=
  let bnd := str "CapBnd:"
  if bnd.isPrefixOf line then
    let line := (line.drop bnd.length).dropWhile isSpace
    ((parseUint32Hex ((line.drop 8).take 8), parseUint32Hex (line.take 8)), false)
  else (data, true)

/-- `proc_is_restricted`, on the content of the status file. -/
def procIsRestricted (status : Str) : Bool :=
  let data := forEachLine readCapBnd (lines status) (0, 0)
  let expected (i : Nat) : UInt32 := if i = capToIndex capSetuid then capToMask capSetuid else 0
  data.1 = expected 0 && data.2 = expected 1

/-- The credentials `drop_caps` works on. -/
structure Creds where
  bounding : CapSet
  inheritable : CapSet
  noRoot : Bool
  deriving DecidableEq

/-- `last_valid_cap`: the loop counts up from `CAP_WAKE_ALARM` to the first capability
the kernel does not know. -/
def lastValidCap (capLastCap : Nat) : Nat := max (capWakeAlarm - 1) capLastCap

/-- `drop_caps`. -/
def dropCaps (capLastCap : Nat) (creds : Creds) : Creds where
  bounding := (List.range (lastValidCap capLastCap + 1)).foldl
    (fun b cap => if cap ≠ capSetuid then b &&& ~~~ (1#64 <<< cap) else b) creds.bounding
  inheritable := 0
  noRoot := true

/-- The privileges of the shell `exec_root_shell` starts. -/
def execRootShell (capLastCap : Nat) (dropCap : Bool) (status : Str) (creds : Creds) : Creds :=
  if dropCap || procIsRestricted status then dropCaps capLastCap creds else creds

/-! ### The status file -/

/-- The bounding set of a restricted process. -/
def setuidOnly : CapSet := 1#64 <<< capSetuid

/-- What the kernel writes around the bounding set: the name of the process, which may
hold anything but a newline, ASCII lines of other fields, and the rest. -/
structure StatusText where
  name : Str
  before : List Str
  after : Str
  name_newline : newline ∉ name
  before_newline : ∀ l ∈ before, newline ∉ l
  before_ascii : ∀ l ∈ before, ∀ c ∈ l, c < 128
  before_field : ∀ l ∈ before, (str "CapBnd:").isPrefixOf l = false

/-- The content of `/proc/<pid>/status`. -/
def StatusText.content (t : StatusText) (bnd : CapSet) : Str :=
  (str "Name:\t" ++ t.name) ++ newline ::
    (t.before.flatMap (· ++ [newline]) ++
      ((str "CapBnd:\t" ++ hexDigits 16 bnd.toNat) ++ newline :: t.after))

lemma newline_notMem_hexDigits (n v : Nat) : newline ∉ hexDigits n v := by
  intro h
  obtain ⟨d, hd, heq⟩ := exists_of_mem_hexDigits h
  have hne : ∀ d < 16, newline ≠ hexChar d := by decide
  exact hne d hd heq

lemma lines_content (t : StatusText) (bnd : CapSet) :
    lines (t.content bnd) = (str "Name:\t" ++ t.name ++ [newline]) ::
      (t.before.map (· ++ [newline]) ++
        (str "CapBnd:\t" ++ hexDigits 16 bnd.toNat ++ [newline]) :: lines t.after) := by
  have hname : newline ∉ str "Name:\t" ++ t.name := by
    rw [mem_append, not_or]
    exact ⟨by decide, t.name_newline⟩
  have hbnd : newline ∉ str "CapBnd:\t" ++ hexDigits 16 bnd.toNat := by
    rw [mem_append, not_or]
    exact ⟨by decide, newline_notMem_hexDigits _ _⟩
  rw [StatusText.content, lines_append hname, lines_flatMap t.before_newline, lines_append hbnd]

/-- The callback reads the two words of the bounding set. -/
lemma readCapBnd_bnd (v : Nat) (data : UInt32 × UInt32) :
    readCapBnd (str "CapBnd:\t" ++ hexDigits 16 v ++ [newline]) data =
      ((UInt32.ofNat (v % 2 ^ 32), UInt32.ofNat (v / 2 ^ 32 % 2 ^ 32)), false) := by
  have hline : str "CapBnd:\t" ++ hexDigits 16 v ++ [newline]
      = str "CapBnd:" ++ (9 :: (hexDigits 16 v ++ [newline])) := by
    rw [show str "CapBnd:\t" = str "CapBnd:" ++ [9] by decide]
    simp only [append_assoc, cons_append, nil_append]
  -- the tab is skipped, and the first digit ends the skipping
  have hspace : (9 :: (hexDigits 16 v ++ [newline])).dropWhile isSpace
      = hexDigits 16 v ++ [newline] := by
    have hdigit : ∀ d < 16, isSpace (hexChar d) = false := by decide
    rw [dropWhile_cons_of_pos (by decide), hexDigits, cons_append,
      dropWhile_cons_of_neg (by rw [hdigit _ (Nat.mod_lt _ (by decide))]; decide)]
  have hsplit : hexDigits 16 v = hexDigits 8 (v / 2 ^ 32) ++ hexDigits 8 v := hexDigits_add 8 8 v
  have hlow : ((hexDigits 16 v ++ [newline]).drop 8).take 8 = hexDigits 8 v := by
    rw [hsplit, append_assoc, drop_left' (length_hexDigits _ _),
      take_left' (length_hexDigits _ _)]
  have hhigh : (hexDigits 16 v ++ [newline]).take 8 = hexDigits 8 (v / 2 ^ 32) := by
    rw [hsplit, append_assoc, take_left' (length_hexDigits _ _)]
  simp [readCapBnd, hline, hspace, hlow, hhigh, parseUint32Hex_hexDigits]

lemma readCapBnd_other {l : Str} (hl : (str "CapBnd:").isPrefixOf l = false)
    (data : UInt32 × UInt32) : readCapBnd (l ++ [newline]) data = (data, true) := by
  rw [readCapBnd, if_neg]
  intro h
  rcases prefix_concat_iff.mp ( isPrefixOf_iff_prefix.mp h) with heq | hpre
  · have hmem : newline ∈ str "CapBnd:" := heq ▸ mem_append_right _ (.head _)
    exact absurd hmem (by decide)
  · rw [ isPrefixOf_iff_prefix.mpr hpre] at hl
    cases hl

lemma words_eq_iff (bnd : CapSet) :
    (UInt32.ofNat (bnd.toNat % 2 ^ 32) = 0x80 ∧ UInt32.ofNat (bnd.toNat / 2 ^ 32 % 2 ^ 32) = 0) ↔
      bnd = setuidOnly := by
  rw [← UInt32.toNat_inj, ← UInt32.toNat_inj, ← BitVec.toNat_inj, UInt32.toNat_ofNat',
    UInt32.toNat_ofNat']
  have h80 : (0x80 : UInt32).toNat = 128 := rfl
  have h0 : (0 : UInt32).toNat = 0 := rfl
  have hset : setuidOnly.toNat = 128 := by decide
  omega

/-- `proc_is_restricted` finds a restricted requester, unless the name of the requester
is not UTF-8: then the reader gives up before the bounding set. -/
lemma procIsRestricted_content (t : StatusText) (bnd : CapSet) :
    procIsRestricted (t.content bnd) = (validUtf8 t.name && decide (bnd = setuidOnly)) := by
  have hnameValid : validUtf8 (str "Name:\t" ++ t.name ++ [newline]) = validUtf8 t.name := by
    rw [validUtf8_append_right (by decide), validUtf8_append_left (ascii_of_all (by decide))]
  cases hvalid : validUtf8 t.name with
  | false =>
    rw [hvalid] at hnameValid
    simp only [procIsRestricted, lines_content, forEachLine, hnameValid]
    rfl
  | true =>
    rw [hvalid] at hnameValid
    have hname : readCapBnd (str "Name:\t" ++ t.name ++ [newline]) (0, 0) = ((0, 0), true) := by
      rw [readCapBnd]
      simp [str, String.utf8EncodeChar]
    have hbefore : ∀ l ∈ t.before.map (· ++ [newline]),
        validUtf8 l = true ∧ readCapBnd l (0, 0) = ((0, 0), true) := by
      intro l hl
      obtain ⟨l, hmem, rfl⟩ := mem_map.mp hl
      rw [validUtf8_append_right (by decide), validUtf8_ascii (t.before_ascii l hmem)]
      exact ⟨rfl, readCapBnd_other (t.before_field l hmem) _⟩
    have hbnd : validUtf8 (str "CapBnd:\t" ++ hexDigits 16 bnd.toNat ++ [newline]) = true := by
      rw [validUtf8_append_right (by decide), validUtf8_append_left (ascii_of_all (by decide))]
      refine validUtf8_ascii fun c hc => ?_
      obtain ⟨d, hd, rfl⟩ := exists_of_mem_hexDigits hc
      have hascii : ∀ d < 16, hexChar d < 128 := by decide
      exact hascii d hd
    have hdata : forEachLine readCapBnd (lines (t.content bnd)) (0, 0)
        = (UInt32.ofNat (bnd.toNat % 2 ^ 32), UInt32.ofNat (bnd.toNat / 2 ^ 32 % 2 ^ 32)) := by
      rw [lines_content, forEachLine, if_pos hnameValid, hname]
      simp only
      rw [forEachLine_skip hbefore, forEachLine, if_pos hbnd, readCapBnd_bnd]
    have hiff := words_eq_iff bnd
    simp only [procIsRestricted, hdata, Bool.true_and]
    rw [Bool.eq_iff_iff, Bool.and_eq_true, decide_eq_true_iff, decide_eq_true_iff,
      decide_eq_true_iff, ← hiff]
    rfl

/-! ### Chains of requests -/

/-- The kernel and the daemon: the last capability there is, and the credentials of the
daemon, which has the right to drop capabilities. -/
structure Daemon where
  capLastCap : Nat
  creds : Creds
  valid : ∀ cap, creds.bounding.getLsbD cap = true → cap ≤ capLastCap
  setuid : creds.bounding.getLsbD capSetuid = true
  setpcap : creds.bounding.getLsbD capSetpcap = true

/-- A request and the status text of the process that makes it. -/
structure SuRequest where
  dropCap : Bool
  requester : StatusText

/-- The bounding sets of the shells in a chain of requests, each made by the shell
before it. -/
def chain (d : Daemon) : CapSet → List SuRequest → List CapSet
  | _, [] => []
  | bnd, req :: reqs =>
    let shell := execRootShell d.capLastCap req.dropCap (req.requester.content bnd) d.creds
    shell.bounding :: chain d shell.bounding reqs

lemma getLsbD_bit (hi : i < 64) (cap : Nat) : (1#64 <<< cap).getLsbD i = decide (i = cap) := by
  rw [BitVec.getLsbD_shiftLeft, BitVec.getLsbD_one, Bool.eq_iff_iff]
  simp only [Bool.and_eq_true, decide_eq_true_iff, Bool.not_eq_true', decide_eq_false_iff_not]
  omega

/-- What is left of a capability after dropping those below `n`. -/
lemma getLsbD_drop (n : Nat) (b : CapSet) (i : Nat) :
    ((List.range n).foldl
      (fun b cap => if cap ≠ capSetuid then b &&& ~~~ (1#64 <<< cap) else b) b).getLsbD i
      = (b.getLsbD i && (decide (i = capSetuid) || decide (n ≤ i))) := by
  induction n with
  | zero => simp
  | succ n ih =>
    rw [range_succ, foldl_append, foldl_cons, foldl_nil]
    by_cases hn : n = capSetuid
    · rw [if_neg (not_not.mpr hn), ih]
      by_cases hi : i = capSetuid
      · simp [hi]
      · have hle : n ≤ i ↔ n + 1 ≤ i := by omega
        simp [hle]
    · rw [if_pos hn, BitVec.getLsbD_and, ih, BitVec.getLsbD_not]
      by_cases hb : b.getLsbD i = true
      · have hi : i < 64 := BitVec.lt_of_getLsbD hb
        rw [getLsbD_bit hi]
        by_cases hin : i = n
        · subst hin
          simp [hn]
        · have hle : n ≤ i ↔ n + 1 ≤ i := by omega
          simp [hi, hin, hle]
      · simp [hb]

lemma dropCaps_creds (d : Daemon) : (dropCaps d.capLastCap d.creds).bounding = setuidOnly := by
  refine BitVec.eq_of_getLsbD_eq fun i hi => ?_
  rw [dropCaps, getLsbD_drop, setuidOnly, getLsbD_bit hi]
  by_cases hset : i = capSetuid
  · rw [hset, d.setuid]
    rfl
  · rw [decide_eq_false hset, Bool.false_or, Bool.and_eq_false_iff, decide_eq_false_iff_not,
      ← Bool.not_eq_true, ← not_and_or]
    rintro ⟨hcap, hle⟩
    have hlast := d.valid i hcap
    rw [lastValidCap] at hle
    omega

lemma creds_ne_setuidOnly (d : Daemon) : d.creds.bounding ≠ setuidOnly := by
  intro h
  have hcap := d.setpcap
  rw [h] at hcap
  exact absurd hcap (by decide)

/-- The shell of a restricted requester is restricted, unless the name of the requester
hides its bounding set. -/
lemma execRootShell_restricted_iff (d : Daemon) (req : SuRequest) :
    (execRootShell d.capLastCap req.dropCap (req.requester.content setuidOnly) d.creds).bounding
        = setuidOnly ↔ req.dropCap = true ∨ validUtf8 req.requester.name = true := by
  rw [execRootShell, procIsRestricted_content]
  by_cases h : req.dropCap = true ∨ validUtf8 req.requester.name = true
  · have hcond : (req.dropCap || (validUtf8 req.requester.name && decide (setuidOnly = setuidOnly)))
        = true := by simpa using h
    rw [if_pos hcond]
    exact ⟨fun _ => h, fun _ => dropCaps_creds d⟩
  · have hcond : ¬ (req.dropCap ||
        (validUtf8 req.requester.name && decide (setuidOnly = setuidOnly))) = true := by
      simpa using h
    rw [if_neg hcond]
    exact ⟨fun heq => absurd heq (creds_ne_setuidOnly d), fun hor => absurd hor h⟩

lemma chain_restricted_iff (d : Daemon) (reqs : List SuRequest) :
    (∀ b ∈ chain d setuidOnly reqs, b = setuidOnly) ↔
      ∀ req ∈ reqs, req.dropCap = true ∨ validUtf8 req.requester.name = true := by
  induction reqs with
  | nil => simp [chain]
  | cons req reqs ih =>
    rw [chain, forall_mem_cons, forall_mem_cons, execRootShell_restricted_iff]
    refine and_congr_right fun hreq => ?_
    rw [(execRootShell_restricted_iff d req).mpr hreq]
    exact ih

/-- **Inheritance of the restriction.**  `proc_is_restricted` answers rightly for a
requester exactly if its name is valid UTF-8 or it is not restricted, and a
chain of requests from a restricted process stays restricted exactly if each
request asks for it or comes from a process with such a name. -/
theorem restriction_inherited_iff (t : StatusText) (bnd : CapSet) (d : Daemon)
    (reqs : List SuRequest) :
    (procIsRestricted (t.content bnd) = decide (bnd = setuidOnly) ↔
      validUtf8 t.name = true ∨ bnd ≠ setuidOnly) ∧
    ((∀ b ∈ chain d setuidOnly reqs, b = setuidOnly) ↔
      ∀ req ∈ reqs, req.dropCap = true ∨ validUtf8 req.requester.name = true) := by
  refine ⟨?_, chain_restricted_iff d reqs⟩
  rw [procIsRestricted_content]
  by_cases hbnd : bnd = setuidOnly
  · simp [hbnd]
  · simp [hbnd]

/-- A process with one byte `0xFF` for a name. -/
def hiddenName : StatusText where
  name := [0xFF]
  before := [str "CapInh:\t0000000000000000"]
  after := str "NoNewPrivs:\t0\n"
  name_newline := by decide
  before_newline := by decide
  before_ascii := fun l hl => mem_singleton.mp hl ▸ ascii_of_all (by decide)
  before_field := by decide

/-- The restricted process of that name is taken for an unrestricted one. -/
theorem hiddenName_not_restricted :
    ¬ (procIsRestricted (hiddenName.content setuidOnly) = true) := by
  decide

end Magisk.Core.Su
