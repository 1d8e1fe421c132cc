import Magisk.Lib.Wire

/-!
# Readers that fail

A reader hands out its items in pieces, and any call may return an error instead.  An
interruption asks to call again.

* `Reader`, `Reader.read`: what the calls will return, and one call;
* `Reader.content`, `Reader.failures`: the items and the errors to come;
* `fill`: calls until a buffer is full, an error is returned or the reader is at its end;
* `fill_spec`: what was read was there, and a full buffer means that no call has failed;
* `Reader.ofSource`: sources are readers that are only interrupted.
-/

namespace Magisk.Lib

open List

universe u

/-- The errors of a call. -/
inductive ReadError where
  | interrupted
  | unexpectedEof
  | other
  deriving DecidableEq

/-- What a call can return: some items, or an error. -/
inductive Chunk (α : Type u) where
  | items (first : α) (rest : List α)
  | failed (e : ReadError)

/-- What the calls will return.  After that the reader is at its end. -/
abbrev Reader (α : Type u) := List (Chunk α)

variable {α : Type u}

namespace Reader

/-- The items to come. -/
def content : Reader α → List α
  | [] => []
  | .items a as :: s => a :: as ++ content s
  | .failed _ :: s => content s

/-- The errors to come. -/
def failures : Reader α → List ReadError
  | [] => []
  | .items _ _ :: s => failures s
  | .failed e :: s => e :: failures s

/-- One call with a buffer for `k` items.  At the end it returns no items. -/
def read (k : Nat) : Reader α → Except ReadError (List α) × Reader α
  | [] => (.ok [], [])
  | .items a as :: s =>
    match (a :: as).drop k with
    | [] => (.ok ((a :: as).take k), s)
    | b :: bs => (.ok ((a :: as).take k), .items b bs :: s)
  | .failed e :: s => (.error e, s)

lemma read_error {s s' : Reader α} (h : s.read k = (.error e, s')) : s = .failed e :: s' := by
  match s with
  | [] => cases h
  | .items a as :: s =>
    rw [read] at h
    split at h <;> cases h
  | .failed e' :: s =>
    obtain ⟨he, rfl⟩ := Prod.mk.inj h
    rw [Except.error.inj he]

/-- A call that does not fail reads the next items. -/
lemma read_ok {s s' : Reader α} (h : s.read k = (.ok l, s')) :
    s.content = l ++ s'.content ∧ l.length ≤ k ∧ s.failures = s'.failures ∧
      s'.length ≤ s.length := by
  match s with
  | [] =>
    obtain ⟨hl, rfl⟩ := Prod.mk.inj h
    cases hl
    exact ⟨rfl, Nat.zero_le _, rfl, le_rfl⟩
  | .items a as :: s =>
    have hsplit := (take_append_drop k (a :: as)).symm
    rw [read] at h
    split at h <;> rename_i hdrop <;> rw [hdrop] at hsplit <;>
      obtain ⟨hl, rfl⟩ := Prod.mk.inj h <;> obtain rfl := Except.ok.inj hl
    · rw [append_nil] at hsplit
      refine ⟨?_, length_take_le _ _, rfl, Nat.le_succ _⟩
      rw [content, ← hsplit]
    · refine ⟨?_, length_take_le _ _, rfl, le_rfl⟩
      rw [content, content, ← append_assoc, ← hsplit]
  | .failed e :: s => cases h

/-- A source as a reader. -/
def ofSource (s : Source α) : Reader α :=
  s.map fun
    | .items a as => .items a as
    | .interrupted => .failed .interrupted

lemma read_ofSource (k : Nat) (s : Source α) :
    (ofSource s).read k =
      ((match (Source.read k s).1 with
        | none => .error .interrupted
        | some l => .ok l), ofSource (Source.read k s).2) := by
  match s with
  | [] => rfl
  | .items a as :: s =>
    cases hdrop : (a :: as).drop k <;>
      simp [ofSource, read, Source.read, hdrop]
  | .interrupted :: s => rfl

end Reader

/-- Calls until there are `n` items, and goes on when it is interrupted: the items that were
read, the error if there are less of them, and what is left. -/
def fill (n : Nat) (s : Reader α) : List α × Option ReadError × Reader α :=
  if n = 0 then ([], none, s)
  else
    match _h : s.read n with
    | (.error .interrupted, s') => fill n s'
    | (.error e, s') => ([], some e, s')
    | (.ok [], s') => ([], some .unexpectedEof, s')
    | (.ok (a :: as), s') =>
      let (bs, e, s'') := fill (n - (a :: as).length) s'
      (a :: as ++ bs, e, s'')
termination_by s.content.length + s.length
decreasing_by
  · rw [Reader.read_error _h, Reader.content, length_cons]
    omega
  · have hread := Reader.read_ok _h
    have hlen := congrArg List.length hread.1
    rw [length_append, length_cons] at hlen
    omega

/-- **The items that were read were there**, and if there are enough of them no call has failed,
apart from interruptions. -/
theorem fill_spec (n : Nat) (s : Reader α) :
    s.content = (fill n s).1 ++ (fill n s).2.2.content ∧
      ((fill n s).2.1 = none → (fill n s).1.length = n ∧
        ∃ fs, s.failures = fs ++ (fill n s).2.2.failures ∧ ∀ f ∈ fs, f = .interrupted) := by
  fun_induction fill n s with
  | case1 s => exact ⟨rfl, fun _ => ⟨rfl, [], rfl, nofun⟩⟩
  | case2 n s hn s' h ih =>
    obtain rfl := Reader.read_error h
    refine ⟨ih.1, fun hnone => ?_⟩
    obtain ⟨hlen, fs, hfs, hall⟩ := ih.2 hnone
    refine ⟨hlen, .interrupted :: fs, by rw [Reader.failures, hfs, cons_append], ?_⟩
    exact forall_mem_cons.mpr ⟨rfl, hall⟩
  | case3 n s hn e s' hne h =>
    obtain rfl := Reader.read_error h
    exact ⟨rfl, nofun⟩
  | case4 n s hn s' h => exact ⟨(Reader.read_ok h).1, nofun⟩
  | case5 n s hn a as s' h bs e s'' hrec ih =>
    rw [hrec] at ih
    obtain ⟨hcontent, hle, hfail, -⟩ := Reader.read_ok h
    refine ⟨?_, fun hnone => ?_⟩
    · rw [hcontent, ih.1, append_assoc]
    · obtain ⟨hlen, fs, hfs, hall⟩ := ih.2 hnone
      refine ⟨?_, fs, hfail.trans hfs, hall⟩
      rw [length_append, hlen]
      omega

lemma fill_zero (s : Reader α) : fill 0 s = ([], none, s) := by
  rw [fill, if_pos rfl]

lemma fill_eq (hn : n ≠ 0) (s : Reader α) : fill n s = match s.read n with
    | (.error .interrupted, s') => fill n s'
    | (.error e, s') => ([], some e, s')
    | (.ok [], s') => ([], some .unexpectedEof, s')
    | (.ok (a :: as), s') =>
      let (bs, e, s'') := fill (n - (a :: as).length) s'
      (a :: as ++ bs, e, s'') := by
  rw [fill, if_neg hn]
  split <;> simp only [*]

/-- A source fills a buffer unless it ends before. -/
lemma fill_ofSource (n : Nat) (s : Source α) :
    fill n (.ofSource s) =
      ((readFull n s).1, (if (readFull n s).1.length < n then some .unexpectedEof else none),
        .ofSource (readFull n s).2) := by
  fun_induction readFull n s with
  | case1 s =>
    rw [fill_zero]
    rfl
  | case2 n s hn s' h ih =>
    rw [fill_eq hn, Reader.read_ofSource, h]
    exact ih
  | case3 n s hn s' h =>
    simp only [fill_eq hn, Reader.read_ofSource, h]
    rw [length_nil, if_pos (Nat.pos_of_ne_zero hn)]
  | case4 n s hn a as s' h bs s'' hrec ih =>
    have hlt : bs.length < n - (a :: as).length ↔ (a :: as ++ bs).length < n := by
      rw [length_append]
      omega
    simp only [hrec, hlt] at ih
    simp only [fill_eq hn, Reader.read_ofSource, h, ih]

end Magisk.Lib
