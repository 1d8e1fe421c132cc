import Magisk.Lib.Transition

/-!
# The pump of an interactive root shell

`pump_tty` copies the output of the shell from the pty to `stdout`, and what is typed from `stdin`
to the pty.  It moves the bytes through one pipe with `splice`, until a `splice` fails, and then
copies them.

* `Answers`: what the kernel answers to the calls of one pump;
* `pumpViaCopy`, `pumpViaSplice`: one pump;
* `pumpTtyImpl`: the loop, as a transition system;
* `Tty.Faithful`: in both ways the bytes that were written are those that were read;
* `Answers.Whole`: the pump does not leave bytes in the pipe, nor loses any;
* `faithful_pumpViaSplice_iff`: what one pump does;
* `pump_faithful_iff`: what the loop does, whatever the kernel is;
* `typed_by_the_shell`: a run in which the output of the shell becomes its input.
-/

namespace Magisk.Core.Pump

open Magisk.Lib List Option Function

/-! ### One pump -/

/-- The two ways: from the pty to `stdout`, and from `stdin` to the pty. -/
inductive Way where
  | output
  | input
  deriving DecidableEq, Repr

/-- A byte, with the way for which it was read. -/
structure Byte where
  way : Way
  value : UInt8
  deriving DecidableEq, Repr

/-- The state of the pump: `SHOULD_USE_SPLICE`, what is in the pipe, and all bytes that were read
and written so far. -/
structure Tty where
  useSplice : Bool
  pipe : List Byte
  read : Way → List Byte
  written : Way → List Byte

/-- What the kernel answers to the calls that one pump may make. -/
structure Answers where
  /-- The bytes that are spliced into the pipe, or a failure. -/
  fill : Option (List UInt8)
  /-- How many bytes are spliced out of the pipe, or a failure. -/
  drain : Option Nat
  /-- The bytes that are read, or a failure. -/
  read : Option (List UInt8)
  /-- How many bytes are read from the pipe, or a failure. -/
  readPipe : Option Nat
  /-- How many bytes can be written before there is a failure. -/
  write : Nat
  /-- Whether the signal can be read. -/
  readSignal : Bool

/-- The size of the buffer of `pump_via_copy`. -/
def bufSize : Nat := 4096

/-- These bytes are read. -/
def Tty.gets (t : Tty) (w : Way) (bytes : List Byte) : Tty :=
  { t with read := update t.read w (t.read w ++ bytes) }

/-- These bytes are written. -/
def Tty.puts (t : Tty) (w : Way) (bytes : List Byte) : Tty :=
  { t with written := update t.written w (t.written w ++ bytes) }

/-- What `pump_via_copy` reads from. -/
inductive CopyFrom where
  | fdIn
  | pipe

/-- Its `read`. -/
def readBuf (w : Way) (a : Answers) (t : Tty) : CopyFrom → Option (List Byte × Tty)
  | .fdIn => a.read.map fun buf =>
    let bytes := buf.map (Byte.mk w)
    (bytes, t.gets w bytes)
  | .pipe => a.readPipe.map fun n =>
    (t.pipe.take (min n bufSize), { t with pipe := t.pipe.drop (min n bufSize) })

/-- `pump_via_copy`, and whether it succeeds. -/
def pumpViaCopy (w : Way) (a : Answers) (src : CopyFrom) (t : Tty) : Bool × Tty :=
  match readBuf w a t src with
  | none => (false, t)
  | some (buf, t) => (buf.length ≤ a.write, t.puts w (buf.take a.write))

/-- `pump_via_splice`, and whether it succeeds. -/
def pumpViaSplice (w : Way) (a : Answers) (t : Tty) : Bool × Tty :=
  if t.useSplice = false then pumpViaCopy w a .fdIn t
  else
    match a.fill with
    | none => pumpViaCopy w a .fdIn { t with useSplice := false }
    | some buf =>
      let bytes := buf.map (Byte.mk w)
      let t := { t.gets w bytes with pipe := t.pipe ++ bytes }
      if bytes.length = 0 then (true, t)
      else
        match a.drain with
        | none => pumpViaCopy w a .pipe { t with useSplice := false }
        | some n =>
          let len := min n bytes.length
          (true, { t.puts w (t.pipe.take len) with pipe := t.pipe.drop len })

/-! ### The loop -/

/-- The descriptors that are polled. -/
inductive PollFd where
  | ptmx
  | signal
  | stdin

/-- `poll_fds`. -/
def pollFds (pumpStdin : Bool) : List PollFd :=
  if pumpStdin then [.ptmx, .signal, .stdin] else [.ptmx]

/-- What `poll` answers for a descriptor, without a value for flags that are unknown. -/
abbrev Revents := Option UInt16

/-- `POLLIN`. -/
def pollIn : UInt16 := 0x1

/-- `POLLERR | POLLHUP | POLLNVAL`. -/
def stopFlags : UInt16 := 0x38

/-- `POLLHUP`. -/
def pollHup : UInt16 := 0x10

/-- `pfd.all().unwrap_or(false)`. -/
def Revents.ready (r : Revents) : Bool := r.elim false fun flags => flags &&& pollIn = pollIn

/-- `pfd.revents().unwrap_or(PollFlags::POLLHUP).intersects(stop_flags)`. -/
def Revents.stops (r : Revents) : Bool := r.getD pollHup &&& stopFlags ≠ 0

/-- Whether the loop goes on, or how it has ended. -/
inductive Flow where
  | running
  | stopped
  | failed
  deriving DecidableEq

/-- The loop: the descriptors of this round that it has not looked at. -/
structure Loop where
  tty : Tty
  todo : List (PollFd × Revents)
  flow : Flow

/-- What happens next: `poll` returns, or the loop looks at the next descriptor. -/
inductive Event where
  | poll (revents : Option (PollFd → Revents))
  | look (a : Answers)

/-- The way that is pumped when a descriptor is ready. -/
def PollFd.way? : PollFd → Option Way
  | .ptmx => some .output
  | .signal => none
  | .stdin => some .input

/-- The body of the loop over the descriptors. -/
def serve (fd : PollFd) (revents : Revents) (a : Answers) (t : Tty) : Flow × Tty :=
  if revents.ready then
    match fd.way? with
    | some w => let r := pumpViaSplice w a t; (if r.1 then .running else .failed, r.2)
    | none => (if a.readSignal then .running else .failed, t)
  else if revents.stops then (.stopped, t)
  else (.running, t)

/-- One event. -/
def Loop.step (pumpStdin : Bool) (l : Loop) (e : Event) : Option Loop :=
  if l.flow ≠ .running then none
  else
    match e, l.todo with
    | .poll none, [] => some { l with flow := .failed }
    | .poll (some revents), [] =>
      some { l with todo := (pollFds pumpStdin).map fun fd => (fd, revents fd) }
    | .look a, (fd, revents) :: rest =>
      let r := serve fd revents a l.tty
      some ⟨r.2, rest, r.1⟩
    | _, _ => none

/-- Before the loop. -/
def Loop.start : Loop := ⟨⟨true, [], fun _ => [], fun _ => []⟩, [], .running⟩

/-- `pump_tty_impl`. -/
def pumpTtyImpl (pumpStdin : Bool) : System Loop Event where
  init l := l = .start
  step := Loop.step pumpStdin

/-! ### What the pump is for -/

/-- In both ways the bytes that were written are those that were read. -/
def Tty.Faithful (t : Tty) : Prop := ∀ w, t.written w = t.read w

/-- All that is read is written. -/
def Answers.CopiesAll (a : Answers) : Prop := ∀ buf, a.read = some buf → buf.length ≤ a.write

/-- The pipe is emptied of so many bytes: in one `splice`, or, if that fails, in one copy. -/
def Answers.Empties (a : Answers) (len : Nat) : Prop :=
  (∃ n, a.drain = some n ∧ len ≤ n) ∨
    a.drain = none ∧ ∃ n, a.readPipe = some n ∧ len ≤ min n bufSize ∧ len ≤ a.write

/-- The pump moves all bytes that it reads. -/
def Answers.Whole (a : Answers) (useSplice : Bool) : Prop :=
  if useSplice = false ∨ a.fill = none then a.CopiesAll
  else ∀ buf, a.fill = some buf → buf ≠ [] → a.Empties buf.length

variable {buf : List UInt8}

section Pump

variable {t t' : Tty} {w : Way} {a : Answers}

/-- In one way some bytes were read and some were written. -/
structure Moved (w : Way) (got put : List Byte) (t t' : Tty) : Prop where
  read : t'.read = update t.read w (t.read w ++ got)
  written : t'.written = update t.written w (t.written w ++ put)

/-- The state stays faithful exactly if they are the same. -/
lemma Moved.keeps_iff (h : Moved w got put t t') (ht : t.Faithful) : t'.Faithful ↔ put = got := by
  constructor
  · intro ht'
    have hw := ht' w
    rw [h.read, h.written, update_self, update_self, ht w] at hw
    exact append_cancel_left hw
  · rintro rfl w'
    rw [h.read, h.written]
    by_cases hw : w' = w
    · subst hw
      rw [update_self, update_self, ht w']
    · rw [update_of_ne hw, update_of_ne hw, ht w']

lemma Moved.nil (t : Tty) (w : Way) : Moved w [] [] t t := by
  constructor <;> rw [append_nil, update_eq_self]

lemma take_map_eq_iff : (buf.map (Byte.mk w)).take n = buf.map (Byte.mk w) ↔ buf.length ≤ n := by
  rw [take_eq_self_iff, length_map]

/-- A copy from the descriptor. -/
lemma faithful_copy_iff (ht : t.Faithful) :
    (pumpViaCopy w a .fdIn { t with useSplice := b }).2.Faithful ↔ a.CopiesAll := by
  cases hread : a.read with
  | none =>
    simp only [pumpViaCopy, readBuf, hread, Answers.CopiesAll]
    exact ⟨fun _ => nofun, fun _ => ht⟩
  | some buf =>
    have hmoved : Moved w (buf.map (Byte.mk w)) ((buf.map (Byte.mk w)).take a.write) t
        (pumpViaCopy w a .fdIn { t with useSplice := b }).2 := by
      simp only [pumpViaCopy, readBuf, hread]
      exact ⟨rfl, rfl⟩
    rw [hmoved.keeps_iff ht, take_map_eq_iff, Answers.CopiesAll, hread]
    exact ⟨fun h _ hbuf => some.inj hbuf ▸ h, fun h => h buf rfl⟩

lemma pipe_copy : (pumpViaCopy w a .fdIn { t with useSplice := b }).2.pipe = t.pipe := by
  cases hread : a.read <;> simp only [pumpViaCopy, readBuf, hread] <;> rfl

/-- The bytes in the pipe after they were spliced into it. -/
def Tty.filled (t : Tty) (w : Way) (buf : List UInt8) : Tty :=
  { t.gets w (buf.map (Byte.mk w)) with pipe := buf.map (Byte.mk w) }

/-- A pump through the pipe, if that is empty before. -/
lemma pumpViaSplice_filled (huse : t.useSplice = true) (hpipe : t.pipe = [])
    (hfill : a.fill = some buf) (hne : buf ≠ []) :
    (∃ n, a.drain = some n ∧ (pumpViaSplice w a t).2 =
      { (t.filled w buf).puts w ((buf.map (Byte.mk w)).take (min n buf.length)) with
        pipe := (buf.map (Byte.mk w)).drop (min n buf.length) }) ∨
    a.drain = none ∧
      pumpViaSplice w a t = pumpViaCopy w a .pipe { t.filled w buf with useSplice := false } := by
  have hlen : ¬(buf.map (Byte.mk w)).length = 0 := by
    rw [length_map]
    exact fun h => hne (length_eq_zero_iff.mp h)
  unfold pumpViaSplice
  rw [huse, hfill]
  simp only [if_neg hlen, hpipe]
  cases hdrain : a.drain with
  | none => exact .inr ⟨rfl, rfl⟩
  | some n =>
    rw [length_map]
    exact .inl ⟨n, rfl, rfl⟩

/-- A copy from the pipe that was filled. -/
lemma faithful_copyPipe_iff (ht : t.Faithful) (hne : buf ≠ []) :
    (pumpViaCopy w a .pipe { t.filled w buf with useSplice := false }).2.Faithful ↔
      ∃ n, a.readPipe = some n ∧ buf.length ≤ min n bufSize ∧ buf.length ≤ a.write := by
  have hmap : buf.map (Byte.mk w) ≠ [] := fun h => hne (map_eq_nil_iff.mp h)
  cases hread : a.readPipe with
  | none =>
    have hmoved : Moved w (buf.map (Byte.mk w)) [] t
        (pumpViaCopy w a .pipe { t.filled w buf with useSplice := false }).2 := by
      simp only [pumpViaCopy, readBuf, hread]
      exact ⟨rfl, (by rw [append_nil, update_eq_self]; rfl)⟩
    rw [hmoved.keeps_iff ht]
    exact ⟨fun h => absurd h.symm hmap, fun ⟨_, h, _⟩ => absurd h nofun⟩
  | some n =>
    have hmoved : Moved w (buf.map (Byte.mk w))
        (((buf.map (Byte.mk w)).take (min n bufSize)).take a.write) t
        (pumpViaCopy w a .pipe { t.filled w buf with useSplice := false }).2 := by
      simp only [pumpViaCopy, readBuf, hread]
      exact ⟨rfl, rfl⟩
    rw [hmoved.keeps_iff ht, take_take, take_map_eq_iff, le_min_iff, and_comm]
    exact ⟨fun h => ⟨n, rfl, h⟩, fun ⟨_, hn, h⟩ => some.inj hn ▸ h⟩

/-- A pump through the pipe is faithful exactly if it empties the pipe. -/
lemma faithful_filled_iff (ht : t.Faithful) (huse : t.useSplice = true) (hpipe : t.pipe = [])
    (hfill : a.fill = some buf) (hne : buf ≠ []) :
    (pumpViaSplice w a t).2.Faithful ↔ a.Empties buf.length := by
  rcases pumpViaSplice_filled (w := w) huse hpipe hfill hne with ⟨n, hdrain, heq⟩ | ⟨hdrain, heq⟩
  · have hmoved : Moved w (buf.map (Byte.mk w)) ((buf.map (Byte.mk w)).take (min n buf.length)) t
        (pumpViaSplice w a t).2 := by
      rw [heq]
      exact ⟨rfl, rfl⟩
    rw [hmoved.keeps_iff ht, take_map_eq_iff, le_min_iff, Answers.Empties, hdrain]
    constructor
    · rintro ⟨hn, -⟩
      exact .inl ⟨n, rfl, hn⟩
    · rintro (⟨_, hm, hn⟩ | ⟨hnone, -⟩)
      · exact ⟨some.inj hm ▸ hn, le_refl _⟩
      · exact absurd hnone nofun
  · rw [heq, faithful_copyPipe_iff ht hne, Answers.Empties, hdrain]
    constructor
    · exact fun h => .inr ⟨rfl, h⟩
    · rintro (⟨_, hnone, -⟩ | ⟨-, h⟩)
      · exact absurd hnone nofun
      · exact h

/-- Then nothing is left in it. -/
lemma pipe_filled (huse : t.useSplice = true) (hpipe : t.pipe = []) (hfill : a.fill = some buf)
    (hne : buf ≠ []) (h : a.Empties buf.length) : (pumpViaSplice w a t).2.pipe = [] := by
  rcases pumpViaSplice_filled (w := w) huse hpipe hfill hne with ⟨n, hdrain, heq⟩ | ⟨hdrain, heq⟩
  · rw [heq]
    refine drop_of_length_le ?_
    rw [Answers.Empties, hdrain] at h
    rcases h with ⟨m, hm, hle⟩ | ⟨hnone, -⟩
    · rw [length_map, le_min_iff, some.inj hm]
      exact ⟨hle, le_refl _⟩
    · exact absurd hnone nofun
  · rw [heq]
    rw [Answers.Empties, hdrain] at h
    rcases h with ⟨_, hnone, -⟩ | ⟨-, n, hn, hle, -⟩
    · exact absurd hnone nofun
    · simp only [pumpViaCopy, readBuf, hn]
      refine drop_of_length_le ?_
      rwa [Tty.filled, length_map]

/-- **One pump.**  It stays faithful exactly if it moves all bytes that it reads, and then leaves
nothing in the pipe. -/
theorem faithful_pumpViaSplice_iff (ht : t.Faithful) (hpipe : t.pipe = []) :
    ((pumpViaSplice w a t).2.Faithful ↔ a.Whole t.useSplice) ∧
      (a.Whole t.useSplice → (pumpViaSplice w a t).2.pipe = []) := by
  rw [Answers.Whole]
  by_cases huse : t.useSplice = false
  · rw [if_pos (.inl huse), pumpViaSplice, if_pos huse]
    exact ⟨faithful_copy_iff ht, fun _ => pipe_copy.trans hpipe⟩
  cases hfill : a.fill with
  | none =>
    rw [if_pos (.inr rfl), pumpViaSplice, if_neg huse, hfill]
    exact ⟨faithful_copy_iff ht, fun _ => pipe_copy.trans hpipe⟩
  | some buf =>
    rw [if_neg (not_or.mpr ⟨huse, nofun⟩)]
    by_cases hne : buf = []
    · subst hne
      have hmoved : Moved w [] [] t (pumpViaSplice w a t).2 := by
        rw [pumpViaSplice, if_neg huse, hfill]
        exact ⟨rfl, (Moved.nil t w).written⟩
      refine ⟨?_, fun _ => ?_⟩
      · rw [hmoved.keeps_iff ht]
        exact ⟨fun _ _ hbuf hne => absurd (some.inj hbuf).symm hne, fun _ => rfl⟩
      · rw [pumpViaSplice, if_neg huse, hfill]
        exact (append_nil _).trans hpipe
    · have huse' := Bool.of_not_eq_false huse
      have hiff : (∀ buf', some buf = some buf' → buf' ≠ [] → a.Empties buf'.length) ↔
          a.Empties buf.length :=
        ⟨fun h => h buf rfl hne, fun h _ hbuf _ => some.inj hbuf ▸ h⟩
      rw [hiff]
      exact ⟨faithful_filled_iff ht huse' hpipe hfill hne, pipe_filled huse' hpipe hfill hne⟩

end Pump

/-! ### The loop is as good as its pumps -/

section Loop

variable {l l' : Loop} {a : Answers} {pumpStdin : Bool}

/-- The way that is pumped when the loop looks at the next descriptor. -/
def Loop.pumps (l : Loop) : Option Way :=
  l.todo.head?.bind fun fd => if fd.2.ready then fd.1.way? else none

/-- If the event is a pump, it moves all bytes that it reads. -/
def Loop.Whole (l : Loop) : Event → Prop
  | .poll _ => True
  | .look a => l.pumps ≠ none → a.Whole l.tty.useSplice

/-- Nothing is in the pipe, and all that was read is written. -/
structure Loop.Clean (l : Loop) : Prop where
  faithful : l.tty.Faithful
  pipe : l.tty.pipe = []

lemma Loop.Clean.poll (h : l.Clean)
    (hstep : l.step pumpStdin (.poll revents) = some l') : l'.Clean := by
  obtain ⟨tty, todo, flow⟩ := l
  have htty : l'.tty = tty := by
    unfold Loop.step at hstep
    split_ifs at hstep
    cases todo with
    | nil => cases revents <;> rw [← some.inj hstep]
    | cons fd rest => cases revents <;> exact absurd hstep nofun
  rw [← htty] at h
  exact ⟨h.faithful, h.pipe⟩

lemma serve_tty (fd : PollFd) (revents : Revents) (a : Answers) (t : Tty) :
    (serve fd revents a t).2 =
      (if revents.ready then fd.way? else none).elim t fun w => (pumpViaSplice w a t).2 := by
  unfold serve
  by_cases hready : revents.ready = true
  · rw [if_pos hready, if_pos hready]
    cases fd.way? <;> rfl
  · rw [if_neg hready]
    split_ifs <;> rfl

lemma Loop.step_look (hstep : l.step pumpStdin (.look a) = some l') :
    ∃ fd revents rest, l.todo = (fd, revents) :: rest ∧
      l'.tty = (serve fd revents a l.tty).2 := by
  obtain ⟨tty, todo, flow⟩ := l
  unfold Loop.step at hstep
  split_ifs at hstep
  cases todo with
  | nil => exact absurd hstep nofun
  | cons fd rest =>
    refine ⟨fd.1, fd.2, rest, rfl, ?_⟩
    rw [← some.inj hstep]

/-- A look at a descriptor keeps the pump faithful exactly if it moves all bytes. -/
lemma Loop.Clean.look_iff (h : l.Clean) (hstep : l.step pumpStdin (.look a) = some l') :
    (l'.tty.Faithful ↔ l.Whole (.look a)) ∧ (l.Whole (.look a) → l'.Clean) := by
  obtain ⟨fd, revents, rest, htodo, htty⟩ := Loop.step_look hstep
  have hpumped : l'.tty = l.pumps.elim l.tty fun w => (pumpViaSplice w a l.tty).2 := by
    rw [htty, serve_tty, Loop.pumps, htodo]
    rfl
  cases hway : l.pumps with
  | none =>
    rw [hway] at hpumped
    have hclean : l'.Clean := ⟨hpumped ▸ h.faithful, hpumped ▸ h.pipe⟩
    have hwhole : l.Whole (.look a) := fun hne => absurd hway hne
    exact ⟨⟨fun _ => hwhole, fun _ => hclean.faithful⟩, fun _ => hclean⟩
  | some w =>
    rw [hway] at hpumped
    have hwhole : l.Whole (.look a) ↔ a.Whole l.tty.useSplice := by
      rw [Loop.Whole, hway]
      exact ⟨fun h => h nofun, fun h _ => h⟩
    obtain ⟨hiff, hempty⟩ := faithful_pumpViaSplice_iff (w := w) (a := a) h.faithful h.pipe
    rw [hwhole, hpumped]
    exact ⟨hiff, fun hw => ⟨hpumped ▸ hiff.mpr hw, hpumped ▸ hempty hw⟩⟩

end Loop

/-- **What the loop does.**  Whatever answers a kernel may give in which states, in every run and at
every point of it the bytes written to `stdout` are those read from the pty, and the bytes written
to the pty those read from `stdin`, exactly if the kernel lets every pump move all that it reads. -/
theorem pump_faithful_iff (pumpStdin : Bool) (kernel : Loop → Event → Prop) :
    (∀ l, (pumpTtyImpl pumpStdin).Reach kernel l → l.tty.Faithful) ↔
      ∀ l e l', (pumpTtyImpl pumpStdin).Reach kernel l → kernel l e →
        l.step pumpStdin e = some l' → l.Whole e := by
  refine System.forall_reach_iff (I := Loop.Clean) ?_ (fun _ h => h.faithful) ?_
  · rintro _ rfl
    exact ⟨fun _ => rfl, rfl⟩
  · intro l e l' hclean hstep
    cases e with
    | poll revents => exact ⟨fun _ => trivial, fun _ => hclean.poll hstep⟩
    | look a => exact ⟨(hclean.look_iff hstep).1.mp, (hclean.look_iff hstep).2⟩

/-- One descriptor can be read from. -/
def readable (ptmx stdin : Bool) : Event :=
  .poll (some fun
    | .ptmx => some (if ptmx then pollIn else 0)
    | .signal => some 0
    | .stdin => some (if stdin then pollIn else 0))

/-- So many of these bytes pass the pipe. -/
def passes (buf : List UInt8) (n : Nat) : Event := .look ⟨some buf, some n, none, none, 0, true⟩

/-- The shell writes two bytes, of which one stays in the pipe, and then a key is pressed. -/
def halfThrough : List Event :=
  [readable true false, passes [0x6c, 0x73] 1, passes [] 0, passes [] 0,
    readable false true, passes [] 0, passes [] 0, passes [0x0d] 1]

/-- **Output becomes input.**  The pty gets a byte that comes from itself, and neither the key nor
the rest of the output arrives. -/
theorem typed_by_the_shell :
    ∃ l, (pumpTtyImpl true).run .start halfThrough = some l ∧ ¬l.tty.Faithful ∧
      l.tty.read .output = [⟨.output, 0x6c⟩, ⟨.output, 0x73⟩] ∧
      l.tty.written .output = [⟨.output, 0x6c⟩] ∧
      l.tty.read .input = [⟨.input, 0x0d⟩] ∧ l.tty.written .input = [⟨.output, 0x73⟩] := by
  refine ⟨_, rfl, fun h => absurd (h .output) ?_, rfl, rfl, rfl, rfl⟩
  decide

end Magisk.Core.Pump
