import Magisk.Core.Socket
import Magisk.Lib.Frames
import Magisk.Lib.Transition

/-!
# The log daemon

All processes of Magisk write their log messages to one pipe, each with one `writev` of a header
and the text.  A thread of the daemon reads the messages and writes a line for each, at first to a
buffer and, once it is told that the file can be created, to the file.  For that it is sent a header
with a negative priority.

* `writeLogToPipe`, `setupLogfile`: the bytes that are written to the pipe;
* `logfileWriteLoop`: the thread, the writers and the pipe as a transition system;
* `Entries`: the text that stands for a list of messages;
* `Framed`: the thread is between two messages, or between a header and its text, and the log has
  one entry for each message before;
* `Sound`: the calls of a step succeed, and no message with a text has a negative priority;
* `framed_iff`: the log is right in every run exactly if all its steps are sound;
* `framing_lost`: a message with a negative priority is taken for several.
-/

namespace Magisk.Core.Logging

open Magisk.Base Magisk.Lib Magisk.Core.Socket List Option

/-! ### The writers -/

/-- `LogMeta`. -/
structure LogMeta where
  prio : Int32
  len : Int32
  pid : Int32
  tid : Int32
  deriving DecidableEq

/-- `bytes_of`. -/
def LogMeta.bytesOf (m : LogMeta) : List UInt8 :=
  encodeI32 m.prio ++ (encodeI32 m.len ++ (encodeI32 m.pid ++ encodeI32 m.tid))

/-- `size_of::<LogMeta>()`. -/
def metaSize : Nat := 16

/-- `PIPE_BUF`. -/
def pipeBuf : Nat := 4096

/-- `MAX_MSG_LEN`. -/
def maxMsgLen : Nat := pipeBuf - metaSize

/-- A call of `write_log_to_pipe` in a thread of a process. -/
structure Message where
  prio : Int32
  msg : Str
  pid : Int32
  tid : Int32

/-- The text, truncated if needed. -/
def Message.body (m : Message) : Str := m.msg.take (min maxMsgLen m.msg.length)

/-- The header. -/
def Message.header (m : Message) : LogMeta := ⟨m.prio, .ofNat m.body.length, m.pid, m.tid⟩

/-- `write_log_to_pipe`: what is written at once. -/
def writeLogToPipe (m : Message) : List UInt8 := m.header.bytesOf ++ m.body

/-- `setup_logfile`. -/
def setupLogfile : List UInt8 := LogMeta.bytesOf ⟨-1, 0, 0, 0⟩

/-- It writes what a message without a text would be. -/
def setup : Message := ⟨-1, [], 0, 0⟩

/-- The levels of the loggers. -/
inductive LogLevel where
  | error
  | warn
  | info
  | debug

/-- `ALogPriority`. -/
inductive ALogPriority where
  | unknown
  | default
  | verbose
  | debug
  | info
  | warn
  | error
  | fatal
  | silent
  deriving DecidableEq

/-- The values, in order. -/
def ALogPriority.values : List ALogPriority :=
  [.unknown, .default, .verbose, .debug, .info, .warn, .error, .fatal, .silent]

/-- `ALogPriority::from_i32`. -/
def ALogPriority.fromI32 (v : Int32) : Option ALogPriority :=
  if v.toInt < 0 then none else ALogPriority.values[v.toInt.toNat]?

/-- `level_to_prio`. -/
def levelToPrio : LogLevel → Int32
  | .error => 6
  | .warn => 5
  | .info => 4
  | .debug => 3

/-! ### The entries -/

/-- The letter of a priority, if it is supported. -/
def prioChar (prio : Int32) : Option Char :=
  match (ALogPriority.fromI32 prio).getD .unknown with
  | .verbose => some 'V'
  | .debug => some 'D'
  | .info => some 'I'
  | .warn => some 'W'
  | .error => some 'E'
  | _ => none

/-- The local time, as far as it is printed. -/
structure Now where
  mon : Fin 12
  mday : Fin 32
  hour : Fin 24
  min : Fin 60
  sec : Fin 61
  millis : Fin 1000

/-- A number with so many digits. -/
def digits : Nat → Nat → Str
  | 0, _ => []
  | n + 1, v => digits n (v / 10) ++ [chr '0' + (v % 10).toUInt8]

/-- `strftime` for `%m-%d %T`. -/
def Now.strftime (now : Now) : Str :=
  digits 2 (now.mon + 1) ++ [chr '-'] ++ digits 2 now.mday ++ [chr ' '] ++ digits 2 now.hour ++
    [chr ':'] ++ digits 2 now.min ++ [chr ':'] ++ digits 2 now.sec

/-- A number in at least five columns. -/
def column (v : Int32) : Str :=
  let s := str (toString v.toInt)
  List.replicate (5 - s.length) (chr ' ') ++ s

/-- What is put before the text of a message. -/
def aux (now : Now) (pid tid : Int32) (prio : Char) : Str :=
  now.strftime ++ [chr '.'] ++ digits 3 now.millis ++ [chr ' '] ++ column pid ++ [chr ' '] ++
    column tid ++ [chr ' ', chr prio, chr ' ', chr ':', chr ' ']

/-! ### The daemon -/

/-- `LogFile`. -/
inductive LogFile where
  | buffer (text : Str)
  | actual (text : Str)

/-- What was written. -/
def LogFile.text : LogFile → Str
  | .buffer text => text
  | .actual text => text

/-- Where the loop of the thread is. -/
inductive Phase where
  | header
  | body (hdr : LogMeta)
  | ended

/-- The pipe and the thread that reads it, with the messages that were written to the pipe. -/
structure Logd where
  pipe : List UInt8
  logfile : LogFile
  phase : Phase
  sent : List Message

/-- What may happen next.  The system calls of the thread have their answers: whether the file can
be created and how many bytes can be written to it at once, what time it is, if that is known, and
how many bytes of an entry are written, if writing does not fail. -/
inductive Event where
  | write (m : Message)
  | setupLogfile
  | readHeader (created : Bool) (room : Nat)
  | readBody (now : Option Now) (written : Option Nat)

/-- A number of the header. -/
def i32At (bytes : List UInt8) (off : Nat) : Int32 :=
  .ofBitVec (.ofNat _ (leNat ((bytes.drop off).take 4)))

/-- `read_pod`. -/
def LogMeta.ofBytes (bytes : List UInt8) : LogMeta :=
  ⟨i32At bytes 0, i32At bytes 4, i32At bytes 8, i32At bytes 12⟩

/-- The branch for a negative priority. -/
def openLogfile (created : Bool) (room : Nat) : LogFile → Phase × LogFile
  | .buffer text =>
    if created = false then (.ended, .buffer text)
    else (if text.length ≤ room then .header else .ended, .actual (text.take room))
  | .actual text => (.header, .actual text)

/-- `write_vectored`, for which all is written to a buffer. -/
def writeVectored (entry : Str) (written : Option Nat) : LogFile → Phase × LogFile
  | .buffer text => (.header, .buffer (text ++ entry))
  | .actual text =>
    match written with
    | none => (.ended, .actual text)
    | some n => (.header, .actual (text ++ entry.take n))

/-- What the loop does after it has read a header. -/
def onHeader (hdr : LogMeta) (created : Bool) (room : Nat) (logfile : LogFile) : Phase × LogFile :=
  if hdr.prio.toInt < 0 then openLogfile created room logfile
  else if hdr.len.toInt < 0 ∨ (maxMsgLen : Int) < hdr.len.toInt then (.header, logfile)
  else (.body hdr, logfile)

/-- What it does after it has read the text. -/
def onBody (hdr : LogMeta) (msg : Str) (now : Option Now) (written : Option Nat)
    (logfile : LogFile) : Phase × LogFile :=
  match prioChar hdr.prio with
  | none => (.header, logfile)
  | some prio =>
    match now with
    | none => (.header, logfile)
    | some now => writeVectored (aux now hdr.pid hdr.tid prio ++ msg) written logfile

/-- A write to the pipe. -/
def Logd.push (s : Logd) (bytes : List UInt8) (m : Message) : Logd :=
  { s with pipe := s.pipe ++ bytes, sent := s.sent ++ [m] }

/-- One event.  A read waits until there are enough bytes. -/
def Logd.step (s : Logd) : Event → Option Logd
  | .write m => some (s.push (writeLogToPipe m) m)
  | .setupLogfile => some (s.push Logging.setupLogfile setup)
  | .readHeader created room =>
    match s.phase with
    | .header =>
      if s.pipe.length < metaSize then none
      else
        let r := onHeader (.ofBytes (s.pipe.take metaSize)) created room s.logfile
        some { s with pipe := s.pipe.drop metaSize, phase := r.1, logfile := r.2 }
    | _ => none
  | .readBody now written =>
    match s.phase with
    | .body hdr =>
      let len := hdr.len.toInt.toNat
      if s.pipe.length < len then none
      else
        let r := onBody hdr (s.pipe.take len) now written s.logfile
        some { s with pipe := s.pipe.drop len, phase := r.1, logfile := r.2 }
    | _ => none

/-- `logfile_write_loop`, with the writers. -/
def logfileWriteLoop : System Logd Event where
  init s := s = ⟨[], .buffer [], .header, []⟩
  step := Logd.step

/-! ### The log that is wanted -/

/-- The text stands for these messages: one entry for each that is supported. -/
inductive Entries : List Message → Str → Prop
  | nil : Entries [] []
  | skip {ms : List Message} {text : Str} {m : Message} :
      Entries ms text → prioChar m.prio = none → Entries (ms ++ [m]) text
  | entry {ms : List Message} {text : Str} {m : Message} {prio : Char} (now : Now) :
      Entries ms text → prioChar m.prio = some prio →
      Entries (ms ++ [m]) (text ++ (aux now m.pid m.tid prio ++ m.body))

/-- The thread is at the beginning of a message, or behind its header, and the log is that of the
messages before. -/
def Framed (s : Logd) : Prop :=
  match s.phase with
  | .header => ∃ read left, s.sent = read ++ left ∧ s.pipe = left.flatMap writeLogToPipe ∧
      Entries read s.logfile.text
  | .body hdr => ∃ read m left, s.sent = read ++ m :: left ∧ hdr = m.header ∧
      s.pipe = m.body ++ left.flatMap writeLogToPipe ∧ Entries read s.logfile.text
  | .ended => False

/-- The event does no harm: a header with a negative priority has no text behind it, the file can
be created and takes the buffer, the time of an entry is known and the file takes all of it. -/
def Sound (s : Logd) : Event → Prop
  | .write _ => True
  | .setupLogfile => True
  | .readHeader created room =>
    let hdr := LogMeta.ofBytes (s.pipe.take metaSize)
    hdr.prio.toInt < 0 → hdr.len = 0 ∧
      ∀ text, s.logfile = .buffer text → created = true ∧ text.length ≤ room
  | .readBody now written =>
    ∀ hdr prio, s.phase = .body hdr → prioChar hdr.prio = some prio →
      ∃ t, now = some t ∧ ∀ text, s.logfile = .actual text →
        ∃ n, written = some n ∧ (aux t hdr.pid hdr.tid prio).length + hdr.len.toInt.toNat ≤ n

/-! ### Messages on the pipe -/

section Messages

lemma length_bytesOf (hdr : LogMeta) : hdr.bytesOf.length = metaSize := by
  simp [LogMeta.bytesOf, encodeI32, writePod, length_leBytes, metaSize]

lemma i32At_eq (l r : List UInt8) (v : Int32) (h : l.length = o) :
    i32At (l ++ (encodeI32 v ++ r)) o = v := by
  have hlen : (encodeI32 v).length = 4 := length_leBytes 4 _
  rw [i32At, ← h, drop_left, take_left' hlen, encodeI32, writePod,
    leNat_leBytes v.toBitVec.isLt, BitVec.ofNat_toNat, BitVec.setWidth_eq, Int32.ofBitVec_toBitVec]

lemma ofBytes_bytesOf (hdr : LogMeta) : LogMeta.ofBytes hdr.bytesOf = hdr := by
  obtain ⟨prio, len, pid, tid⟩ := hdr
  have hlen : ∀ v : Int32, (encodeI32 v).length = 4 := fun v => length_leBytes 4 _
  have hprio := i32At_eq [] (encodeI32 len ++ (encodeI32 pid ++ encodeI32 tid)) prio (o := 0) rfl
  have hlen' := i32At_eq _ (encodeI32 pid ++ encodeI32 tid) len (hlen prio)
  have hpid := i32At_eq (encodeI32 prio ++ encodeI32 len) (encodeI32 tid) pid (o := 8)
    (by rw [length_append, hlen, hlen])
  have htid := i32At_eq (encodeI32 prio ++ (encodeI32 len ++ encodeI32 pid)) [] tid (o := 12)
    (by rw [length_append, length_append, hlen, hlen, hlen])
  simp only [append_assoc, append_nil, nil_append] at hprio hlen' hpid htid
  simp [LogMeta.ofBytes, LogMeta.bytesOf, hprio, hlen', hpid, htid]

variable (m : Message)

lemma length_body_le : m.body.length ≤ maxMsgLen := by
  rw [Message.body, length_take]
  omega

lemma toInt_len_header : m.header.len.toInt = m.body.length := by
  have hle := length_body_le m
  have hlt : m.body.length < 2 ^ 31 := by
    rw [maxMsgLen, pipeBuf] at hle
    omega
  rw [Message.header, Int32.toInt_ofNat_of_lt hlt]

lemma len_header_eq_zero_iff : m.header.len = 0 ↔ m.body = [] := by
  rw [← length_eq_zero_iff]
  have hlen := toInt_len_header m
  constructor
  · intro h
    rw [h, Int32.toInt_zero] at hlen
    exact_mod_cast hlen.symm
  · intro h
    rw [Message.header, h]
    rfl

lemma length_writeLogToPipe : (writeLogToPipe m).length = metaSize + m.body.length := by
  rw [writeLogToPipe, length_append, length_bytesOf]

lemma writeLogToPipe_ne_nil : writeLogToPipe m ≠ [] := by
  intro h
  have hlen := length_writeLogToPipe m
  rw [h, length_nil, metaSize] at hlen
  omega

lemma prioChar_of_neg (h : prio.toInt < 0) : prioChar prio = none := by
  rw [prioChar, ALogPriority.fromI32, if_pos h]
  rfl

end Messages

/-! ### Lengths of entries -/

section Lengths

lemma length_digits (n v : Nat) : (digits n v).length = n := by
  induction n generalizing v with
  | zero => rfl
  | succ n ih => rw [digits, length_append, ih, length_singleton]

lemma length_aux (now : Now) (pid tid : Int32) (prio : Char) :
    (aux now pid tid prio).length = 25 + (column pid).length + (column tid).length := by
  simp only [aux, Now.strftime, length_append, length_digits, length_cons,
    length_nil]
  omega

/-- The length of the entry of a message. -/
def entryLength (m : Message) : Nat :=
  (prioChar m.prio).elim 0 fun _ =>
    25 + (column m.pid).length + (column m.tid).length + m.body.length

lemma Entries.length_eq (h : Entries ms text) : text.length = (ms.map entryLength).sum := by
  induction h with
  | nil => rfl
  | skip h hprio ih =>
    rw [map_append, sum_append, ← ih, map_singleton, sum_singleton,
      entryLength, hprio]
    rfl
  | entry now h hprio ih =>
    rw [map_append, sum_append, ← ih, map_singleton, sum_singleton,
      entryLength, hprio, length_append, length_append, length_aux]
    rfl

lemma Entries.length_snoc (h : Entries ms text)
    (h' : Entries (ms ++ [m]) text') : text'.length = text.length + entryLength m := by
  rw [h'.length_eq, h.length_eq, map_append, sum_append, map_singleton,
    sum_singleton]

end Lengths

/-! ### Single steps -/

section Steps

variable {read left : List Message} {m : Message} {logfile : LogFile} {s s' : Logd} {created : Bool}

/-- A write goes behind the other messages. -/
lemma Framed.push (h : Framed s) (m : Message) : Framed (s.push (writeLogToPipe m) m) := by
  obtain ⟨pipe, logfile, phase, sent⟩ := s
  have hsnoc : ∀ l : List Message, (l ++ [m]).flatMap writeLogToPipe =
      l.flatMap writeLogToPipe ++ writeLogToPipe m := by
    intro l
    rw [flatMap_append, flatMap_singleton]
  cases phase with
  | header =>
    obtain ⟨read, left, rfl, rfl, hentries⟩ := h
    exact ⟨read, left ++ [m], append_assoc .., (hsnoc left).symm, hentries⟩
  | body hdr =>
    obtain ⟨read, m', left, rfl, rfl, rfl, hentries⟩ := h
    refine ⟨read, m', left ++ [m], append_assoc .., rfl, ?_, hentries⟩
    rw [hsnoc]
    exact append_assoc ..
  | ended => exact h

lemma openLogfile_of_good
    (h : ∀ text, logfile = .buffer text → created = true ∧ text.length ≤ room) :
    ∃ logfile', openLogfile created room logfile = (.header, logfile') ∧
      logfile'.text = logfile.text := by
  cases logfile with
  | actual text => exact ⟨_, rfl, rfl⟩
  | buffer text =>
    obtain ⟨rfl, hroom⟩ := h text rfl
    refine ⟨.actual (text.take room), ?_, take_of_length_le hroom⟩
    rw [openLogfile, if_neg (by decide), if_pos hroom]

lemma openLogfile_of_bad
    (h : ¬∀ text, logfile = .buffer text → created = true ∧ text.length ≤ room) :
    (openLogfile created room logfile).1 = .ended := by
  cases logfile with
  | actual text => exact absurd (fun _ => nofun) h
  | buffer text =>
    cases created with
    | false => rfl
    | true =>
      rw [openLogfile, if_neg (by decide), if_neg]
      exact fun hroom => h fun _ htext => ⟨rfl, by rw [← LogFile.buffer.inj htext]; exact hroom⟩

/-- **After a header** the log is right exactly if it does not hide a text and the file is fine. -/
lemma framed_onHeader_iff (hentries : Entries read logfile.text) (created : Bool) (room : Nat) :
    Framed ⟨m.body ++ left.flatMap writeLogToPipe, (onHeader m.header created room logfile).2,
        (onHeader m.header created room logfile).1, read ++ m :: left⟩ ↔
      (m.prio.toInt < 0 → m.body = [] ∧
        ∀ text, logfile = .buffer text → created = true ∧ text.length ≤ room) := by
  by_cases hneg : m.prio.toInt < 0
  · have hopen : onHeader m.header created room logfile = openLogfile created room logfile :=
      if_pos hneg
    rw [hopen]
    constructor
    · intro hframed _
      have hgood : ∀ text, logfile = .buffer text → created = true ∧ text.length ≤ room := by
        by_contra hbad
        rw [openLogfile_of_bad hbad] at hframed
        exact hframed
      refine ⟨?_, hgood⟩
      obtain ⟨logfile', heq, -⟩ := openLogfile_of_good hgood
      rw [heq] at hframed
      obtain ⟨read', left', hsent, hpipe, -⟩ := hframed
      by_contra hbody
      -- the thread would be inside of the message
      have hpos := length_pos_of_ne_nil hbody
      refine not_between hsent ?_ ?_ (congrArg List.length hpipe).symm
      · rw [length_append]
        omega
      · rw [flatMap_cons, length_append, length_append, length_writeLogToPipe,
          metaSize]
        omega
    · intro h
      obtain ⟨hbody, hgood⟩ := h hneg
      obtain ⟨logfile', heq, htext⟩ := openLogfile_of_good hgood
      rw [heq, hbody]
      refine ⟨read ++ [m], left, append_cons read m left, rfl, ?_⟩
      rw [htext]
      exact hentries.skip (prioChar_of_neg hneg)
  · have hlen := toInt_len_header m
    have hle := length_body_le m
    have hbody : onHeader m.header created room logfile = (.body m.header, logfile) := by
      refine (if_neg hneg).trans (if_neg ?_)
      omega
    rw [hbody]
    exact ⟨fun _ h => absurd h hneg, fun _ => ⟨read, m, left, rfl, rfl, rfl, hentries⟩⟩

/-- What is left of the messages says how far the thread is. -/
lemma framed_header_iff : Framed ⟨left.flatMap writeLogToPipe, text, .header, read ++ m :: left⟩ ↔
      Entries (read ++ [m]) text.text := by
  constructor
  · rintro ⟨read', left', hsent, hpipe, hentries⟩
    have hsplit : read ++ [m] ++ left = read' ++ left' := by
      rw [append_assoc]
      exact hsent
    obtain ⟨hread, -⟩ := split_unique writeLogToPipe_ne_nil hsplit (congrArg List.length hpipe)
    rw [hread]
    exact hentries
  · intro hentries
    exact ⟨read ++ [m], left, append_cons read m left, rfl, hentries⟩

/-- **After a text** the log is right exactly if all of the entry is written. -/
lemma framed_onBody_iff (hentries : Entries read logfile.text) (now : Option Now)
    (written : Option Nat) :
    Framed ⟨left.flatMap writeLogToPipe, (onBody m.header m.body now written logfile).2,
        (onBody m.header m.body now written logfile).1, read ++ m :: left⟩ ↔
      ∀ prio, prioChar m.prio = some prio → ∃ t, now = some t ∧
        ∀ text, logfile = .actual text →
          ∃ n, written = some n ∧ (aux t m.pid m.tid prio).length + m.body.length ≤ n := by
  cases hprio : prioChar m.prio with
  | none =>
    have heq : onBody m.header m.body now written logfile = (.header, logfile) := by
      rw [onBody, show m.header.prio = m.prio from rfl, hprio]
    rw [heq]
    exact ⟨fun _ => nofun, fun _ => framed_header_iff.mpr (hentries.skip hprio)⟩
  | some prio =>
    have hlength : entryLength m = 25 + (column m.pid).length + (column m.tid).length +
        m.body.length := by
      rw [entryLength, hprio]
      rfl
    cases now with
    | none =>
      have heq : onBody m.header m.body none written logfile = (.header, logfile) := by
        rw [onBody, show m.header.prio = m.prio from rfl, hprio]
      rw [heq, framed_header_iff]
      constructor
      · intro hmore
        have hlen : logfile.text.length = _ := hentries.length_snoc hmore
        omega
      · intro h
        obtain ⟨t, hnow, -⟩ := h prio rfl
        exact absurd hnow nofun
    | some t =>
      have heq : onBody m.header m.body (some t) written logfile =
          writeVectored (aux t m.pid m.tid prio ++ m.body) written logfile := by
        rw [onBody, show m.header.prio = m.prio from rfl, hprio]
        rfl
      rw [heq]
      cases logfile with
      | buffer text =>
        constructor
        · exact fun _ _ _ => ⟨t, rfl, fun _ => nofun⟩
        · exact fun _ => framed_header_iff.mpr (hentries.entry t hprio)
      | actual text =>
        cases written with
        | none =>
          constructor
          · exact fun h => absurd h id
          · intro h
            obtain ⟨_, -, hwritten⟩ := h prio rfl
            obtain ⟨_, hn, -⟩ := hwritten text rfl
            exact absurd hn nofun
        | some n =>
          refine framed_header_iff.trans ?_
          constructor
          · intro hmore prio' hprio'
            refine ⟨t, rfl, fun _ _ => ⟨n, rfl, ?_⟩⟩
            have hlen : (text ++ (aux t m.pid m.tid prio ++ m.body).take n).length =
                text.length + _ := hentries.length_snoc hmore
            rw [hlength, length_append, length_take, length_append,
              length_aux] at hlen
            rw [length_aux]
            omega
          · intro h
            obtain ⟨_, ht, hwritten⟩ := h prio rfl
            cases ht
            obtain ⟨_, hn, hle⟩ := hwritten text rfl
            cases hn
            rw [← length_append] at hle
            have hentry := hentries.entry t hprio
            rw [← take_of_length_le hle] at hentry
            exact hentry

/-- A step that reads a header of a framed pipe reads that of the next message. -/
lemma Framed.next (h : Framed s) (hphase : s.phase = .header) (hlen : metaSize ≤ s.pipe.length) :
    ∃ read m left, s.sent = read ++ m :: left ∧ Entries read s.logfile.text ∧
      LogMeta.ofBytes (s.pipe.take metaSize) = m.header ∧
      s.pipe.drop metaSize = m.body ++ left.flatMap writeLogToPipe := by
  rw [Framed, hphase] at h
  obtain ⟨read, left, hsent, hpipe, hentries⟩ := h
  cases left with
  | nil =>
    rw [hpipe, flatMap_nil, length_nil, metaSize] at hlen
    omega
  | cons m left =>
    refine ⟨read, m, left, hsent, hentries, ?_, ?_⟩
    · rw [hpipe, flatMap_cons, writeLogToPipe, append_assoc,
        take_left' (length_bytesOf _), ofBytes_bytesOf]
    · rw [hpipe, flatMap_cons, writeLogToPipe, append_assoc,
        drop_left' (length_bytesOf _)]

/-- A step that reads a header. -/
lemma Logd.step_readHeader (hstep : s.step (.readHeader created room) = some s') :
    s.phase = .header ∧ metaSize ≤ s.pipe.length ∧
      s' = ⟨s.pipe.drop metaSize,
        (onHeader (.ofBytes (s.pipe.take metaSize)) created room s.logfile).2,
        (onHeader (.ofBytes (s.pipe.take metaSize)) created room s.logfile).1, s.sent⟩ := by
  unfold Logd.step at hstep
  cases hphase : s.phase <;> rw [hphase] at hstep
  case header =>
    split_ifs at hstep with hlen
    exact ⟨rfl, not_lt.mp hlen, (some.inj hstep).symm⟩
  all_goals exact absurd hstep nofun

/-- A step that reads a text. -/
lemma Logd.step_readBody {written} (hstep : s.step (.readBody now written) = some s') :
    ∃ hdr, s.phase = .body hdr ∧
      s' = ⟨s.pipe.drop hdr.len.toInt.toNat,
        (onBody hdr (s.pipe.take hdr.len.toInt.toNat) now written s.logfile).2,
        (onBody hdr (s.pipe.take hdr.len.toInt.toNat) now written s.logfile).1, s.sent⟩ := by
  unfold Logd.step at hstep
  cases hphase : s.phase <;> rw [hphase] at hstep
  case body hdr =>
    simp only at hstep
    split_ifs at hstep
    exact ⟨hdr, rfl, (some.inj hstep).symm⟩
  all_goals exact absurd hstep nofun

/-- **One step.**  From a log that is right exactly the sound steps lead to one that is. -/
theorem framed_step_iff {e : Event} (h : Framed s) (hstep : s.step e = some s') :
    Framed s' ↔ Sound s e := by
  cases e with
  | write m =>
    rw [← some.inj hstep]
    exact ⟨fun _ => trivial, fun _ => h.push m⟩
  | setupLogfile =>
    rw [← some.inj hstep]
    exact ⟨fun _ => trivial, fun _ => h.push setup⟩
  | readHeader created room =>
    obtain ⟨hphase, hlen, rfl⟩ := Logd.step_readHeader hstep
    obtain ⟨read, m, left, hsent, hentries, hhdr, hdrop⟩ := h.next hphase hlen
    rw [Sound, hhdr, hdrop, hsent, len_header_eq_zero_iff]
    exact framed_onHeader_iff hentries created room
  | readBody now written =>
    obtain ⟨hdr, hphase, rfl⟩ := Logd.step_readBody hstep
    rw [Framed, hphase] at h
    obtain ⟨read, m, left, hsent, rfl, hpipe, hentries⟩ := h
    have hlen : m.header.len.toInt.toNat = m.body.length := by
      rw [toInt_len_header, Int.toNat_natCast]
    rw [hlen, hpipe, take_left, drop_left, hsent, framed_onBody_iff hentries, Sound,
      hphase]
    constructor
    · rintro hall _ prio ⟨⟩ hprio
      rw [hlen]
      exact hall prio hprio
    · intro hall prio hprio
      have hsound := hall m.header prio rfl hprio
      rw [hlen] at hsound
      exact hsound

end Steps

/-! ### Whole runs -/

/-- **The log daemon.**  However the writers are interleaved, and whatever the system calls of the
thread answer, in every run and at every point of it the thread is between two messages, or between
a header and its text, and has written one entry for each supported message before, exactly if all
steps that may be taken are sound. -/
theorem framed_iff (world : Logd → Event → Prop) :
    (∀ s, logfileWriteLoop.Reach world s → Framed s) ↔
      ∀ s e s', logfileWriteLoop.Reach world s → world s e → s.step e = some s' → Sound s e := by
  refine System.forall_reach_iff (I := Framed) ?_ (fun _ h => h) ?_
  · rintro _ rfl
    exact ⟨[], [], rfl, rfl, .nil⟩
  · intro s e s' h hstep
    exact ⟨(framed_step_iff h hstep).mp, (framed_step_iff h hstep).mpr⟩

/-- One byte with a negative priority, and then a message of a logger. -/
def negative : List Event :=
  [.write ⟨-1, [0x78], 1, 1⟩, .write ⟨levelToPrio .info, str "hello", 1, 1⟩,
    .readHeader true 4096, .readHeader true 4096]

/-- **Framing is lost.**  The thread does not read the text of the first message, takes it for the
beginning of a header, and waits for a text of 1280 bytes. -/
theorem framing_lost :
    ∃ s, logfileWriteLoop.run ⟨[], .buffer [], .header, []⟩ negative = some s ∧
      s.phase = .body ⟨0x478, 1280, 256, 256⟩ ∧ s.logfile = .actual [] ∧ ¬Framed s := by
  refine ⟨_, rfl, rfl, rfl, ?_⟩
  rintro ⟨read, m, left, hsent, hhdr, -⟩
  have hmem : m ∈ read ++ m :: left := mem_append_right _ (.head _)
  rw [← hsent] at hmem
  rcases mem_cons.mp hmem with rfl | hmem
  · exact absurd hhdr (by decide)
  · rw [mem_singleton.mp hmem] at hhdr
    exact absurd hhdr (by decide)

end Magisk.Core.Logging
