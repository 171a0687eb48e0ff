import PicoOS.Kernel.Trace
import PicoOS.Lib.Decimal
import PicoOS.Shell.Commands

/-!
# The trace command

`cmd_trace` reads the scheduler's recorder call by call while both cores go on
scheduling. `trace show` stops the recording meanwhile, so that its own output does
not push out what it shows. Beside the shell stands the recording that the trace
stands for, and what each command has found in it, printed and left of it.
-/
namespace PicoOS.Shell

open Fs Kernel CString

/-! ### The argument -/

/-- `isspace`. -/
def isSpaceChar (c : UInt8) : Bool := c == 0x20 || (0x09 ≤ c && c ≤ 0x0D)

/-- `strtoul(s, NULL, 10)`: a value out of range is cut to the largest one, and one behind a minus
is negated. -/
def strtoul (s : CStr) : UInt32 :=
  let s := s.val.dropWhile isSpaceChar
  let negated := s.head? = some 0x2D
  let digits := if s.head? = some 0x2D ∨ s.head? = some 0x2B then s.tail else s
  let value := Decimal.value (digits.takeWhile Decimal.isDigit)
  if 2 ^ 32 ≤ value then 0xFFFFFFFF
  else if negated then -.ofNat value
  else .ofNat value

/-- What `cmd_trace` is asked for. -/
inductive TraceCmd where
  | status
  | on (name : Option CStr)
  | off
  | showEvents (want : UInt32)
  | usage

/-- The branches of `cmd_trace`. -/
def cmdTrace (argv : List CStr) : TraceCmd :=
  match argv with
  | _ :: sub :: args =>
    if sub.val = text "on" then .on args.head?
    else if sub.val = text "off" then .off
    else if sub.val = text "show" then .showEvents ((args.head?.map strtoul).getD 0)
    else .usage
  | _ => .status

/-! ### What is printed -/

/-- `%lu`. -/
def lu (n : UInt32) : List UInt8 := Decimal.decimal n.toNat

/-- A field of at least this width. -/
def padded (pad : UInt8) (width : Nat) (digits : List UInt8) : List UInt8 :=
  List.replicate (width - digits.length) pad ++ digits

def crlf : List UInt8 := [0x0D, 0x0A]

/-- `shell_println`. -/
def println (s : String) : List UInt8 := text s ++ crlf

/-- `trace_why`. -/
def traceWhy (state : UInt8) : List UInt8 :=
  match state with
  | 2 => text "preempt/yield"
  | 4 => text "sleep"
  | 3 => text "block"
  | 5 => text "exit"
  | _ => text "?"

/-- `%s(%lu)`. -/
def threadText (name : List UInt8) (tid : UInt32) : List UInt8 :=
  name ++ text "(" ++ lu tid ++ text ")"

/-- What `trace_show` prints of an event, timed from `t0`. -/
def eventText (t0 : UInt32) (e : TraceEvent) : List UInt8 :=
  let dt := e.timeUs - t0
  padded 0x20 4 (lu (dt / 1000)) ++ text "." ++ padded 0x30 3 (lu (dt % 1000)) ++ text "  c" ++
    Decimal.decimal e.core ++ text "   " ++
    (match e.type with
    | .switch =>
      threadText (if e.name.val = [] then text "-" else e.name.val) e.tid ++ text " -> " ++
        threadText e.toName.val e.toTid ++ text "  " ++ traceWhy e.state
    | .wake => text "wake     " ++ threadText e.name.val e.tid
    | .unblock => text "unblock  " ++ threadText e.name.val e.tid
    | .kill => text "kill     " ++ threadText e.name.val e.tid) ++ crlf

def statusText (on : Bool) (recorded kept : UInt32) (filter : CStr) : List UInt8 :=
  text "trace: " ++ text (if on then "on" else "off") ++ text ", " ++ lu recorded ++
    text " events recorded, " ++ lu kept ++ text " kept" ++
    (if filter.val = [] then [] else text ", threads named " ++ filter.val ++ text "*") ++ crlf

def onText : Option CStr → List UInt8
  | some name => text "Tracing threads named " ++ name.val ++ println "*."
  | none => println "Tracing all threads."

def headingText (empty : Bool) : List UInt8 :=
  println (if empty then "trace: no events (start with: trace on [name])"
    else "      ms  core  event")

/-! ### The shell thread -/

/-- Where the shell is in `cmd_trace`: before it, and in `trace_show` before each of the calls that
take `sched_lock`. -/
inductive TracePc where
  | idle
  | called (cmd : TraceCmd)
  | pausing (want : UInt32) (wasOn : Bool)
  | window (want : UInt32) (wasOn : Bool)
  | printing (wasOn : Bool) (seq endSeq : UInt32) (t0 : Option UInt32)

/-- The trace, and the shell with what its last command has printed so far. -/
structure Tracing where
  trace : Trace
  pc : TracePc
  out : List UInt8

namespace Tracing

variable (s : Tracing)

/-- The changes of the trace that the shell's next step makes. -/
def traceOps : TracePc → List TraceOp
  | .called (.on name) => [.start name]
  | .called .off => [.pause true]
  | .pausing _ _ => [.pause true]
  | .printing true seq endSeq _ => if seq < endSeq then [] else [.pause false]
  | _ => []

/-- Where the shell gets, and what it prints on the way. -/
def next : TracePc × List UInt8 :=
  match s.pc with
  | .idle => (.idle, [])
  | .called .status =>
    let info := schedTraceInfo s.trace
    (.idle, statusText info.on info.endSeq (info.endSeq - info.first) info.filter)
  | .called (.on name) => (.idle, onText name)
  | .called .off => (.idle, println "Tracing stopped; 'trace show' prints the events.")
  | .called (.showEvents want) => (.pausing want (schedTraceInfo s.trace).on, [])
  | .called .usage => (.idle, println "Usage: trace [on [name] | off | show [n]]")
  | .pausing want wasOn => (.window want wasOn, [])
  | .window want wasOn =>
    -- the newest of what the ring keeps
    let info := schedTraceInfo s.trace
    let first :=
      if want ≠ 0 ∧ info.endSeq - info.first > want then info.endSeq - want else info.first
    (.printing wasOn first info.endSeq none, headingText (first == info.endSeq))
  | .printing wasOn seq endSeq t0 =>
    if seq < endSeq then
      match schedTraceGet s.trace seq with
      -- overwritten meanwhile
      | none => (.printing wasOn (seq + 1) endSeq t0, [])
      | some e =>
        let t0 := t0.getD e.timeUs
        (.printing wasOn (seq + 1) endSeq (some t0), eventText t0 e)
    else (.idle, [])

/-- The shell is between commands and is given one, takes a step, or the scheduler does. -/
inductive Event where
  | command (argv : List CStr)
  | shell
  | sched (now : UInt32) (core : Core) (e : SchedEvent)

def step : Event → Tracing
  | .command argv =>
    match s.pc with
    | .idle => { s with pc := .called (cmdTrace argv), out := [] }
    | _ => s
  | .shell =>
    { trace := (traceOps s.pc).foldl Trace.step s.trace
      pc := s.next.1
      out := s.out ++ s.next.2 }
  | .sched now core e => { s with trace := schedEvent s.trace now core e }

end Tracing

/-! ### What the commands are for -/

/-- The events that `trace show` is to show. -/
def shown (want : UInt32) (log : List TraceEvent) : List TraceEvent :=
  let kept := log.rtake traceEvents.toNat
  if want = 0 then kept else kept.rtake want.toNat

/-- The lines of events, timed from the first. -/
def eventsText (t0 : Option UInt32) (log : List TraceEvent) : List UInt8 :=
  log.flatMap (eventText (t0.getD ((log.head?.map TraceEvent.timeUs).getD 0)))

namespace TraceCmd

/-- What a command has to print of the recording it finds. -/
def answer (r : Recording) : TraceCmd → List UInt8
  | .status =>
    statusText r.on (.ofNat r.log.length) (.ofNat (min traceEvents.toNat r.log.length)) r.filter
  | .on name => onText name
  | .off => println "Tracing stopped; 'trace show' prints the events."
  | .showEvents want =>
    let shown := shown want r.log
    headingText shown.isEmpty ++ eventsText none shown
  | .usage => println "Usage: trace [on [name] | off | show [n]]"

/-- What it leaves of the recording. -/
def leaves (r : Recording) : TraceCmd → Recording
  | .on name => r.step (.start name)
  | .off => r.step (.pause true)
  | _ => r

end TraceCmd

/-- A command that has been carried out. -/
structure Served where
  cmd : TraceCmd
  found : Recording
  printed : List UInt8
  left : Recording

def Served.Right (x : Served) : Prop :=
  x.printed = x.cmd.answer x.found ∧ x.left = x.cmd.leaves x.found

/-- The system with the recording beside it; `found` is what the running command has found. -/
structure Watched where
  sys : Tracing
  cmd : TraceCmd
  recording : Recording
  found : Recording
  served : List Served

namespace Watched

def start : Watched := ⟨⟨.boot, .idle, []⟩, .usage, .boot, .boot, []⟩

def isIdle : TracePc → Bool
  | .idle => true
  | _ => false

/-- What the running command has found: `trace_show` looks where it stops the recording. -/
def seen (w : Watched) : Recording :=
  match w.sys.pc with
  | .called _ | .pausing _ _ => w.recording
  | _ => w.found

def step (w : Watched) (e : Tracing.Event) : Watched :=
  let sys := w.sys.step e
  match e with
  | .command argv =>
    { w with
      sys := sys
      cmd := if isIdle w.sys.pc then cmdTrace argv else w.cmd }
  | .shell =>
    let recording := (Tracing.traceOps w.sys.pc).foldl Recording.step w.recording
    { sys := sys
      cmd := w.cmd
      recording := recording
      found := w.seen
      served :=
        bif !isIdle w.sys.pc && isIdle sys.pc then w.served ++ [⟨w.cmd, w.seen, sys.out, recording⟩]
        else w.served }
  | .sched now core e => { w with sys := sys, recording := w.recording.step (.event now core e) }

end Watched

/-! ### The window -/

/-- The number of the first event to be shown. -/
def firstShown (want : UInt32) (n : Nat) : Nat :=
  if want = 0 then n - traceEvents.toNat else max (n - traceEvents.toNat) (n - want.toNat)

theorem shown_eq (want : UInt32) (log : List TraceEvent) :
    shown want log = log.drop (firstShown want log.length) := by
  unfold shown firstShown
  split
  next => rfl
  next =>
    simp only [List.rtake, List.drop_drop, List.length_drop]
    generalize traceEvents.toNat = kept
    have same : log.length - kept + (log.length - (log.length - kept) - want.toNat) =
        max (log.length - kept) (log.length - want.toNat) := by omega
    rw [same]

theorem firstShown_le (want : UInt32) (n : Nat) : firstShown want n ≤ n := by
  unfold firstShown
  split <;> omega

theorem le_firstShown (want : UInt32) (n : Nat) :
    n - traceEvents.toNat ≤ firstShown want n := by
  unfold firstShown
  split
  · exact le_rfl
  · exact le_max_left _ _

/-- `trace_show` starts there. -/
theorem window_first (s : Trace) (want : UInt32) :
    (if want ≠ 0 ∧ (schedTraceInfo s).endSeq - (schedTraceInfo s).first > want then
      (schedTraceInfo s).endSeq - want else (schedTraceInfo s).first).toNat =
        firstShown want s.seq.toNat := by
  have first := first_toNat s
  have below : (schedTraceInfo s).first ≤ (schedTraceInfo s).endSeq := by
    rw [UInt32.le_iff_toNat_le, first]
    exact Nat.sub_le _ _
  have kept := UInt32.toNat_sub_of_le _ _ below
  rw [first, show (schedTraceInfo s).endSeq = s.seq from rfl] at kept
  rw [show (schedTraceInfo s).endSeq = s.seq from rfl]
  by_cases all : want = 0
  · rw [if_neg (fun both => both.1 all), first, firstShown, if_pos all]
  · rw [firstShown, if_neg all]
    by_cases more : s.seq - (schedTraceInfo s).first > want
    · rw [if_pos ⟨all, more⟩]
      rw [gt_iff_lt, UInt32.lt_iff_toNat_lt, kept] at more
      have few : want ≤ s.seq := by
        rw [UInt32.le_iff_toNat_le]
        omega
      rw [UInt32.toNat_sub_of_le _ _ few]
      omega
    · rw [if_neg (fun both => more both.2), first]
      rw [gt_iff_lt, UInt32.lt_iff_toNat_lt, kept] at more
      omega

theorem succ_toNat {seq endSeq : UInt32} (more : seq < endSeq) :
    (seq + 1).toNat = seq.toNat + 1 := by
  have bound := endSeq.toNat_lt
  rw [UInt32.lt_iff_toNat_lt] at more
  rw [UInt32.toNat_add, UInt32.toNat_one, Nat.mod_eq_of_lt (by omega)]

/-- An event in the window is read. -/
theorem get_kept {s : Trace} {r : Recording} (records : Records s r) (few : r.log.length < 2 ^ 32)
    (seq : UInt32) (kept : r.log.length - traceEvents.toNat ≤ seq.toNat)
    (inside : seq.toNat < r.log.length) :
    ∃ e, schedTraceGet s seq = some e ∧ r.log[seq.toNat]? = some e := by
  have ring := records.ring few
  have number : s.seq.toNat = r.log.length := ring.seq
  refine ⟨s.ring (seq % traceEvents).toNat, ?_, ?_⟩
  · rw [schedTraceGet_eq]
    apply if_pos
    rw [UInt32.le_iff_toNat_le, UInt32.lt_iff_toNat_lt, first_toNat]
    simp only [schedTraceInfo]
    omega
  · rw [UInt32.toNat_mod]
    apply ring.read
    · simpa only [Recorder.first, number] using kept
    · simpa only [number] using inside

/-! ### A command -/

namespace Watched

/-- What has come of the command so far. -/
def At (w : Watched) : TracePc → Prop
  | .idle => True
  | .called cmd => w.cmd = cmd ∧ w.sys.out = []
  | .pausing want wasOn => w.cmd = .showEvents want ∧ w.sys.out = [] ∧ wasOn = w.recording.on
  | .window want wasOn =>
    w.cmd = .showEvents want ∧ w.sys.out = [] ∧ wasOn = w.found.on ∧
      w.recording = w.found.step (.pause true)
  | .printing wasOn seq endSeq t0 =>
    (∃ want, w.cmd = .showEvents want) ∧ wasOn = w.found.on ∧
      w.recording = w.found.step (.pause true) ∧ endSeq.toNat = w.found.log.length ∧
      w.found.log.length - traceEvents.toNat ≤ seq.toNat ∧ seq.toNat ≤ endSeq.toNat ∧
      w.sys.out ++ eventsText t0 (w.found.log.drop seq.toNat) = w.cmd.answer w.found

structure Inv (w : Watched) : Prop where
  records : Records w.sys.trace w.recording
  served : ∀ x ∈ w.served, x.Right
  now : w.At w.sys.pc

variable {w : Watched}

theorem start_inv : Inv start := ⟨.boot, by simp [start], trivial⟩

/-- While the recording is stopped, the scheduler adds nothing to it. -/
theorem stopped_event (r : Recording) (now : UInt32) (core : Core) (e : SchedEvent) :
    (r.step (.pause true)).step (.event now core e) = r.step (.pause true) := by
  simp [Recording.step]

theorem event_on (r : Recording) (now : UInt32) (core : Core) (e : SchedEvent) :
    (r.step (.event now core e)).on = r.on := by
  simp only [Recording.step]
  split <;> rfl

theorem sched_inv (inv : Inv w) (now : UInt32) (core : Core) (e : SchedEvent) :
    Inv (w.step (.sched now core e)) where
  records := inv.records.step (.event now core e)
  served := inv.served
  now := by
    have here := inv.now
    simp only [step, Tracing.step]
    cases at_ : w.sys.pc with
    | idle => trivial
    | called cmd =>
      rw [at_] at here
      exact here
    | pausing want wasOn =>
      rw [at_] at here
      obtain ⟨cmd, out, on⟩ := here
      exact ⟨cmd, out, on.trans (event_on ..).symm⟩
    | window want wasOn =>
      rw [at_] at here
      obtain ⟨cmd, out, on, stopped⟩ := here
      exact ⟨cmd, out, on, by rw [stopped, stopped_event]⟩
    | printing wasOn seq endSeq t0 =>
      rw [at_] at here
      obtain ⟨cmd, on, stopped, rest⟩ := here
      exact ⟨cmd, on, by rw [stopped, stopped_event], rest⟩

theorem command_inv (inv : Inv w) (argv : List CStr) : Inv (w.step (.command argv)) := by
  obtain ⟨records, served, now⟩ := inv
  cases at_ : w.sys.pc with
  | idle =>
    refine ⟨?_, served, ?_⟩
    · simpa only [step, Tracing.step, at_] using records
    · simp only [step, Tracing.step, at_]
      exact ⟨rfl, rfl⟩
  | _ =>
    have same : w.step (.command argv) = w := by
      simp only [step, Tracing.step, at_, isIdle, Bool.false_eq_true, if_false]
    rw [same]
    exact ⟨records, served, now⟩

/-- The shell's step where its command goes on. -/
theorem goes_on (inv : Inv w) (more : isIdle w.sys.next.1 = false)
    (now : (w.step .shell).At w.sys.next.1) : Inv (w.step .shell) where
  records := inv.records.run (Tracing.traceOps w.sys.pc)
  served x member := by
    apply inv.served x
    simpa only [step, Tracing.step, more, Bool.and_false, cond_false] using member
  now := now

/-- The shell's step where its command ends, which has printed and left what it has to. -/
theorem ends (inv : Inv w) (last : w.sys.next.1 = .idle)
    (right : Served.Right ⟨w.cmd, w.seen, w.sys.out ++ w.sys.next.2,
      (Tracing.traceOps w.sys.pc).foldl Recording.step w.recording⟩) : Inv (w.step .shell) where
  records := inv.records.run (Tracing.traceOps w.sys.pc)
  served x member := by
    have idle : isIdle .idle = true := rfl
    simp only [step, Tracing.step, last, idle, Bool.and_true] at member
    cases busy : isIdle w.sys.pc with
    | true =>
      rw [busy, Bool.not_true, cond_false] at member
      exact inv.served x member
    | false =>
      rw [busy, Bool.not_false, cond_true, List.mem_append, List.mem_singleton] at member
      obtain old | rfl := member
      · exact inv.served x old
      · exact right
  now := by
    simp only [step, Tracing.step, last]
    trivial

/-- `sched_trace_info` shows the numbers of the recording. -/
theorem status_right (records : Records w.sys.trace w.recording)
    (few : w.recording.log.length < 2 ^ 32) :
    statusText (schedTraceInfo w.sys.trace).on (schedTraceInfo w.sys.trace).endSeq
        ((schedTraceInfo w.sys.trace).endSeq - (schedTraceInfo w.sys.trace).first)
        (schedTraceInfo w.sys.trace).filter =
      TraceCmd.status.answer w.recording := by
  have number : (schedTraceInfo w.sys.trace).endSeq.toNat = w.recording.log.length :=
    (records.ring few).seq
  have first := first_toNat w.sys.trace
  rw [show w.sys.trace.seq = (schedTraceInfo w.sys.trace).endSeq from rfl, number] at first
  have all : (schedTraceInfo w.sys.trace).endSeq = .ofNat w.recording.log.length := by
    rw [← number, UInt32.ofNat_toNat]
  have kept : (schedTraceInfo w.sys.trace).endSeq - (schedTraceInfo w.sys.trace).first =
      .ofNat (min traceEvents.toNat w.recording.log.length) := by
    apply UInt32.toNat.inj
    have below : (schedTraceInfo w.sys.trace).first ≤ (schedTraceInfo w.sys.trace).endSeq := by
      rw [UInt32.le_iff_toNat_le, first, number]
      exact Nat.sub_le _ _
    rw [UInt32.toNat_sub_of_le _ _ below, first, number, UInt32.toNat_ofNat_of_lt' (by
      show _ < 2 ^ 32
      omega)]
    omega
  rw [kept, all, TraceCmd.answer, ← records.filter, ← records.on]
  rfl

theorem eventsText_cons (t0 : Option UInt32) (e : TraceEvent) (log : List TraceEvent) :
    eventsText t0 (e :: log) =
      eventText (t0.getD e.timeUs) e ++ eventsText (some (t0.getD e.timeUs)) log := by
  simp [eventsText]

theorem called_inv (few : w.recording.log.length < 2 ^ 32) (inv : Inv w) {cmd : TraceCmd}
    (at_ : w.sys.pc = .called cmd) : Inv (w.step .shell) := by
  have here := inv.now
  rw [at_] at here
  obtain ⟨cmd_eq, out⟩ := here
  have seen_eq : w.seen = w.recording := by rw [seen, at_]
  cases cmd with
  | showEvents want =>
    apply goes_on inv
    · simp only [Tracing.next, at_, isIdle]
    · simp only [Tracing.next, at_, At, step, Tracing.step, out, Tracing.traceOps, List.foldl_nil]
      exact ⟨cmd_eq, rfl, inv.records.on⟩
  | status =>
    apply ends inv
    · simp only [Tracing.next, at_]
    · simp only [Tracing.next, at_, Served.Right, cmd_eq, seen_eq, out, List.nil_append,
        Tracing.traceOps, List.foldl_nil]
      exact ⟨status_right inv.records few, rfl⟩
  | on name =>
    apply ends inv
    · simp only [Tracing.next, at_]
    · simp only [Tracing.next, at_, Served.Right, cmd_eq, seen_eq, out, List.nil_append,
        Tracing.traceOps, List.foldl_cons, List.foldl_nil]
      exact ⟨rfl, rfl⟩
  | off =>
    apply ends inv
    · simp only [Tracing.next, at_]
    · simp only [Tracing.next, at_, Served.Right, cmd_eq, seen_eq, out, List.nil_append,
        Tracing.traceOps, List.foldl_cons, List.foldl_nil]
      exact ⟨rfl, rfl⟩
  | usage =>
    apply ends inv
    · simp only [Tracing.next, at_]
    · simp only [Tracing.next, at_, Served.Right, cmd_eq, seen_eq, out, List.nil_append,
        Tracing.traceOps, List.foldl_nil]
      exact ⟨rfl, rfl⟩

/-- `trace_show` takes the window and prints the heading. -/
theorem window_inv (few : w.recording.log.length < 2 ^ 32) (inv : Inv w) {want : UInt32}
    {wasOn : Bool} (at_ : w.sys.pc = .window want wasOn) : Inv (w.step .shell) := by
  have here := inv.now
  rw [at_] at here
  obtain ⟨cmd, out, on, stopped⟩ := here
  have seen_eq : w.seen = w.found := by rw [seen, at_]
  have log : w.recording.log = w.found.log := by rw [stopped, Recording.step]
  have number : w.sys.trace.seq.toNat = w.found.log.length := by
    rw [← log]
    exact (inv.records.ring few).seq
  have first := window_first w.sys.trace want
  rw [number] at first
  apply goes_on inv
  · simp only [Tracing.next, at_, isIdle]
  · simp only [Tracing.next, at_, At, step, Tracing.step, out, Tracing.traceOps, List.foldl_nil,
      seen_eq, List.nil_append]
    generalize (if want ≠ 0 ∧ (schedTraceInfo w.sys.trace).endSeq -
      (schedTraceInfo w.sys.trace).first > want then (schedTraceInfo w.sys.trace).endSeq - want
      else (schedTraceInfo w.sys.trace).first) = seq at first ⊢
    have shown_ := shown_eq want w.found.log
    have below := firstShown_le want w.found.log.length
    refine ⟨⟨want, cmd⟩, on, stopped, number, ?_, ?_, ?_⟩
    · rw [first]
      exact le_firstShown want _
    · rw [first]
      exact below.trans_eq number.symm
    · have empty : (seq == (schedTraceInfo w.sys.trace).endSeq) =
          (shown want w.found.log).isEmpty := by
        rw [shown_, Bool.eq_iff_iff, beq_iff_eq, List.isEmpty_iff, List.drop_eq_nil_iff,
          ← UInt32.toNat_inj, first,
          show (schedTraceInfo w.sys.trace).endSeq = w.sys.trace.seq from rfl, number]
        omega
      rw [cmd, TraceCmd.answer, empty, shown_, first]

/-- Recording goes on at the end of `trace_show` if it was on before. -/
theorem resumed {wasOn : Bool} {seq endSeq want : UInt32} {t0 : Option UInt32}
    (last : ¬ seq < endSeq) (stopped : w.recording = w.found.step (.pause true)) (on : wasOn = w.found.on) :
    (Tracing.traceOps (.printing wasOn seq endSeq t0)).foldl Recording.step w.recording =
      (TraceCmd.showEvents want).leaves w.found := by
  cases found : w.found with
  | mk isOn filter log =>
    simp only [found, Recording.step] at stopped on
    subst on
    cases wasOn
    · exact stopped
    · simp only [Tracing.traceOps, if_neg last, List.foldl_cons, List.foldl_nil, stopped]
      rfl

/-- `trace_show` prints an event, or is through. -/
theorem printing_inv (few : w.recording.log.length < 2 ^ 32) (inv : Inv w) {wasOn : Bool}
    {seq endSeq : UInt32} {t0 : Option UInt32} (at_ : w.sys.pc = .printing wasOn seq endSeq t0) :
    Inv (w.step .shell) := by
  have here := inv.now
  rw [at_] at here
  obtain ⟨⟨want, cmd⟩, on, stopped, number, kept, below, printed⟩ := here
  have seen_eq : w.seen = w.found := by rw [seen, at_]
  have log : w.recording.log = w.found.log := by rw [stopped, Recording.step]
  by_cases more : seq < endSeq
  · have inside : seq.toNat < w.found.log.length := by
      rw [← number]
      exact UInt32.lt_iff_toNat_lt.mp more
    rw [log] at few
    -- nothing was recorded since the window was taken, so the event is still kept
    obtain ⟨e, got, at_seq⟩ := get_kept inv.records (log ▸ few) seq (log ▸ kept) (log ▸ inside)
    rw [log] at at_seq
    have next := succ_toNat more
    have rest : w.found.log.drop seq.toNat = e :: w.found.log.drop (seq.toNat + 1) := by
      obtain ⟨bound, rfl⟩ := List.getElem?_eq_some_iff.mp at_seq
      exact List.drop_eq_getElem_cons bound
    have ops : Tracing.traceOps (.printing wasOn seq endSeq t0) = [] := by
      cases wasOn
      · rfl
      · exact if_pos more
    apply goes_on inv
    · simp only [Tracing.next, at_, if_pos more, got, isIdle]
    · simp only [Tracing.next, at_, if_pos more, got, At, step, Tracing.step, ops, List.foldl_nil,
        seen_eq, next]
      refine ⟨⟨want, cmd⟩, on, stopped, number, by omega, by omega, ?_⟩
      rw [rest, eventsText_cons, ← List.append_assoc] at printed
      exact printed
  · have all : w.found.log.length ≤ seq.toNat := by
      rw [UInt32.lt_iff_toNat_lt] at more
      omega
    rw [List.drop_eq_nil_of_le all] at printed
    apply ends inv
    · simp only [Tracing.next, at_, if_neg more]
    · simp only [Tracing.next, at_, if_neg more, Served.Right, seen_eq]
      refine ⟨by simpa [eventsText] using printed, ?_⟩
      rw [cmd]
      exact resumed more stopped on

theorem shell_inv (few : w.recording.log.length < 2 ^ 32) (inv : Inv w) : Inv (w.step .shell) := by
  cases at_ : w.sys.pc with
  | idle =>
    have same : w.sys.next = (.idle, []) := by rw [Tracing.next, at_]
    refine ⟨inv.records.run (Tracing.traceOps w.sys.pc), ?_, ?_⟩
    · simpa only [step, at_, isIdle, Bool.not_true, Bool.false_and, cond_false] using inv.served
    · simp only [step, Tracing.step, same]
      trivial
  | called cmd => exact called_inv few inv at_
  | pausing want wasOn =>
    have here := inv.now
    rw [at_] at here
    obtain ⟨cmd, out, on⟩ := here
    apply goes_on inv
    · simp only [Tracing.next, at_, isIdle]
    · simp only [Tracing.next, at_, At, step, Tracing.step, out, Tracing.traceOps, seen]
      exact ⟨cmd, rfl, on, rfl⟩
  | window want wasOn => exact window_inv few inv at_
  | printing wasOn seq endSeq t0 => exact printing_inv few inv at_

theorem step_inv (e : Tracing.Event) (inv : Inv w) (few : w.recording.log.length < 2 ^ 32) :
    Inv (w.step e) := by
  cases e with
  | command argv => exact command_inv inv argv
  | shell => exact shell_inv few inv
  | sched now core e => exact sched_inv inv now core e

end Watched

/-! ### The end of a command -/

namespace Tracing

/-- The steps that the shell still has to take. -/
def left : TracePc → Nat
  | .idle => 0
  | .called _ => 132
  | .pausing _ _ => 131
  | .window _ _ => 130
  | .printing _ seq endSeq _ => 1 + (endSeq.toNat - seq.toNat)

/-- The shell prints no more events than the ring has. -/
def Near : TracePc → Prop
  | .printing _ seq endSeq _ => endSeq.toNat - seq.toNat ≤ traceEvents.toNat
  | _ => True

variable {s : Tracing}

/-- Whether an event is read or not, the loop goes on to the next one. -/
theorem next_printing {wasOn : Bool} {seq endSeq : UInt32} {t0 : Option UInt32}
    (at_ : s.pc = .printing wasOn seq endSeq t0) (more : seq < endSeq) :
    ∃ t0', s.next.1 = .printing wasOn (seq + 1) endSeq t0' := by
  simp only [next, at_, if_pos more]
  cases schedTraceGet s.trace seq with
  | none => exact ⟨_, rfl⟩
  | some e => exact ⟨_, rfl⟩

/-- A step of the shell keeps the number of events small and comes closer to the end. -/
theorem next_near (near : Near s.pc) : Near s.next.1 ∧ left s.next.1 ≤ left s.pc - 1 := by
  cases at_ : s.pc with
  | idle => simp [next, at_, Near, left]
  | called cmd => cases cmd <;> simp [next, at_, Near, left]
  | pausing want wasOn => simp [next, at_, Near, left]
  | window want wasOn =>
    have later := le_firstShown want s.trace.seq.toNat
    have ring : traceEvents.toNat = 128 := rfl
    simp only [next, at_, Near, left, window_first]
    simp only [schedTraceInfo]
    omega
  | printing wasOn seq endSeq t0 =>
    rw [at_, Near] at near
    by_cases more : seq < endSeq
    · obtain ⟨t0', goes⟩ := next_printing at_ more
      rw [goes, Near, left, left, succ_toNat more]
      rw [UInt32.lt_iff_toNat_lt] at more
      omega
    · have last : s.next.1 = .idle := by simp only [next, at_, if_neg more]
      rw [last]
      exact ⟨trivial, Nat.zero_le _⟩

theorem step_near (near : Near s.pc) (e : Event) : Near (s.step e).pc := by
  cases e with
  | command argv =>
    simp only [step]
    split
    next => trivial
    next => exact near
  | shell => exact (next_near near).1
  | sched now core e => exact near

theorem left_le (near : Near s.pc) : left s.pc ≤ 132 := by
  have ring : traceEvents.toNat = 128 := rfl
  cases at_ : s.pc with
  | printing wasOn seq endSeq t0 =>
    rw [at_, Near] at near
    rw [left]
    omega
  | _ => simp [left]

def Event.isShell : Event → Bool
  | .shell => true
  | _ => false

def Event.isCommand : Event → Bool
  | .command _ => true
  | _ => false

/-- With so many steps of the shell, whatever the scheduler does between them, a command ends. -/
theorem run_idle (near : Near s.pc) {es : List Event} (alone : ∀ e ∈ es, e.isCommand = false)
    (enough : left s.pc ≤ es.countP Event.isShell) : (Run.exec step s es).pc = .idle := by
  induction es generalizing s with
  | nil =>
    cases at_ : s.pc with
    | idle => exact at_
    | printing wasOn seq endSeq t0 =>
      rw [at_, left, List.countP_nil] at enough
      omega
    | _ =>
      rw [at_] at enough
      cases enough
  | cons e es ih =>
    rw [List.forall_mem_cons] at alone
    rw [Run.exec_cons]
    apply ih (step_near near e) alone.2
    cases e with
    | command argv => cases alone.1
    | shell =>
      have closer : left (s.step .shell).pc ≤ left s.pc - 1 := (next_near near).2
      rw [List.countP_cons_of_pos rfl] at enough
      omega
    | sched now core e =>
      rw [List.countP_cons_of_neg (by simp [Event.isShell])] at enough
      exact enough

end Tracing

namespace Watched

theorem step_sys (w : Watched) (e : Tracing.Event) : (w.step e).sys = w.sys.step e := by
  cases e <;> rfl

/-- The trace commands tell the recording, whatever the scheduler does between their steps: each one
that is carried out has printed what it has to print of the recording it found, `trace show` the
last events and no other ones, and leaves the recording as it has to; and each one ends. -/
theorem trace_commands_tell_recording {es : List Tracing.Event}
    (few : Run.Along step (fun w _ => w.recording.log.length < 2 ^ 32) start es) :
    (∀ x ∈ (Run.exec step start es).served, x.Right) ∧
      ∀ more : List Tracing.Event, (∀ e ∈ more, e.isCommand = false) →
        132 ≤ more.countP Tracing.Event.isShell → (Run.exec step start (es ++ more)).sys.pc = .idle := by
  constructor
  · exact (few.invariant (I := Inv) (fun w e inv few => step_inv e inv few) start_inv).served
  · intro more alone enough
    have near : Tracing.Near (Run.exec Tracing.step start.sys es).pc :=
      Run.exec_invariant (I := fun s : Tracing => Tracing.Near s.pc)
        (fun _ e near => Tracing.step_near near e) (s := start.sys) trivial es
    rw [Run.exec_map (f := Watched.sys) step_sys, Run.exec_append]
    exact Tracing.run_idle near alone ((Tracing.left_le near).trans enough)

/-- Three events, of which the last two are shown, and one while they are printed. -/
def traced : List Tracing.Event :=
  let pi : Traced := ⟨7, ⟨[0x70, 0x69, 0x30], by decide⟩⟩
  let idle : Traced := ⟨1, ⟨[0x69], by decide⟩⟩
  let first : Core := ⟨0, by decide⟩
  let second : Core := ⟨1, by decide⟩
  let word (s : String) (nul : 0 ∉ text s) : CStr := ⟨text s, nul⟩
  [.command [word "trace" (by decide), word "on" (by decide)], .shell,
    .sched 5 first (.wake idle), .sched 6 first (.unblock pi),
    .sched 7 second (.switch (some (idle, 4)) pi),
    .command [word "trace" (by decide), word "show" (by decide), word "2" (by decide)], .shell,
    .shell, .shell, .shell, .sched 8 first (.wake idle), .shell, .shell]

theorem traced_told :
    (∀ x ∈ (Run.exec step start traced).served, x.Right) ∧
      (Run.exec step start traced).served.length = 2 := by
  refine ⟨(trace_commands_tell_recording ?_).1, ?_⟩
  · decide
  · decide

end Watched

end PicoOS.Shell
