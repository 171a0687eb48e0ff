import PicoOS.Fs.State
import PicoOS.Kernel.State
import PicoOS.Lib.Recorder
import PicoOS.Lib.Run
import Mathlib

/-!
# The scheduler trace

The flight recorder of `sched.c`. Its ring is read and written under `sched_lock`
only, so each call and each event is one step. Beside it stands the recording it
stands for: the log of the events since the last start that the filter keeps.
-/
namespace PicoOS.Kernel

open Fs (CStr strncmpEq)

def traceEvents : UInt32 := 128
def traceNameLen : Nat := 12

inductive TraceType where
  | switch
  | wake
  | unblock
  | kill
  deriving DecidableEq

/-- `trace_event_t`. The name arrays are zero behind their strings. -/
structure TraceEvent where
  timeUs : UInt32
  type : TraceType
  core : Core
  state : UInt8
  tid : UInt32
  toTid : UInt32
  name : CStr
  toName : CStr

/-- The C string that `strncpy(dst, src, TRACE_NAME_LEN - 1)` and a terminator leave. -/
def traceName (src : CStr) : CStr :=
  ⟨src.val.take (traceNameLen - 1), fun member => src.property (List.mem_of_mem_take member)⟩

def emptyName : CStr := ⟨[], List.not_mem_nil⟩

/-- `trace_ring`, `trace_seq`, `trace_on` and `trace_filter`. -/
structure Trace where
  ring : Nat → TraceEvent
  seq : UInt32
  on : Bool
  filter : CStr

/-- The zeroed statics. -/
def Trace.boot : Trace :=
  ⟨fun _ => ⟨0, .switch, 0, 0, 0, 0, emptyName, emptyName⟩, 0, false, emptyName⟩

/-- A thread, as its TCB names it. -/
structure Traced where
  tid : UInt32
  name : CStr

/-- What the scheduler traces: a switch from another thread than the selected one, or from none; a
wake-up, an unblock, and a kill of a thread that is no zombie. -/
inductive SchedEvent where
  | switch (prev : Option (Traced × UInt8)) (selected : Traced)
  | wake (t : Traced)
  | unblock (t : Traced)
  | kill (t : Traced) (state : UInt8)

section
variable (s : Trace)

/-- `trace_match`. -/
def traceMatch (name : Option CStr) : Bool :=
  let n := s.filter.val.length
  n == 0 ||
    match name with
    | none => false
    | some name => strncmpEq name.byte s.filter.byte n

/-- `trace_record`. -/
def traceRecord (type : TraceType) (state : UInt8) (tid : UInt32) (name : Option CStr)
    (toTid : UInt32) (toName : Option CStr) (now : UInt32) (core : Core) : Trace :=
  if !traceMatch s name && !(toName.isSome && traceMatch s toName) then s
  else
    let e : TraceEvent :=
      { timeUs := now
        type := type
        core := core
        state := state
        tid := tid
        toTid := toTid
        name := traceName (name.getD emptyName)
        toName := traceName (toName.getD emptyName) }
    { s with
      ring := Function.update s.ring (s.seq % traceEvents).toNat e
      seq := s.seq + 1 }

/-- What the scheduler does to the trace at an event. -/
def schedEvent (now : UInt32) (core : Core) : SchedEvent → Trace
  | .switch prev selected =>
    if s.on then
      match prev with
      | none => traceRecord s .switch 0 0 (some emptyName) selected.tid (some selected.name) now core
      | some (cur, state) =>
        traceRecord s .switch state cur.tid (some (traceName cur.name)) selected.tid
          (some selected.name) now core
    else s
  | .wake t => if s.on then traceRecord s .wake 0 t.tid (some t.name) 0 none now core else s
  | .unblock t => if s.on then traceRecord s .unblock 0 t.tid (some t.name) 0 none now core else s
  | .kill t state => if s.on then traceRecord s .kill state t.tid (some t.name) 0 none now core else s

def schedTraceStart (filter : Option CStr) : Trace :=
  { s with
    filter := traceName (filter.getD emptyName)
    seq := 0
    on := true }

def schedTracePause (pause : Bool) : Trace := { s with on := !pause }

structure TraceInfo where
  first : UInt32
  endSeq : UInt32
  filter : CStr
  on : Bool

def schedTraceInfo : TraceInfo where
  first := if s.seq > traceEvents then s.seq - traceEvents else 0
  endSeq := s.seq
  filter := s.filter
  on := s.on

/-- `none` where it returns false. -/
def schedTraceGet (seq : UInt32) : Option TraceEvent :=
  if seq < s.seq && s.seq - seq ≤ traceEvents then some (s.ring (seq % traceEvents).toNat) else none

end

/-- A step that changes the trace. -/
inductive TraceOp where
  | start (filter : Option CStr)
  | pause (pause : Bool)
  | event (now : UInt32) (core : Core) (e : SchedEvent)

def Trace.step (s : Trace) : TraceOp → Trace
  | .start filter => schedTraceStart s filter
  | .pause pause => schedTracePause s pause
  | .event now core e => schedEvent s now core e

/-! ### The recording -/

/-- A recorder with room for every event: `filter` is the active one, as `sched_trace_info` shows
it, and `log` has what was recorded since the last start. -/
structure Recording where
  on : Bool
  filter : CStr
  log : List TraceEvent

def Recording.boot : Recording := ⟨false, emptyName, []⟩

namespace SchedEvent

/-- The threads it names. -/
def threads : SchedEvent → List Traced
  | .switch none selected => [selected]
  | .switch (some cur) selected => [cur.1, selected]
  | .wake t | .unblock t | .kill t _ => [t]

/-- It names a thread whose name starts with the filter. -/
def named (e : SchedEvent) (filter : CStr) : Bool :=
  e.threads.any fun t => filter.val.isPrefixOf t.name.val

/-- What is kept of it. -/
def entry (e : SchedEvent) (now : UInt32) (core : Core) : TraceEvent :=
  let kept (type : TraceType) (state : UInt8) (from_ to_ : Traced) : TraceEvent :=
    { timeUs := now
      type := type
      core := core
      state := state
      tid := from_.tid
      toTid := to_.tid
      name := traceName from_.name
      toName := traceName to_.name }
  let nobody : Traced := ⟨0, emptyName⟩
  match e with
  | .switch none selected => kept .switch 0 nobody selected
  | .switch (some cur) selected => kept .switch cur.2 cur.1 selected
  | .wake t => kept .wake 0 t nobody
  | .unblock t => kept .unblock 0 t nobody
  | .kill t state => kept .kill state t nobody

end SchedEvent

def Recording.step (r : Recording) : TraceOp → Recording
  | .start filter => ⟨true, traceName (filter.getD emptyName), []⟩
  | .pause pause => { r with on := !pause }
  | .event now core e =>
    if r.on && e.named r.filter then { r with log := r.log ++ [e.entry now core] } else r

/-! ### Matching -/

/-- Up to the length of a string, `strncmp` tests for a prefix. -/
theorem strncmpEq_prefix {a b : List UInt8} (ha : 0 ∉ a) (hb : 0 ∉ b) :
    strncmpEq (fun k => (a[k]?).getD 0) (fun k => (b[k]?).getD 0) b.length = b.isPrefixOf a := by
  induction b generalizing a with
  | nil => simp [strncmpEq]
  | cons y b ih =>
    have y_ne : y ≠ 0 := fun zero => hb (by simp [zero])
    cases a with
    | nil => simp [strncmpEq, y_ne.symm]
    | cons x a =>
      have x_ne : x ≠ 0 := fun zero => ha (by simp [zero])
      have rest := ih (fun member => ha (List.mem_cons_of_mem _ member))
        (fun member => hb (List.mem_cons_of_mem _ member))
      simp only [strncmpEq, List.length_cons, List.getElem?_cons_zero, List.getElem?_cons_succ,
        Option.getD_some, List.isPrefixOf_cons_cons, rest]
      rw [show (x == 0) = false by simpa using x_ne, Bool.false_or, Bool.beq_comm]

theorem traceMatch_some (s : Trace) (name : CStr) :
    traceMatch s (some name) = s.filter.val.isPrefixOf name.val := by
  simp only [traceMatch]
  cases empty : s.filter.val with
  | nil => simp
  | cons x rest =>
    rw [← empty, show (s.filter.val.length == 0) = false by simp [empty], Bool.false_or]
    exact strncmpEq_prefix name.property s.filter.property

/-- A filter is no longer than the names that are kept. -/
def Trace.Short (s : Trace) : Prop := s.filter.val.length ≤ traceNameLen - 1

theorem traceMatch_traceName {s : Trace} (short : s.Short) (name : CStr) :
    traceMatch s (some (traceName name)) = traceMatch s (some name) := by
  rw [traceMatch_some, traceMatch_some, Bool.eq_iff_iff, List.isPrefixOf_iff_prefix,
    List.isPrefixOf_iff_prefix, traceName, List.prefix_take_iff]
  exact and_iff_left short

/-! ### Recording an event -/

def Trace.put (s : Trace) (e : TraceEvent) : Trace :=
  { s with
    ring := Function.update s.ring (s.seq % traceEvents).toNat e
    seq := s.seq + 1 }

theorem traceRecord_eq (s : Trace) (type : TraceType) (state : UInt8) (tid : UInt32) (name : CStr)
    (toTid : UInt32) (toName : Option CStr) (now : UInt32) (core : Core) :
    traceRecord s type state tid (some name) toTid toName now core =
      if traceMatch s (some name) || (toName.isSome && traceMatch s toName) then
        s.put ⟨now, type, core, state, tid, toTid, traceName name, traceName (toName.getD emptyName)⟩
      else s := by
  unfold traceRecord
  cases traceMatch s (some name) <;> cases toName.isSome && traceMatch s toName <;> rfl

theorem traceName_traceName (name : CStr) : traceName (traceName name) = traceName name := by
  apply Subtype.ext
  simp [traceName, List.take_take]

/-- While recording, an event is kept if it names a thread that the filter keeps. -/
theorem schedEvent_eq {s : Trace} (short : s.Short) (now : UInt32) (core : Core) (e : SchedEvent) :
    schedEvent s now core e =
      if s.on && e.named s.filter then s.put (e.entry now core) else s := by
  have one (type : TraceType) (state : UInt8) (t : Traced) :
      (if s.on then traceRecord s type state t.tid (some t.name) 0 none now core else s) =
        if s.on && traceMatch s (some t.name) then
          s.put ⟨now, type, core, state, t.tid, 0, traceName t.name, traceName emptyName⟩
        else s := by
    rw [traceRecord_eq]
    cases s.on <;> simp
  have names (t : Traced) : [t].any (fun t => s.filter.val.isPrefixOf t.name.val) =
      traceMatch s (some t.name) := by
    simp [traceMatch_some]
  cases e with
  | wake t =>
    rw [SchedEvent.named, SchedEvent.threads, names]
    exact one .wake 0 t
  | unblock t =>
    rw [SchedEvent.named, SchedEvent.threads, names]
    exact one .unblock 0 t
  | kill t state =>
    rw [SchedEvent.named, SchedEvent.threads, names]
    exact one .kill state t
  | switch prev selected =>
    cases prev with
    | none =>
      have nobody : (traceMatch s (some emptyName) || traceMatch s (some selected.name)) =
          traceMatch s (some selected.name) := by
        cases empty : s.filter.val with
        | nil => simp [traceMatch_some, empty]
        | cons x rest =>
          have off : traceMatch s (some emptyName) = false := by
            rw [traceMatch_some, empty]
            rfl
          rw [off, Bool.false_or]
      simp only [schedEvent, SchedEvent.named, SchedEvent.threads, names, traceRecord_eq,
        Option.isSome_some, Bool.true_and, nobody]
      cases s.on <;> rfl
    | some cur =>
      have names : [cur.1, selected].any (fun t => s.filter.val.isPrefixOf t.name.val) =
          (traceMatch s (some cur.1.name) || traceMatch s (some selected.name)) := by
        simp [traceMatch_some]
      simp only [schedEvent, SchedEvent.named, SchedEvent.threads, names, traceRecord_eq,
        Option.isSome_some, Bool.true_and, traceMatch_traceName short, traceName_traceName]
      cases s.on <;> rfl

/-! ### The ring -/

/-- What the trace keeps of a recording, as long as its number fits in 32 bits. -/
structure Records (s : Trace) (r : Recording) : Prop where
  on : s.on = r.on
  filter : s.filter = r.filter
  short : s.Short
  ring : r.log.length < 2 ^ 32 →
    Recorder.Holds traceEvents.toNat ⟨s.ring, s.seq.toNat⟩ r.log

namespace Records

variable {s : Trace} {r : Recording}

theorem boot : Records .boot .boot :=
  ⟨rfl, rfl, Nat.zero_le _, fun _ => Recorder.holds_nil _⟩

theorem put (h : Records s r) (e : TraceEvent) : Records (s.put e) { r with log := r.log ++ [e] } where
  on := h.on
  filter := h.filter
  short := h.short
  ring few := by
    rw [List.length_append, List.length_singleton] at few
    have before := h.ring (by omega)
    have number : s.seq.toNat = r.log.length := before.seq
    have next : (s.seq + 1).toNat = s.seq.toNat + 1 := by
      rw [UInt32.toNat_add, UInt32.toNat_one, Nat.mod_eq_of_lt (by omega)]
    have now := before.put e
    simp only [Recorder.put, ← next, ← UInt32.toNat_mod] at now
    exact now

theorem step (h : Records s r) (op : TraceOp) : Records (s.step op) (r.step op) := by
  cases op with
  | start filter =>
    refine ⟨rfl, rfl, ?_, fun _ => Recorder.holds_nil _⟩
    exact List.length_take_le _ _
  | pause pause => exact ⟨rfl, h.filter, h.short, h.ring⟩
  | event now core e =>
    rw [Trace.step, schedEvent_eq h.short, Recording.step, h.on, h.filter]
    split
    next => exact h.put _
    next => exact h

theorem run (h : Records s r) (ops : List TraceOp) :
    Records (Run.exec Trace.step s ops) (Run.exec Recording.step r ops) := by
  induction ops generalizing s r with
  | nil => exact h
  | cons op ops ih => exact ih (h.step op)

end Records

/-! ### The window -/

theorem first_toNat (s : Trace) :
    (schedTraceInfo s).first.toNat = s.seq.toNat - traceEvents.toNat := by
  simp only [schedTraceInfo]
  split
  next more => exact UInt32.toNat_sub_of_le _ _ (UInt32.le_of_lt more)
  next few =>
    rw [gt_iff_lt, UInt32.lt_iff_toNat_lt] at few
    rw [UInt32.toNat_zero]
    omega

/-- The test of `sched_trace_get` is for the window that `sched_trace_info` shows. -/
theorem schedTraceGet_eq (s : Trace) (seq : UInt32) :
    schedTraceGet s seq =
      if (schedTraceInfo s).first ≤ seq ∧ seq < (schedTraceInfo s).endSeq then
        some (s.ring (seq % traceEvents).toNat)
      else none := by
  have window : (seq < s.seq && s.seq - seq ≤ traceEvents) = true ↔
      (schedTraceInfo s).first ≤ seq ∧ seq < (schedTraceInfo s).endSeq := by
    rw [Bool.and_eq_true, decide_eq_true_eq, decide_eq_true_eq, and_comm]
    refine and_congr_left fun before => ?_
    have before : seq < s.seq := before
    have age : (s.seq - seq).toNat = s.seq.toNat - seq.toNat :=
      UInt32.toNat_sub_of_le _ _ (UInt32.le_of_lt before)
    rw [UInt32.le_iff_toNat_le, UInt32.le_iff_toNat_le, first_toNat, age]
    rw [UInt32.lt_iff_toNat_lt] at before
    omega
  exact if_congr window rfl rfl

/-- The trace calls tell the recording: `sched_trace_get` succeeds in the window that
`sched_trace_info` shows, which holds the last events since the last start, each under its number. -/
theorem trace_reads_recording (ops : List TraceOp)
    (few : (Run.exec Recording.step .boot ops).log.length < 2 ^ 32) (seq : UInt32) :
    let s := Run.exec Trace.step .boot ops
    let log := (Run.exec Recording.step .boot ops).log
    let info := schedTraceInfo s
    ((schedTraceGet s seq).isSome = true ↔ info.first ≤ seq ∧ seq < info.endSeq) ∧
      info.endSeq.toNat = log.length ∧
      info.endSeq.toNat - info.first.toNat = min traceEvents.toNat log.length ∧
      ∀ e, schedTraceGet s seq = some e → log[seq.toNat]? = some e := by
  have records := Records.boot.run ops
  generalize Run.exec Trace.step .boot ops = s at records ⊢
  generalize Run.exec Recording.step .boot ops = r at few records ⊢
  have ring := records.ring few
  have number : s.seq.toNat = r.log.length := ring.seq
  dsimp only
  refine ⟨?_, number, ?_, fun e got => ?_⟩
  · rw [schedTraceGet_eq]
    split
    next inside => exact iff_of_true rfl inside
    next outside => exact iff_of_false Bool.false_ne_true outside
  · rw [first_toNat]
    simp only [schedTraceInfo]
    omega
  · rw [schedTraceGet_eq] at got
    split at got
    next inside =>
      rw [UInt32.le_iff_toNat_le, UInt32.lt_iff_toNat_lt, first_toNat] at inside
      have kept := ring.read inside.1 inside.2
      rw [← Option.some.inj got, UInt32.toNat_mod]
      exact kept
    next => cases got

/-- Two events that the filter keeps, one that it does not, and a start before them. -/
theorem trace_reads_recording_piWorkers :
    let pi : Traced := ⟨7, ⟨[0x70, 0x69, 0x30], by decide⟩⟩
    let idle : Traced := ⟨1, ⟨[0x69], by decide⟩⟩
    let ops : List TraceOp :=
      [.start none, .event 5 0 (.wake idle), .start (some ⟨[0x70, 0x69], by decide⟩),
        .event 6 0 (.wake idle), .event 7 1 (.unblock pi), .event 8 1 (.switch (some (idle, 4)) pi)]
    (Run.exec Recording.step .boot ops).log.length < 2 ^ 32 ∧
      (schedTraceInfo (Run.exec Trace.step .boot ops)).endSeq.toNat = 2 := by
  refine ⟨by decide, ?_⟩
  exact (trace_reads_recording _ (by decide) 0).2.1

end PicoOS.Kernel
