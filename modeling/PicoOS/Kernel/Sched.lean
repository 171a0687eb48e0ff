import PicoOS.Lib.Chain
import PicoOS.Kernel.State

/-!
# The scheduler

The sections of `sched.c` that run under `sched_lock` with interrupts off. A
result of `none` is a walk over a list that never ends: the core is stuck
inside the section. `sched_next_thread` comes in two parts, because a reaped
thread is freed between them.
-/
namespace PicoOS.Kernel

variable (k : KernelState)

/-- `sched_add_thread_raw`. -/
def schedAddThreadRaw (t : Slot) : Option KernelState :=
  let k := k.setNext t none
  match k.readyQueues (k.prio t) with
  | none => some (k.setReady (k.prio t) (some t))
  | some head => (Chain.tail k.next maxThreads head).map fun cur => k.setNext cur (some t)

/-- `sched_remove_thread_raw`. -/
def schedRemoveThreadRaw (t : Slot) : Option KernelState :=
  let prio := k.prio t
  (Chain.seek k.next t maxThreads none (k.readyQueues prio)).map fun found =>
    match found with
    | none => k
    | some none => (k.setReady prio (k.next t)).setNext t none
    | some (some prev) => (k.setNext prev (k.next t)).setNext t none

/-- `sched_block`. -/
def schedBlock (t : Slot) : Option KernelState :=
  schedRemoveThreadRaw (k.setState t .blocked) t

/-- `sched_unblock`: false for a thread that was killed while it waited, which the
caller then frees. -/
def schedUnblock (t : Slot) : Option (KernelState × Bool) :=
  if k.state t = .zombie then
    some (k, false)
  else
    (schedAddThreadRaw (k.setState t .ready) t).map fun k => (k, true)

/-- `sched_kill` under the lock. `core` is the core number read before it. -/
def schedKill (core : Core) (t : Slot) : Option (KernelState × Bool) :=
  if k.currentTcb core = some t then
    some (k.setState t .zombie, false)
  else if k.currentTcb core.other = some t then
    some (k.setTcb t { k.tcb t with killPending := true }, false)
  else if k.state t = .blocked then
    some (k.setState t .zombie, false)
  else if k.state t ≠ .zombie then
    (schedRemoveThreadRaw k t).map fun k => (k.setState t .zombie, true)
  else
    some (k, false)

/-- The section of `sched_sleep`. -/
def schedSleep (t : Slot) : Option KernelState :=
  schedRemoveThreadRaw (k.setState t .sleeping) t

/-! ### sched_next_thread -/

/-- The outgoing thread: a pending kill makes it a zombie, and a running one is ready
again. True when it is to be reaped now; one that has just blocked is left to
`sched_unblock`. -/
def schedOutgoing (cur : Option Slot) : KernelState × Bool :=
  match cur with
  | none => (k, false)
  | some t =>
    let v := k.tcb t
    let deferred := v.killPending && v.state = .blocked
    let v := if v.killPending then { v with killPending := false, state := .zombie } else v
    let v := if v.state = .running then { v with state := .ready } else v
    (k.setTcb t v, v.state = .zombie && !deferred)

/-- Round-robin: the outgoing thread goes from the head of its queue to the tail. -/
def schedRotate (p : Prio) (cur : Option Slot) : Option KernelState :=
  match cur with
  | none => some k
  | some head =>
    if k.readyQueues p = some head ∧ k.state head = .ready then
      match k.next head with
      | none => some k
      | some second =>
        (Chain.tail k.next maxThreads second).map fun tail =>
          ((k.setReady p (some second)).setNext tail (some head)).setNext head none
    else
      some k

/-- A thread that `core` may take: READY, not current on the other core, and of a
matching affinity. -/
def schedEligible (core : Core) (t : Slot) : Bool :=
  k.state t = .ready && k.currentTcb core.other ≠ some t &&
    ((k.tcb t).affinity = none || (k.tcb t).affinity = some core)

/-- The scan of the priorities: the first eligible thread of the first queue that has
one. `cur` is `none` after a reap. -/
def schedSelect (core : Core) (cur : Option Slot) :
    List Prio → KernelState → Option (KernelState × Option Slot)
  | [], k => some (k, none)
  | p :: ps, k =>
    (schedRotate k p cur).bind fun k =>
      (Chain.first k.next (schedEligible k core) maxThreads (k.readyQueues p)).bind fun selected =>
        match selected with
        | some t => some (k, some t)
        | none => schedSelect core cur ps k

/-- Record the selected thread. With none, `sched_next_thread` returns the current one. -/
def schedSwitch (core : Core) (selected : Option Slot) : KernelState × Option Slot :=
  match selected with
  | none => (k, k.currentTcb core)
  | some t =>
    ({ k.setState t .running with
        sliceRemaining := Function.update k.sliceRemaining core timeSliceMs
        currentTcb := Function.update k.currentTcb core (some t) }, some t)

/-- The second part of `sched_next_thread`, from the selection on. -/
def schedPick (core : Core) (cur : Option Slot) : Option (KernelState × Option Slot) :=
  (schedSelect core cur (List.finRange numPriorities) k).map fun (k, selected) =>
    schedSwitch k core selected

/-! ### isr_systick -/

/-- The wake loop over the TCB pool. -/
def wakeSleepers (now : UInt64) : List Slot → KernelState → Option KernelState
  | [], k => some k
  | t :: ts, k =>
    if k.tcbUsed t ∧ k.state t = .sleeping ∧ (k.tcb t).wakeTimeUs ≤ now then
      (schedAddThreadRaw (k.setState t .ready) t).bind (wakeSleepers now ts)
    else
      wakeSleepers now ts k

/-- CPU time and time slice; true when the slice is over. -/
def sliceTick (core : Core) : KernelState × Bool :=
  let k :=
    match k.currentTcb core with
    | none => k
    | some t => k.setTcb t { k.tcb t with cpuTimeUs := (k.tcb t).cpuTimeUs + 1000 }
  let left := k.sliceRemaining core - 1
  let expired := left = 0
  ({ k with sliceRemaining :=
      Function.update k.sliceRemaining core (if expired then timeSliceMs else left) }, expired)

/-- `isr_systick`; true when it pends a PendSV. Only core 0 counts and wakes. -/
def isrSystick (core : Core) (now : UInt64) : Option (KernelState × Bool) :=
  let (k, expired) := sliceTick k core
  if core ≠ 0 then
    some (k, expired)
  else
    (wakeSleepers now (List.finRange maxThreads) { k with tickCount := k.tickCount + 1 }).map
      fun k => (k, expired)

end PicoOS.Kernel
