import PicoOS.Kernel.Machine

/-!
# Starting the kernel

`task_init`, the thread creation that `main` does before any core schedules, and
`sched_start` on both cores: concrete machines to run from.
-/
namespace PicoOS.Kernel

/-- The statics after `task_init`, with every primitive as its `init` call leaves it. -/
def taskInit : KernelState where
  tcb _ := .zero
  tcbUsed _ := false
  pcb _ := .zero
  pcbUsed _ := false
  nextTid := 1
  currentTcb _ := none
  readyQueues _ := none
  sliceRemaining _ := timeSliceMs
  tickCount := 0
  waiters _ := none
  mutexes _ := { ownerTid := noOwner, count := 0 }
  semaphores _ := 0
  eventFlags _ := 0
  queues _ := { buf := fun _ => [], msgSize := mqMsgSize, head := 0, tail := 0, count := 0 }
  eventWaiterPool _ := { thread := none, mask := 0, waitForAll := false }

variable (k : KernelState)

/-- `task_create_process` without interruption. -/
def taskCreateProcess (pid : UInt32) : KernelState :=
  match findFreeProc k pid with
  | none => k
  | some p => fillProc (setPcbUsed k p true) p pid

/-- `task_create_thread` without interruption. -/
def taskCreateThread (p : ProcSlot) (priority : UInt8) : KernelState :=
  match findFreeSlot k with
  | none => k
  | some t =>
    let k := initThread (setUsed k t true) t ⟨some p, priority, true⟩
    let k :=
      if (k.pcb p).threadCount < maxThreads then linkThread k t p (k.pcb p).threadCount else k
    (schedAddThreadRaw k t).getD k

/-- The first thread of the ready queues that meets `p`. -/
def firstReady (p : Slot → Bool) : Option Slot :=
  (List.finRange numPriorities).findSome? fun prio =>
    (Chain.first k.next p maxThreads (k.readyQueues prio)).join

/-- `sched_start` and `sched_start_core1`: the first thread with a matching affinity; core 1
starts when core 0 is already scheduling, and asks for a READY one. -/
def schedStart (core : Core) : KernelState :=
  let fits := fun t =>
    (core = 0 || k.state t = .ready) &&
      ((k.tcb t).affinity = none || (k.tcb t).affinity = some core)
  match firstReady k fits with
  | none => k
  | some t => { k.setState t .running with currentTcb := Function.update k.currentTcb core (some t) }

/-- Both cores run the threads they have started. -/
def Machine.boot : Machine :=
  let k := schedStart (schedStart k 0) 1
  { k := k
    cpu := fun c =>
      match k.currentTcb c with
      | none => .halted
      | some t => .thread ⟨t, .user, .none⟩
    pendSv := fun _ => false
    now := 0 }

end PicoOS.Kernel
