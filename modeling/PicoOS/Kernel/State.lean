import Mathlib

/-!
# Kernel state

The statics of `task.c`, `sched.c` and `sync.c`: TCB and PCB pools, the current
thread of each core, ready queues, and the sync primitives with their waiter
lists. A primitive is named by its address. Ready queues and waiter lists are
threaded through the `next` field of the TCBs, as in the source.
-/
namespace PicoOS.Kernel

abbrev maxThreads : Nat := 16
abbrev maxProcesses : Nat := 8
abbrev numPriorities : Nat := 8
abbrev maxEventWaiters : Nat := maxThreads
abbrev mqMaxMsg : Nat := 16
abbrev mqMsgSize : Nat := 64
abbrev primPoolSize : Nat := 4

def timeSliceMs : Nat := 10
def pidKernelMin : UInt32 := 1
def pidKernelMax : UInt32 := 9

/-- `PID_IS_KERNEL`. -/
def pidIsKernel (pid : UInt32) : Bool := pidKernelMin ≤ pid && pid ≤ pidKernelMax

/-- A `tcb_t *` into `tcb_pool`. -/
abbrev Slot := Fin maxThreads
/-- A `pcb_t *` into `pcb_pool`. -/
abbrev ProcSlot := Fin maxProcesses
abbrev Core := Fin 2
abbrev Prio := Fin numPriorities
/-- The address of a sync primitive. -/
abbrev Addr := UInt32
/-- One of the hardware spinlocks of `prim_pool`. -/
abbrev Stripe := Fin primPoolSize

instance neZeroCores : NeZero 2 := ⟨by decide⟩
instance neZeroThreads : NeZero maxThreads := ⟨by decide⟩
instance neZeroProcesses : NeZero maxProcesses := ⟨by decide⟩

/-- `core ^ 1u`. -/
def Core.other (c : Core) : Core := 1 - c

/-- `prim_pool_assign`: the stripe comes from the address of the object. -/
def primPoolAssign (a : Addr) : Stripe := Fin.ofNat primPoolSize (a.toNat >>> 4)

inductive ThreadState where
  | new | ready | running | blocked | sleeping | zombie
  deriving DecidableEq, Repr

/-! ### Where a thread is in kernel code

One constructor for each point of a kernel function at which another core or an
interrupt can act: between two steps taken with interrupts enabled, and, with a
primitive's lock held, before each section that takes `sched_lock`. -/

/-- The blocking calls of `sync.c`. -/
inductive WaitOp where
  | kmutexLock (m : Addr)
  | ksemaphoreWait (s : Addr)
  | eventFlagsWait (e : Addr) (mask : UInt32) (waitForAll : Bool)
  | mqueueSend (q : Addr) (msg : List UInt8)
  | mqueueRecv (q : Addr)
  deriving DecidableEq

/-- The calls of `sync.c` that do not block. -/
inductive PostOp where
  | kmutexUnlock (m : Addr)
  | ksemaphoreSignal (s : Addr)
  | eventFlagsSet (e : Addr) (mask : UInt32)
  | eventFlagsClear (e : Addr) (mask : UInt32)
  | mqueueTrySend (q : Addr) (msg : List UInt8)
  | mqueueTryRecv (q : Addr)
  deriving DecidableEq

/-- The `waiters` field of a primitive. -/
inductive WaitList where
  | mutex (m : Addr)
  | semaphore (s : Addr)
  | event (e : Addr)
  | send (q : Addr)
  | recv (q : Addr)
  deriving DecidableEq

def WaitList.addr : WaitList → Addr
  | mutex a | semaphore a | event a | send a | recv a => a

/-- The list a blocking call waits on. -/
def WaitOp.list : WaitOp → WaitList
  | kmutexLock m => .mutex m
  | ksemaphoreWait s => .semaphore s
  | eventFlagsWait e _ _ => .event e
  | mqueueSend q _ => .send q
  | mqueueRecv q => .recv q

def PostOp.addr : PostOp → Addr
  | kmutexUnlock a | ksemaphoreSignal a | eventFlagsSet a _ | eventFlagsClear a _
  | mqueueTrySend a _ | mqueueTryRecv a => a

/-- The loop that a `sched_unblock` returns to: `wake_one`, or the scan of
`event_flags_set` with its `prev_ptr` and `next`. -/
inductive WakeLoop where
  | one (w : WaitList)
  | all (e : Addr) (prev next : Option Slot)
  deriving DecidableEq

def WakeLoop.addr : WakeLoop → Addr
  | one w => w.addr
  | all e _ _ => e

/-- Where `task_free_thread` has got to. `p` is `proc`. -/
inductive FreePc where
  | find
  | scan (p : ProcSlot) (i : Nat)
  | shift (p : ProcSlot) (j : Nat)
  | clear (p : Option ProcSlot)
  | wipe (p : Option ProcSlot)
  | drop (p : ProcSlot)
  | wipeProc (p : ProcSlot)
  deriving DecidableEq

/-- The caller of a `task_free_thread`: `task_kill_thread`, with the rest of the
`snapshot` of `task_kill_process` and the yield of a self-kill still to do, or
`sched_unblock`. -/
inductive FreeCaller where
  | killer (rest : List (Option Slot)) (self : Bool)
  | waker (loop : WakeLoop)
  deriving DecidableEq

/-- What is done with the pointer that a `CURRENT_TCB` yields. `exit` is
`thread_exit` with no code and `SYS_EXIT` with one. -/
inductive Use where
  | exitTest (code : Option UInt32)
  | exitMark (code : Option UInt32)
  | exitTestProc (code : UInt32)
  | exitPid (code : UInt32)
  | getpidTest
  | getpid
  | gettidTest
  | gettid
  | sleepTest (ms : UInt32)
  | sleepWake (ms : UInt32)
  | setAffinity (affinity : Option Core)
  | killSelf (t : Slot)
  deriving DecidableEq

/-- The arguments of `task_create_thread` that the scheduler reads, and whether
`kmalloc` finds room for the stack. -/
structure CreateArgs where
  proc : Option ProcSlot
  priority : UInt8
  heap : Bool
  deriving DecidableEq

inductive Pc where
  /-- Outside the kernel. -/
  | user
  /-- At the head of a wait loop; `again` after a wake-up. -/
  | test (op : WaitOp) (again : Bool)
  /-- Enqueued, before `sched_block`; holds the lock. -/
  | blocking (op : WaitOp)
  /-- Lock released, before `sched_yield`, and back from it. -/
  | yielding (op : WaitOp)
  | yielded (op : WaitOp)
  | post (op : PostOp)
  /-- `wake_one` before a `waiter_dequeue`; holds the lock. -/
  | waking (w : WaitList)
  /-- `event_flags_set` at the loop head; holds the lock. -/
  | scanning (e : Addr) (prev cur : Option Slot)
  /-- Before `sched_unblock(t)`; holds the lock. -/
  | unblocking (t : Slot) (loop : WakeLoop)
  | freeing (t : Slot) (stage : FreePc) (caller : FreeCaller)
  /-- `CURRENT_TCB`: `get_core_num`, then the index, then the field access. -/
  | readCore (u : Use)
  | index (core : Core) (u : Use)
  | access (p : Slot) (u : Use)
  | exitLoop
  | exitProc (pid : UInt32) (code : UInt32)
  | yieldReturn
  | sleepLock
  | sleepYield
  | slept
  | killFind (tid : UInt32)
  | killCore (t : Slot) (rest : List (Option Slot)) (self : Bool)
  | killLock (t : Slot) (core : Core) (rest : List (Option Slot)) (self : Bool)
  | killNext (rest : List (Option Slot)) (self : Bool)
  | killProc (p : ProcSlot)
  | snapshot (p : ProcSlot) (count : Nat) (taken : List (Option Slot))
  | createFind (a : CreateArgs)
  | createClaim (t : Slot) (a : CreateArgs)
  | createAlloc (t : Slot) (a : CreateArgs)
  | createInit (t : Slot) (a : CreateArgs)
  | createCount (t : Slot) (p : ProcSlot)
  | createLink (t : Slot) (p : ProcSlot) (n : Nat)
  | createAdd (t : Slot)
  | procFind (pid : UInt32)
  | procClaim (p : ProcSlot) (pid : UInt32)
  | procFill (p : ProcSlot) (pid : UInt32)
  deriving DecidableEq

/-- What the last kernel call returned. -/
inductive Ret where
  | none
  | word (v : UInt32)
  | bool (b : Bool)
  | msg (bytes : List UInt8)
  | thread (t : Option Slot)
  | proc (p : Option ProcSlot)
  deriving DecidableEq

/-- A thread's context: the thread whose stack it runs on, and where it is. -/
structure Ctx where
  self : Slot
  pc : Pc
  ret : Ret
  deriving DecidableEq

/-! ### Control blocks and primitives -/

/-- `tcb_t`. `affinity` is `none` for `THREAD_AFFINITY_ANY`; `saved` is the context
that `saved_sp` points to. -/
structure Tcb where
  tid : UInt32
  pid : UInt32
  saved : Option Ctx
  priority : UInt8
  affinity : Option Core
  state : ThreadState
  killPending : Bool
  wakeTimeUs : UInt64
  cpuTimeUs : UInt64
  next : Option Slot

/-- A TCB after `memset(t, 0, sizeof(tcb_t))`. -/
def Tcb.zero : Tcb where
  tid := 0
  pid := 0
  saved := none
  priority := 0
  affinity := some 0
  state := .new
  killPending := false
  wakeTimeUs := 0
  cpuTimeUs := 0
  next := none

/-- `pcb_t`. -/
structure Pcb where
  pid : UInt32
  threads : Nat → Option Slot
  threadCount : Nat
  exitCode : UInt32
  alive : Bool

/-- A PCB after its `memset`. -/
def Pcb.zero : Pcb where
  pid := 0
  threads := fun _ => none
  threadCount := 0
  exitCode := 0
  alive := false

/-- `kmutex_t`. The owner is the bit pattern of `owner_tid`. -/
structure Kmutex where
  ownerTid : UInt32
  count : UInt32
  deriving DecidableEq

/-- `owner_tid` of a free mutex, -1. -/
def noOwner : UInt32 := 0xFFFFFFFF

/-- `mqueue_t`; a slot of `buf` is the `msg_size` bytes last copied to it. -/
structure Mqueue where
  buf : Nat → List UInt8
  msgSize : Nat
  head : Nat
  tail : Nat
  count : Nat

/-- `event_waiter_t`. -/
structure EventWaiter where
  thread : Option Slot
  mask : UInt32
  waitForAll : Bool

structure KernelState where
  tcb : Slot → Tcb
  tcbUsed : Slot → Bool
  pcb : ProcSlot → Pcb
  pcbUsed : ProcSlot → Bool
  nextTid : UInt32
  currentTcb : Core → Option Slot
  readyQueues : Prio → Option Slot
  sliceRemaining : Core → Nat
  tickCount : UInt32
  waiters : WaitList → Option Slot
  mutexes : Addr → Kmutex
  semaphores : Addr → Int32
  eventFlags : Addr → UInt32
  queues : Addr → Mqueue
  eventWaiterPool : Fin maxEventWaiters → EventWaiter

namespace KernelState

/-- The thread with the address of `t` in the queues. -/
def next (k : KernelState) (t : Slot) : Option Slot := (k.tcb t).next

def state (k : KernelState) (t : Slot) : ThreadState := (k.tcb t).state

def setTcb (k : KernelState) (t : Slot) (v : Tcb) : KernelState :=
  { k with tcb := Function.update k.tcb t v }

def setNext (k : KernelState) (t : Slot) (n : Option Slot) : KernelState :=
  k.setTcb t { k.tcb t with next := n }

def setState (k : KernelState) (t : Slot) (s : ThreadState) : KernelState :=
  k.setTcb t { k.tcb t with state := s }

def setReady (k : KernelState) (p : Prio) (h : Option Slot) : KernelState :=
  { k with readyQueues := Function.update k.readyQueues p h }

def setWaiters (k : KernelState) (w : WaitList) (h : Option Slot) : KernelState :=
  { k with waiters := Function.update k.waiters w h }

def setPcb (k : KernelState) (p : ProcSlot) (v : Pcb) : KernelState :=
  { k with pcb := Function.update k.pcb p v }

/-- The ready queue of a thread: its priority, clamped to the last one. -/
def prio (k : KernelState) (t : Slot) : Prio :=
  let p := (k.tcb t).priority.toNat
  if h : p < numPriorities then ⟨p, h⟩ else Fin.last 7

end KernelState

end PicoOS.Kernel
