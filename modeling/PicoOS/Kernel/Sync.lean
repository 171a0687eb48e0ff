import PicoOS.Kernel.Sched

/-!
# Synchronisation primitives

The parts of `sync.c` that run under a primitive's own lock: waiter lists, the
conditions of the wait loops, and what each call does to its primitive.
-/
namespace PicoOS.Kernel

variable (k : KernelState)

/-! ### Waiter lists -/

/-- `waiter_enqueue`. -/
def waiterEnqueue (w : WaitList) (t : Slot) : Option KernelState :=
  let k := k.setNext t none
  match k.waiters w with
  | none => some (k.setWaiters w (some t))
  | some head => (Chain.tail k.next maxThreads head).map fun cur => k.setNext cur (some t)

/-- `waiter_dequeue`. -/
def waiterDequeue (w : WaitList) : KernelState × Option Slot :=
  match k.waiters w with
  | none => (k, none)
  | some t => ((k.setWaiters w (k.next t)).setNext t none, some t)

/-! ### The pool of event waiters -/

def setPoolEntry (i : Fin maxEventWaiters) (v : EventWaiter) : KernelState :=
  { k with eventWaiterPool := Function.update k.eventWaiterPool i v }

/-- `event_waiter_alloc`, whose result no caller reads: a full pool stores nothing. -/
def eventWaiterAlloc (t : Slot) (mask : UInt32) (waitForAll : Bool) : KernelState :=
  match (List.finRange maxEventWaiters).find? fun i => (k.eventWaiterPool i).thread.isNone with
  | none => k
  | some i => setPoolEntry k i { thread := some t, mask := mask, waitForAll := waitForAll }

/-- `event_waiter_free`. -/
def eventWaiterFree (t : Slot) : KernelState :=
  match (List.finRange maxEventWaiters).find? fun i => (k.eventWaiterPool i).thread = some t with
  | none => k
  | some i => setPoolEntry k i { k.eventWaiterPool i with thread := none }

/-- The wait condition of event flags. -/
def flagsSatisfied (flags mask : UInt32) (waitForAll : Bool) : Bool :=
  if waitForAll then flags &&& mask == mask else flags &&& mask != 0

/-- Whether the waiter `t` of `e` is to be woken: a thread without a pool entry has mask
0 and is not. -/
def waiterSatisfied (e : Addr) (t : Slot) : Bool :=
  match (List.finRange maxEventWaiters).find? fun i => (k.eventWaiterPool i).thread = some t with
  | none => flagsSatisfied (k.eventFlags e) 0 false
  | some i =>
    flagsSatisfied (k.eventFlags e) (k.eventWaiterPool i).mask (k.eventWaiterPool i).waitForAll

/-- `*prev_ptr = next; cur->next = NULL` in `event_flags_set`. -/
def unlinkWaiter (e : Addr) (prev : Option Slot) (cur : Slot) : KernelState :=
  let k' :=
    match prev with
    | none => k.setWaiters (.event e) (k.next cur)
    | some p => k.setNext p (k.next cur)
  k'.setNext cur none

/-! ### Message queues -/

/-- Store a message at the tail of the ring. -/
def mqueuePut (q : Mqueue) (msg : List UInt8) : Mqueue :=
  { q with
    buf := Function.update q.buf q.tail (msg.take q.msgSize)
    tail := (q.tail + 1) % mqMaxMsg
    count := q.count + 1 }

/-- Take the message at the head of the ring. -/
def mqueueGet (q : Mqueue) : Mqueue × List UInt8 :=
  ({ q with head := (q.head + 1) % mqMaxMsg, count := q.count - 1 }, q.buf q.head)

def setQueue (a : Addr) (q : Mqueue) : KernelState :=
  { k with queues := Function.update k.queues a q }

def setMutex (a : Addr) (m : Kmutex) : KernelState :=
  { k with mutexes := Function.update k.mutexes a m }

def setSemaphore (a : Addr) (count : Int32) : KernelState :=
  { k with semaphores := Function.update k.semaphores a count }

def setFlags (a : Addr) (flags : UInt32) : KernelState :=
  { k with eventFlags := Function.update k.eventFlags a flags }

/-! ### The calls -/

/-- What a call does under its lock: it returns, or goes on to wake waiters. -/
structure Section where
  k : KernelState
  ret : Ret
  wakes : Option WaitList

/-- The condition of a wait loop and what a call that finds it true does; `none` to
block. -/
def waitTake (self : Slot) : WaitOp → Option Section
  | .kmutexLock m =>
    if (k.mutexes m).ownerTid = noOwner then
      some ⟨setMutex k m { ownerTid := (k.tcb self).tid, count := 1 }, .none, none⟩
    else
      none
  | .ksemaphoreWait s =>
    if 0 < k.semaphores s then
      some ⟨setSemaphore k s (k.semaphores s - 1), .none, none⟩
    else
      none
  | .eventFlagsWait e mask waitForAll =>
    if flagsSatisfied (k.eventFlags e) mask waitForAll then
      some ⟨k, .word (k.eventFlags e), none⟩
    else
      none
  | .mqueueSend q msg =>
    if (k.queues q).count < mqMaxMsg then
      some ⟨setQueue k q (mqueuePut (k.queues q) msg), .none, some (.recv q)⟩
    else
      none
  | .mqueueRecv q =>
    if 0 < (k.queues q).count then
      some ⟨setQueue k q (mqueueGet (k.queues q)).1, .msg (mqueueGet (k.queues q)).2, some (.send q)⟩
    else
      none

/-- The caller joins the waiter list, event waiters with their pool entry. -/
def waitEnqueue (self : Slot) (op : WaitOp) : Option KernelState :=
  let k :=
    match op with
    | .eventFlagsWait _ mask waitForAll => eventWaiterAlloc k self mask waitForAll
    | _ => k
  waiterEnqueue k op.list self

/-- The calls that do not block, up to the wake-ups. -/
def postTake : PostOp → Section
  | .kmutexUnlock m =>
    ⟨setMutex k m { ownerTid := noOwner, count := 0 }, .none, some (.mutex m)⟩
  | .ksemaphoreSignal s => ⟨setSemaphore k s (k.semaphores s + 1), .none, some (.semaphore s)⟩
  | .eventFlagsSet e mask => ⟨setFlags k e (k.eventFlags e ||| mask), .none, some (.event e)⟩
  | .eventFlagsClear e mask => ⟨setFlags k e (k.eventFlags e &&& ~~~mask), .none, none⟩
  | .mqueueTrySend q msg =>
    if mqMaxMsg ≤ (k.queues q).count then
      ⟨k, .bool false, none⟩
    else
      ⟨setQueue k q (mqueuePut (k.queues q) msg), .bool true, some (.recv q)⟩
  | .mqueueTryRecv q =>
    if (k.queues q).count = 0 then
      ⟨k, .bool false, none⟩
    else
      ⟨setQueue k q (mqueueGet (k.queues q)).1, .msg (mqueueGet (k.queues q)).2, some (.send q)⟩

end PicoOS.Kernel
