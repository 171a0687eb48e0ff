import PicoOS.Lib.Run
import PicoOS.Kernel.Sync
import PicoOS.Kernel.Task

/-!
# The two cores

A core runs a thread, or is inside `isr_pendsv`. A thread takes one step at a
time; a SysTick or a pending PendSV can come between any two steps at which
interrupts are on. A section under `sched_lock` is one step, and so is the
stretch under a primitive's lock up to the next such section: interrupts are
off in both and the lock keeps the other core out. The locks themselves are not
stored: one is held exactly while a core is at a point inside its section.
-/
namespace PicoOS.Kernel

/-! ### Locks and interrupts -/

/-- The stripe a thread holds at a point, with interrupts off. -/
def Pc.stripe : Pc → Option Stripe
  | .blocking op => some (primPoolAssign op.list.addr)
  | .waking w => some (primPoolAssign w.addr)
  | .scanning e _ _ => some (primPoolAssign e)
  | .unblocking _ loop => some (primPoolAssign loop.addr)
  | .freeing _ _ (.waker loop) => some (primPoolAssign loop.addr)
  | _ => none

/-- What a core is doing. -/
inductive Cpu where
  | thread (x : Ctx)
  /-- In `isr_pendsv`, the outgoing context saved, before `sched_next_thread`. -/
  | switching
  /-- In `sched_next_thread` with `sched_lock` held, inside `task_free_thread`. -/
  | reaping (t : Slot) (stage : FreePc)
  /-- In `sched_next_thread` with `sched_lock` held, the zombie freed. -/
  | reaped
  /-- Back in `isr_pendsv` with the pointer that `sched_next_thread` returned. -/
  | resuming (t : Slot)
  /-- Resumed through a stack pointer that no thread saved. -/
  | halted
  deriving DecidableEq

structure Machine where
  k : KernelState
  cpu : Core → Cpu
  pendSv : Core → Bool
  now : UInt64

namespace Machine

/-- The stripe that a core holds. -/
def heldStripe (m : Machine) (c : Core) : Option Stripe :=
  match m.cpu c with
  | .thread x => x.pc.stripe
  | _ => none

/-- Whether a core can take a stripe: the other one does not hold it. -/
def stripeFree (m : Machine) (c : Core) (a : Addr) : Bool :=
  m.heldStripe c.other ≠ some (primPoolAssign a)

/-- Whether a core holds `sched_lock` between two steps. -/
def holdsSched (m : Machine) (c : Core) : Bool :=
  match m.cpu c with
  | .reaping _ _ | .reaped => true
  | _ => false

/-- Whether a core can enter a section under `sched_lock`. -/
def schedFree (m : Machine) (c : Core) : Bool := !m.holdsSched c.other

def setCpu (m : Machine) (c : Core) (v : Cpu) : Machine :=
  { m with cpu := Function.update m.cpu c v }

end Machine

/-! ### Steps of a thread -/

/-- What a step of a thread does: the kernel state, where the thread goes, what it
has got, and whether it pends a PendSV. -/
structure Act where
  k : KernelState
  pc : Pc
  ret : Ret
  yields : Bool

/-- The loop after a wake-up of a live thread: `wake_one` is done. -/
def WakeLoop.woken : WakeLoop → Pc
  | .one _ => .user
  | .all e prev next => .scanning e prev next

/-- The loop after a dead waiter was freed: `wake_one` goes on. -/
def WakeLoop.freed : WakeLoop → Pc
  | .one w => .waking w
  | .all e prev next => .scanning e prev next

def FreeCaller.resume : FreeCaller → Pc
  | .killer rest self => .killNext rest self
  | .waker loop => loop.freed

/-- Where a call goes that has done its part under the lock. -/
def wakePc (k : KernelState) : Option WaitList → Pc
  | none => .user
  | some (.event e) => .scanning e none (k.waiters (.event e))
  | some w => .waking w

section
variable (k : KernelState) (ret : Ret)

/-- The step from the head of a wait loop: take and return, or join the waiters. -/
def testStep (self : Slot) (op : WaitOp) : Option Act :=
  match waitTake k self op with
  | some s => some ⟨s.k, wakePc s.k s.wakes, s.ret, false⟩
  | none => (waitEnqueue k self op).map fun k => ⟨k, .blocking op, ret, false⟩

def postStep (op : PostOp) : Act :=
  let s := postTake k op
  ⟨s.k, wakePc s.k s.wakes, s.ret, false⟩

def wakeStep (w : WaitList) : Act :=
  match waiterDequeue k w with
  | (k, none) => ⟨k, .user, ret, false⟩
  | (k, some t) => ⟨k, .unblocking t (.one w), ret, false⟩

def scanStep (e : Addr) (prev : Option Slot) : Option Slot → Act
  | none => ⟨k, .user, ret, false⟩
  | some cur =>
    if waiterSatisfied k e cur then
      ⟨eventWaiterFree (unlinkWaiter k e prev cur) cur,
        .unblocking cur (.all e prev (k.next cur)), ret, false⟩
    else
      ⟨k, .scanning e (some cur) (k.next cur), ret, false⟩

def unblockStep (t : Slot) (loop : WakeLoop) : Option Act :=
  (schedUnblock k t).map fun (k, live) =>
    ⟨k, if live then loop.woken else .freeing t .find (.waker loop), ret, false⟩

def freeingStep (t : Slot) (stage : FreePc) (caller : FreeCaller) : Act :=
  match freeStep k t stage with
  | (k, some stage) => ⟨k, .freeing t stage caller, ret, false⟩
  | (k, none) => ⟨k, caller.resume, ret, false⟩

/-- The pointer `p` has been loaded from `current_tcb[core]`. A comparison with it is
done here; a field access through NULL is a fault. -/
def indexStep (p : Option Slot) : Use → Option Act
  | .exitTest code =>
    match p, code with
    | some _, _ => some ⟨k, .readCore (.exitMark code), ret, false⟩
    | none, none => some ⟨k, .exitLoop, ret, false⟩
    | none, some code => some ⟨k, .readCore (.exitTestProc code), ret, false⟩
  | .exitTestProc code =>
    match p with
    | some _ => some ⟨k, .readCore (.exitPid code), ret, false⟩
    | none => some ⟨k, .yieldReturn, ret, false⟩
  | .getpidTest =>
    match p with
    | some _ => some ⟨k, .readCore .getpid, ret, false⟩
    | none => some ⟨k, .user, .word 0, false⟩
  | .gettidTest =>
    match p with
    | some _ => some ⟨k, .readCore .gettid, ret, false⟩
    | none => some ⟨k, .user, .word 0, false⟩
  | .sleepTest ms =>
    match p with
    | some _ => some ⟨k, .readCore (.sleepWake ms), ret, false⟩
    | none => some ⟨k, .user, ret, false⟩
  | .killSelf t => some ⟨k, .killCore t [] (p = some t), ret, false⟩
  | u => p.map fun p => ⟨k, .access p u, ret, false⟩

/-- The field access through a loaded pointer. -/
def accessStep (now : UInt64) (p : Slot) : Use → Option Act
  | .exitMark none => some ⟨k.setState p .zombie, .exitLoop, ret, false⟩
  | .exitMark (some code) =>
    some ⟨k.setState p .zombie, .readCore (.exitTestProc code), ret, false⟩
  | .exitPid code => some ⟨k, .exitProc (k.tcb p).pid code, ret, false⟩
  | .getpid => some ⟨k, .user, .word (k.tcb p).pid, false⟩
  | .gettid => some ⟨k, .user, .word (k.tcb p).tid, false⟩
  | .sleepWake ms =>
    some ⟨k.setTcb p { k.tcb p with wakeTimeUs := now + ms.toUInt64 * 1000 }, .sleepLock, ret, false⟩
  | .setAffinity a => some ⟨k.setTcb p { k.tcb p with affinity := a }, .user, ret, false⟩
  | _ => none

/-- `SYS_KILL` up to the self test: -1 for no such thread and for the kernel range. -/
def killFindStep (tid : UInt32) : Act :=
  match taskFindThread k tid with
  | none => ⟨k, .user, .word 0xFFFFFFFF, false⟩
  | some t =>
    if pidIsKernel (k.tcb t).pid then
      ⟨k, .user, .word 0xFFFFFFFF, false⟩
    else
      ⟨k, .readCore (.killSelf t), .word 0, false⟩

def killLockStep (t : Slot) (core : Core) (rest : List (Option Slot)) (yield : Bool) : Option Act :=
  (schedKill k core t).map fun (k, freeNow) =>
    ⟨k, if freeNow then .freeing t .find (.killer rest yield) else .killNext rest yield, ret, false⟩

def killNextStep (yield : Bool) : List (Option Slot) → Act
  | [] => ⟨k, if yield then .yieldReturn else .user, ret, false⟩
  | none :: rest => ⟨k, .killNext rest yield, ret, false⟩
  | some t :: rest => ⟨k, .killCore t rest yield, ret, false⟩

def snapshotStep (p : ProcSlot) (count : Nat) (taken : List (Option Slot)) : Act :=
  if taken.length < count then
    ⟨k, .snapshot p count (taken ++ [(k.pcb p).threads taken.length]), ret, false⟩
  else
    ⟨k, .killNext taken false, ret, false⟩

def createFindStep (a : CreateArgs) : Act :=
  match findFreeSlot k with
  | none => ⟨k, .user, .thread none, false⟩
  | some t => ⟨k, .createClaim t a, ret, false⟩

def createAllocStep (t : Slot) (a : CreateArgs) : Act :=
  if a.heap then
    ⟨k, .createInit t a, ret, false⟩
  else
    ⟨setUsed k t false, .user, .thread none, false⟩

def createInitStep (t : Slot) (a : CreateArgs) : Act :=
  match a.proc with
  | none => ⟨initThread k t a, .createAdd t, ret, false⟩
  | some p => ⟨initThread k t a, .createCount t p, ret, false⟩

def createCountStep (t : Slot) (p : ProcSlot) : Act :=
  if (k.pcb p).threadCount < maxThreads then
    ⟨k, .createLink t p (k.pcb p).threadCount, ret, false⟩
  else
    ⟨k, .createAdd t, ret, false⟩

def procFindStep (pid : UInt32) : Act :=
  match findFreeProc k pid with
  | none => ⟨k, .user, .proc none, false⟩
  | some p => ⟨k, .procClaim p pid, ret, false⟩

end

namespace Machine

/-- The next step of the thread that runs on `core`; `none` while it spins on a lock. With
interrupts off `CURRENT_TCB` is one access, `currentTcb core`. -/
def act (m : Machine) (core : Core) (x : Ctx) : Option Act :=
  let k := m.k
  let ret := x.ret
  match x.pc with
  | .user => none
  | .test op _ =>
    if m.stripeFree core op.list.addr then
      (k.currentTcb core).bind fun cur => testStep k ret cur op
    else none
  | .blocking op =>
    if m.schedFree core then
      (k.currentTcb core).bind fun cur =>
        (schedBlock k cur).map fun k => ⟨k, .yielding op, ret, false⟩
    else none
  | .yielding op => some ⟨k, .yielded op, ret, true⟩
  | .yielded op => some ⟨k, .test op true, ret, false⟩
  | .post op => if m.stripeFree core op.addr then some (postStep k op) else none
  | .waking w => some (wakeStep k ret w)
  | .scanning e prev cur => some (scanStep k ret e prev cur)
  | .unblocking t loop => if m.schedFree core then unblockStep k ret t loop else none
  | .freeing t stage caller => some (freeingStep k ret t stage caller)
  | .readCore u => some ⟨k, .index core u, ret, false⟩
  | .index c u => indexStep k ret (k.currentTcb c) u
  | .access p u => accessStep k ret m.now p u
  | .exitLoop => some ⟨k, .exitLoop, ret, true⟩
  | .exitProc pid code => some ⟨sysExitProc k pid code, .yieldReturn, ret, false⟩
  | .yieldReturn => some ⟨k, .user, ret, true⟩
  | .sleepLock =>
    if m.schedFree core then
      (k.currentTcb core).bind fun cur =>
        (schedSleep k cur).map fun k => ⟨k, .sleepYield, ret, false⟩
    else none
  | .sleepYield => some ⟨k, .slept, ret, true⟩
  | .slept => some ⟨k, .user, ret, false⟩
  | .killFind tid => some (killFindStep k tid)
  | .killCore t rest yield => some ⟨k, .killLock t core rest yield, ret, false⟩
  | .killLock t c rest yield => if m.schedFree core then killLockStep k ret t c rest yield else none
  | .killNext rest yield => some (killNextStep k ret yield rest)
  | .killProc p => some ⟨setAlive k p false, .snapshot p (k.pcb p).threadCount [], ret, false⟩
  | .snapshot p count taken => some (snapshotStep k ret p count taken)
  | .createFind a => some (createFindStep k ret a)
  | .createClaim t a => some ⟨setUsed k t true, .createAlloc t a, ret, false⟩
  | .createAlloc t a => some (createAllocStep k ret t a)
  | .createInit t a => some (createInitStep k ret t a)
  | .createCount t p => some (createCountStep k ret t p)
  | .createLink t p n => some ⟨linkThread k t p n, .createAdd t, ret, false⟩
  | .createAdd t =>
    if m.schedFree core then
      (schedAddThreadRaw k t).map fun k => ⟨k, .user, .thread (some t), false⟩
    else none
  | .procFind pid => some (procFindStep k ret pid)
  | .procClaim p pid => some ⟨setPcbUsed k p true, .procFill p pid, ret, false⟩
  | .procFill p pid => some ⟨fillProc k p pid, .user, .proc (some p), false⟩

/-! ### Kernel calls and interrupts -/

end Machine

/-- The kernel functions a thread can call. -/
inductive Call where
  | wait (op : WaitOp)
  | post (op : PostOp)
  | sleep (ms : UInt32)
  | yield
  | threadExit
  | sysExit (code : UInt32)
  | sysGetpid
  | sysGettid
  | sysKill (tid : UInt32)
  | setAffinity (affinity : Option Core)
  | taskKillThread (t : Slot)
  | taskKillProcess (p : ProcSlot)
  | taskCreateThread (a : CreateArgs)
  | taskCreateProcess (pid : UInt32)

/-- Where a call starts. -/
def Call.entry : Call → Pc
  | wait op => .test op false
  | post op => .post op
  | sleep ms => .readCore (.sleepTest ms)
  | yield => .yieldReturn
  | threadExit => .readCore (.exitTest none)
  | sysExit code => .readCore (.exitTest (some code))
  | sysGetpid => .readCore .getpidTest
  | sysGettid => .readCore .gettidTest
  | sysKill tid => .killFind tid
  | setAffinity a => .readCore (.setAffinity a)
  | taskKillThread t => .killCore t [] false
  | taskKillProcess p => .killProc p
  | taskCreateThread a => .createFind a
  | taskCreateProcess pid => .procFind pid

inductive Event where
  /-- The thread on a core, outside the kernel, makes a call. -/
  | call (c : Core) (call : Call)
  /-- A core takes its next step. -/
  | run (c : Core)
  | sysTick (c : Core)
  | elapse (us : UInt64)

namespace Machine

/-- A thread step's effect on the machine. -/
def commit (m : Machine) (c : Core) (x : Ctx) (a : Act) : Machine :=
  { m with
    k := a.k
    cpu := Function.update m.cpu c (.thread { x with pc := a.pc, ret := a.ret })
    pendSv := if a.yields then Function.update m.pendSv c true else m.pendSv }

/-- The entry of `isr_pendsv`: the context goes where `current_tcb[core]` points. -/
def pendSvEntry (m : Machine) (c : Core) (x : Ctx) : Machine :=
  match m.k.currentTcb c with
  | none => { m.setCpu c .halted with pendSv := Function.update m.pendSv c false }
  | some t =>
    { m.setCpu c .switching with
      k := m.k.setTcb t { m.k.tcb t with saved := some x }
      pendSv := Function.update m.pendSv c false }

/-- The second part of `sched_next_thread` and the return to `isr_pendsv`. -/
def pick (m : Machine) (c : Core) (cur : Option Slot) : Machine :=
  match schedPick m.k c cur with
  | none => m
  | some (k, none) => { m.setCpu c .halted with k := k }
  | some (k, some t) => { m.setCpu c (.resuming t) with k := k }

/-- `sched_next_thread` up to the selection, or up to the free of a reaped thread. -/
def nextThread (m : Machine) (c : Core) : Machine :=
  let cur := m.k.currentTcb c
  match schedOutgoing m.k cur, cur with
  | (k, true), some t =>
    match schedRemoveThreadRaw k t with
    | none => m
    | some k => { m.setCpu c (.reaping t .find) with k := k }
  | (k, _), _ => { m with k := k }.pick c cur

def reapStep (m : Machine) (c : Core) (t : Slot) (stage : FreePc) : Machine :=
  match freeStep m.k t stage with
  | (k, some stage) => { m.setCpu c (.reaping t stage) with k := k }
  | (k, none) => { m.setCpu c .reaped with k := k }

/-- The last part of `isr_pendsv`: store the pointer and load its context. -/
def resume (m : Machine) (c : Core) (t : Slot) : Machine :=
  let k := { m.k with currentTcb := Function.update m.k.currentTcb c (some t) }
  match (m.k.tcb t).saved with
  | none => { m.setCpu c .halted with k := k }
  | some x => { m.setCpu c (.thread x) with k := k }

/-- Whether interrupts are on at a core: a thread runs there and holds no lock. -/
def irqsOn (m : Machine) (c : Core) : Bool :=
  match m.cpu c with
  | .thread x => x.pc.stripe.isNone
  | _ => false

def runStep (m : Machine) (c : Core) : Machine :=
  match m.cpu c with
  | .thread x =>
    if m.pendSv c && m.irqsOn c then
      m.pendSvEntry c x
    else
      match m.act c x with
      | none => m
      | some a => m.commit c x a
  | .switching => if m.schedFree c then m.nextThread c else m
  | .reaping t stage => m.reapStep c t stage
  | .reaped => m.pick c none
  | .resuming t => m.resume c t
  | .halted => m

def callStep (m : Machine) (c : Core) (call : Call) : Machine :=
  match m.cpu c with
  | .thread x =>
    if x.pc = .user ∧ m.pendSv c = false then
      m.setCpu c (.thread { x with pc := call.entry, ret := .none })
    else m
  | _ => m

def tickStep (m : Machine) (c : Core) : Machine :=
  if m.irqsOn c ∧ (c = 0 → m.schedFree c) then
    match isrSystick m.k c m.now with
    | none => m
    | some (k, expired) =>
      { m with
        k := k
        pendSv := if expired then Function.update m.pendSv c true else m.pendSv }
  else m

/-- A step of the machine. An event that cannot happen changes nothing. -/
def step (m : Machine) : Event → Machine
  | .call c call => m.callStep c call
  | .run c => m.runStep c
  | .sysTick c => m.tickStep c
  | .elapse us => { m with now := m.now + us }

/-- The context whose own step `run c` is: none while a PendSV is taken. -/
def executes (m : Machine) (c : Core) : Option Ctx :=
  match m.cpu c with
  | .thread x => if m.pendSv c && m.irqsOn c then none else some x
  | _ => none

end Machine

end PicoOS.Kernel
