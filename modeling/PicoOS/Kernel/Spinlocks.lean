import PicoOS.Lib.Locking
import PicoOS.Kernel.Sections

/-!
# Spinlocks

What each function of the kernel does with the hardware spinlocks: the four
stripes that the primitives share, `event_pool_lock`, `sched_lock` and
`heap_lock`. Conditions are left open, so a program stands for every path of its
function. The locks are taken in this order on every path, through every nested
call, so the two cores never wait for each other.
-/
namespace PicoOS.Kernel

open Locking (Prog)
open Locking.Prog

inductive Lock where
  | stripe (s : Stripe)
  | eventPool
  | sched
  | heap
  deriving DecidableEq

/-- The lock order. -/
def Lock.rank : Lock → Nat
  | stripe _ => 0
  | eventPool => 1
  | sched => 2
  | heap => 3

/-- `prim_pool_assign`: the lock of a primitive. -/
def primLock (a : Addr) : Lock := .stripe (primPoolAssign a)

/-! ### mem.c and sched.c -/

/-- `kmalloc`, which returns at once on size 0. -/
def kmallocLocks : Prog Lock := either skip (block [acquire .heap, release .heap])

/-- `kfree`, which returns at once on NULL. -/
def kfreeLocks : Prog Lock := either skip (block [acquire .heap, release .heap])

def kmemStatsLocks : Prog Lock := block [acquire .heap, release .heap]

/-- `task_free_thread`. -/
def taskFreeThreadLocks : Prog Lock := either skip kfreeLocks

/-- A function whose one section is under `sched_lock`. -/
def schedSection : Prog Lock := block [acquire .sched, release .sched]

def schedAddThreadLocks : Prog Lock := schedSection
def schedRemoveThreadLocks : Prog Lock := schedSection
def schedBlockLocks : Prog Lock := either skip schedSection
def schedKillLocks : Prog Lock := either skip schedSection
def schedSleepLocks : Prog Lock := either skip schedSection

/-- `sched_unblock`: a zombie is freed when `sched_lock` is released. -/
def schedUnblockLocks : Prog Lock :=
  either skip
    (block
      [acquire .sched, either (block [release .sched, taskFreeThreadLocks]) (release .sched)])

/-- `sched_next_thread`: a zombie is reaped with `sched_lock` held. -/
def schedNextThreadLocks : Prog Lock :=
  block [acquire .sched, either taskFreeThreadLocks skip, release .sched]

/-- `isr_pendsv`. -/
def isrPendsvLocks : Prog Lock := block [irqsOff, schedNextThreadLocks, switch, irqsOn]

/-- `isr_systick`: only core 0 wakes sleepers. -/
def isrSystickLocks : Prog Lock := either skip schedSection

/-! ### sync.c -/

/-- `wake_one`. -/
def wakeOneLocks : Prog Lock := loop schedUnblockLocks

def eventWaiterAllocLocks : Prog Lock := block [acquire .eventPool, release .eventPool]
def eventWaiterFreeLocks : Prog Lock := block [acquire .eventPool, release .eventPool]

/-- A round of a wait loop that blocks. -/
def blockLocks (a : Addr) (join : Prog Lock) : Prog Lock :=
  block [acquire (primLock a), join, schedBlockLocks, release (primLock a)]

/-- A wait loop, and the round that returns. -/
def waitLocks (a : Addr) (join take : Prog Lock) : Prog Lock :=
  block [loop (blockLocks a join), acquire (primLock a), take, release (primLock a)]

/-- A round of the scan in `event_flags_set`. -/
def scanLocks : Prog Lock :=
  block
    [acquire .eventPool, release .eventPool,
      either (block [eventWaiterFreeLocks, schedUnblockLocks]) skip]

def WaitOp.locks : WaitOp → Prog Lock
  | .kmutexLock m => waitLocks m skip skip
  | .ksemaphoreWait s => waitLocks s skip skip
  | .eventFlagsWait e _ _ => waitLocks e eventWaiterAllocLocks skip
  | .mqueueSend q _ => waitLocks q skip wakeOneLocks
  | .mqueueRecv q => waitLocks q skip wakeOneLocks

def PostOp.locks : PostOp → Prog Lock
  | .kmutexUnlock m => block [acquire (primLock m), wakeOneLocks, release (primLock m)]
  | .ksemaphoreSignal s => block [acquire (primLock s), wakeOneLocks, release (primLock s)]
  | .eventFlagsSet e _ => block [acquire (primLock e), loop scanLocks, release (primLock e)]
  | .eventFlagsClear e _ => block [acquire (primLock e), release (primLock e)]
  | .mqueueTrySend q _ | .mqueueTryRecv q =>
    block
      [acquire (primLock q),
        either (release (primLock q)) (block [wakeOneLocks, release (primLock q)])]

/-! ### task.c -/

def taskKillThreadLocks : Prog Lock :=
  either skip (block [schedKillLocks, either taskFreeThreadLocks skip])

def taskKillProcessLocks : Prog Lock := either skip (loop taskKillThreadLocks)

def taskCreateThreadLocks : Prog Lock :=
  either skip (block [kmallocLocks, either skip schedAddThreadLocks])

def Call.locks : Call → Prog Lock
  | .wait op => op.locks
  | .post op => op.locks
  | .sleep _ => schedSleepLocks
  | .sysKill _ => either skip taskKillThreadLocks
  | .taskKillThread _ => taskKillThreadLocks
  | .taskKillProcess _ => taskKillProcessLocks
  | .taskCreateThread _ => taskCreateThreadLocks
  | .yield | .threadExit | .sysExit _ | .sysGetpid | .sysGettid | .setAffinity _
  | .taskCreateProcess _ => skip

/-- What a thread can call that takes a lock or yields. -/
inductive KernelOp where
  | call (c : Call)
  | kmalloc
  | kfree
  | kmemStats
  | schedAddThread
  | schedRemoveThread
  | schedTraceStart
  | schedTracePause
  | schedTraceInfo
  | schedTraceGet
  | schedStartCore1

def KernelOp.locks : KernelOp → Prog Lock
  | .call c => c.locks
  | .kmalloc => kmallocLocks
  | .kfree => kfreeLocks
  | .kmemStats => kmemStatsLocks
  | .schedAddThread => schedAddThreadLocks
  | .schedRemoveThread => schedRemoveThreadLocks
  | .schedTraceStart | .schedTracePause | .schedTraceInfo | .schedTraceGet
  | .schedStartCore1 => schedSection

inductive Handler where
  | isrSystick
  | isrPendsv
  deriving DecidableEq

def Handler.locks : Handler → Prog Lock
  | .isrSystick => isrSystickLocks
  | .isrPendsv => isrPendsvLocks

/-! ### Every program passes the check -/

section
open Locking (Checked)

theorem waitOp_checked (op : WaitOp) : Checked Lock.rank op.locks := by
  cases op <;> simp only [WaitOp.locks, waitLocks, blockLocks, primLock] <;>
    generalize primPoolAssign _ = s <;> revert s <;> decide

theorem postOp_checked (op : PostOp) : Checked Lock.rank op.locks := by
  cases op <;> simp only [PostOp.locks, primLock] <;>
    generalize primPoolAssign _ = s <;> revert s <;> decide

theorem call_checked (c : Call) : Checked Lock.rank c.locks := by
  cases c with
  | wait op => exact waitOp_checked op
  | post op => exact postOp_checked op
  | _ => rfl

theorem kernelOp_checked (op : KernelOp) : Checked Lock.rank op.locks := by
  cases op with
  | call c => exact call_checked c
  | _ => decide

theorem handler_checked (h : Handler) : Checked Lock.rank h.locks := by
  cases h <;> decide

end

/-! ### Runs of the two cores -/

/-- The spinlocks, and two cores that run any number of threads. -/
abbrev LockState (T : Type) := Locking.State Core Lock T

abbrev LockEvent (T : Type) := Locking.Event Core T KernelOp Handler

def lockStep {T : Type} [DecidableEq T] : LockState T → LockEvent T → LockState T :=
  Locking.State.step KernelOp.locks Handler.locks

/-- A core that asks for a stripe has no stripe, that of another primitive or the same. -/
def StripeAlone {T : Type} (s : LockState T) : LockEvent T → Prop
  | .run c _ =>
    match s.active c with
    | .acquire (.stripe _) :: _ => ∀ r, .stripe r ∉ (s.core c).held
    | _ => True
  | _ => True

theorem stripeAlone {T : Type} {s : LockState T} {e : LockEvent T}
    (ordered : s.InOrder Lock.rank e) : StripeAlone s e := by
  cases e with
  | run c way =>
    simp only [StripeAlone]
    split
    next r k at_ =>
      simp only [Locking.State.InOrder, at_] at ordered
      exact fun q held => Nat.lt_irrefl 0 (ordered (.stripe q) held)
    next => trivial
  | call | interrupt | switch => trivial

/-- Whatever the two cores call, however they are interrupted and switched: the locks are acquired
in their order, no stripe is acquired with another one held, interrupts are off where a lock is held,
and no cores wait for each other: the lock that a core waits for is held by the other core, which can
go on. -/
theorem spinlocks_deadlock_free {T : Type} [DecidableEq T] {s : LockState T} (start : s.Initial)
    (es : List (LockEvent T)) :
    Run.Along lockStep (fun s e => s.InOrder Lock.rank e ∧ StripeAlone s e) s es ∧
      let s' := Run.exec lockStep s es
      (∀ c, (s'.core c).held ≠ [] → (s'.core c).irqs = false) ∧
        (∀ cores, ¬ s'.Deadlocked cores) ∧
        ∀ c l, s'.waitsFor c = some l →
          l ∈ (s'.core c.other).held ∧ s'.waitsFor c.other = none ∧
            ∀ way, (Locking.next s'.taken (s'.core c.other) way (s'.active c.other)).isSome = true := by
  have stays (s : LockState T) (e : LockEvent T) (ok : s.Ok Lock.rank) :
      (lockStep s e).Ok Lock.rank :=
    Locking.State.step_ok kernelOp_checked handler_checked ok e
  refine ⟨Run.along_of_invariant stays (fun s e ok => ?_) start.ok es, ?_⟩
  · exact ⟨ok.inOrder e, stripeAlone (ok.inOrder e)⟩
  · have ok := Run.exec_invariant stays start.ok es
    refine ⟨ok.masked, ok.not_deadlocked, fun c l waits => ?_⟩
    obtain ⟨d, other, held⟩ := ok.holder waits
    rcases Core.eq_or_other c d with rfl | rfl
    · exact absurd rfl other
    · have free : (Run.exec lockStep s es).waitsFor c.other = none := by
        by_contra both
        obtain ⟨m, for_m⟩ := Option.ne_none_iff_exists'.mp both
        obtain ⟨d, apart, back⟩ := ok.holder for_m
        rcases Core.eq_or_other c d with rfl | rfl
        · -- Each waits for the other, and each would have to wait above it.
          have up := ok.waits_above waits m back
          have down := ok.waits_above for_m l held
          omega
        · exact apart rfl
      exact ⟨held, free, ok.proceeds (List.ne_nil_of_mem held) free⟩

/-- Two threads that run, with no lock taken. -/
def unlocked : LockState Core where
  taken _ := false
  core c := { irqs := true, saves := [], held := [], current := c }
  code _ := []

theorem unlocked_initial : unlocked.Initial where
  distinct _ _ same := same
  free _ := rfl
  quiet _ := ⟨rfl, rfl⟩
  done _ := rfl

/-- Core 0 is waking a waiter of a mutex when core 1 asks for a semaphore on the same stripe. -/
def sharedStripe : List (LockEvent Core) :=
  Locking.Event.call 0 (.call (.post (.kmutexUnlock 0))) ::
      List.replicate 8 (Locking.Event.run 0 true) ++
    Locking.Event.call 1 (.call (.post (.ksemaphoreSignal 64))) ::
      List.replicate 3 (Locking.Event.run 1 true)

/-- Core 1 waits for the stripe, and core 0 can go on. -/
theorem sharedStripe_proceeds :
    let s := Run.exec lockStep unlocked sharedStripe
    s.waitsFor 1 = some (primLock 0) ∧ s.waitsFor 0 = none := by
  have waits : (Run.exec lockStep unlocked sharedStripe).waitsFor 1 = some (primLock 0) := by
    decide +kernel
  exact ⟨waits, ((spinlocks_deadlock_free unlocked_initial sharedStripe).2.2.2 1 _ waits).2.1⟩

end PicoOS.Kernel
