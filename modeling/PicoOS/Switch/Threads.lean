import Mathlib
import PicoOS.Lib.Run
import PicoOS.Switch.Pendsv

/-!
# Threads of one core

The threads that one core switches between: where their TCBs and stacks lie,
the steps that create, run, switch and free them, and the discipline on memory
and stack pointers that the kernel and its threads follow.
-/
namespace PicoOS.Switch

open Thumb

/-- Where the kernel keeps what the handler reads. -/
structure Layout (T : Type) where
  tcb : T → Word
  currentTcb : Word
  core : Word
  threadExit : Word
  tcb_injective : Function.Injective tcb
  fields_apart : ∀ t u, tcb t + 16 ≠ tcb u + 20
  slot_apart : ∀ t, currentTcb + core <<< 2 ≠ tcb t + 16 ∧ currentTcb + core <<< 2 ≠ tcb t + 20
  sio_apart : ∀ t, sioBase ≠ tcb t + 16 ∧ sioBase ≠ tcb t + 20
  sio_slot : sioBase ≠ currentTcb + core <<< 2

namespace Layout

variable {T : Type} (L : Layout T)

def savedSp (t : T) : Word := L.tcb t + 16

def excReturn (t : T) : Word := L.tcb t + 20

def slot : Word := L.currentTcb + L.core <<< 2

/-- The kernel's cells; none of them lies on a stack. -/
def cells : Set Word := {sioBase, L.slot} ∪ Set.range L.savedSp ∪ Set.range L.excReturn

end Layout

/-- The threads of a core. `suspended` remembers the processor as a thread last had it: what it
was switched out with, or what it was created to start with. -/
structure Machine (T : Type) where
  cpu : Cpu
  current : T
  stack : T → Set Word
  suspended : T → Option Cpu

inductive Event (T : Type)
  | run (c : Cpu)
  | create (t : T) (stack : Set Word) (top entry arg : Word)
  | free (t : T)
  | switch (next : T) (schedNextThread : Cpu → Cpu) (kept : T → Bool)

/-- The frame `task_create_thread` lays down, from `saved_sp` up. -/
def initialFrame (threadExit entry arg : Word) : List Word :=
  [0, 0, 0, 0, 0, 0, 0, 0] ++ [arg, 0, 0, 0, 0, threadExit, entry, 0x01000000]

/-- The processor a new thread starts with. -/
def initialCpu (c : Cpu) (threadExit top entry arg : Word) : Cpu :=
  { c with
    r := fun
      | .r0 => arg
      | .lr => threadExit
      | _ => 0
    pc := entry
    xpsr := 0x01000000
    psp := top
    fpca := false }

section Step

variable {T : Type} [DecidableEq T] (L : Layout T) (arch : Arch)

/-- What `task_create_thread` writes of the new thread's stack and TCB. -/
def taskCreateThread (m : Memory) (t : T) (top entry arg : Word) : Memory :=
  Function.update
    (Function.update (writeWords m (top - 64) (initialFrame L.threadExit entry arg))
      (L.savedSp t) (top - 64))
    (L.excReturn t) 0xFFFFFFFD

/-- The processor a live thread has, or had when it was suspended. -/
def Machine.context (m : Machine T) (t : T) : Option Cpu :=
  if t = m.current then some m.cpu else m.suspended t

def Machine.Live (m : Machine T) (t : T) : Prop := t = m.current ∨ m.suspended t ≠ none

/-- One step of the core. A switch keeps the contexts of the threads that `sched_next_thread` has
not reaped. -/
def step (m : Machine T) : Event T → Machine T
  | .run c => { m with cpu := c }
  | .create t stack top entry arg =>
    { m with
      cpu := { m.cpu with mem := taskCreateThread L m.cpu.mem t top entry arg }
      stack := Function.update m.stack t stack
      suspended :=
        Function.update m.suspended t (some (initialCpu m.cpu L.threadExit top entry arg)) }
  | .free t => { m with suspended := Function.update m.suspended t none }
  | .switch next schedNextThread kept =>
    { m with
      cpu := pendsv arch L.currentTcb schedNextThread m.cpu
      current := next
      suspended := fun t => if kept t ∧ t ≠ next then m.context t else none }

/-! ### The discipline -/

/-- The words a suspended thread has on its stack. -/
def savedWords (c : Cpu) : Nat := 8 + if c.fpca then 25 else 8

/-- What of the memory belongs to a suspended thread's context. -/
def savedArea (m : Memory) (t : T) (c : Cpu) : Set Word :=
  {L.savedSp t, L.excReturn t} ∪ span (m (L.savedSp t)) (savedWords c)

/-- The processor when `sched_next_thread` is called. -/
def atCall (c : Cpu) : Cpu :=
  Thumb.step id (exec id (saveContext arch L.currentTcb) (exceptionEntry c)) (.push [.lr])

/-- What the steps rely on. Threads and interrupts leave the contexts of suspended threads alone;
a new thread gets a TCB and a stack nobody has; a thread is switched while its frame fits its
stack; the handler's own stack is apart; and `sched_next_thread` is a C function that picks a
live thread, keeps s16 to s31 and the contexts of the threads it does not reap. -/
def Allowed (m : Machine T) : Event T → Prop
  | .run c =>
    c.mem sioBase = m.cpu.mem sioBase ∧ c.mem L.slot = m.cpu.mem L.slot ∧
      (∀ t d, m.suspended t = some d → ∀ x ∈ savedArea L m.cpu.mem t d, c.mem x = m.cpu.mem x) ∧
      (arch = .m0plus → c.fpca = false)
  | .create t stack top _ _ =>
    ¬ m.Live t ∧ span (top - 64) 16 ⊆ stack ∧ Disjoint stack L.cells ∧
      ∀ u, m.Live u → Disjoint stack (m.stack u)
  | .free t => t ≠ m.current
  | .switch next schedNextThread kept =>
    m.cpu.psp % 4 = 0 ∧ m.cpu.xpsr.getLsbD 9 = false ∧
      span ((exceptionEntry m.cpu).psp - 32) (savedWords m.cpu) ⊆ m.stack m.current ∧
      m.cpu.msp - 4 ∉ L.cells ∧ (∀ t, m.Live t → m.cpu.msp - 4 ∉ m.stack t) ∧
      let called := atCall L arch m.cpu
      let returned := schedNextThread called
      m.Live next ∧ kept next ∧ returned.r .r0 = L.tcb next ∧
        returned.mem sioBase = called.mem sioBase ∧
        (∀ i : Fin 32, 16 ≤ i.val → returned.s i = called.s i) ∧
        ∀ t c, kept t → m.context t = some c →
          ∀ x ∈ savedArea L called.mem t c, returned.mem x = called.mem x

/-- The scheduler has started its first thread. -/
structure Initial (m : Machine T) : Prop where
  alone : ∀ t, m.suspended t = none
  sio : m.cpu.mem sioBase = L.core
  current : m.cpu.mem L.slot = L.tcb m.current
  stack : Disjoint (m.stack m.current) L.cells
  fpca : arch = .m0plus → m.cpu.fpca = false

end Step

end PicoOS.Switch
