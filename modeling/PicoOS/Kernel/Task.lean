import PicoOS.Kernel.State

/-!
# Threads and processes

The functions of `task.c`. They take no lock, so each is a sequence of steps
between which the other core, or another thread on the same one, can act.
-/
namespace PicoOS.Kernel

variable (k : KernelState)

/-! ### Lookup -/

/-- `task_find_thread`. -/
def taskFindThread (tid : UInt32) : Option Slot :=
  (List.finRange maxThreads).find? fun t => k.tcbUsed t && (k.tcb t).tid == tid

/-- `task_find_process`. -/
def taskFindProcess (pid : UInt32) : Option ProcSlot :=
  (List.finRange maxProcesses).find? fun p => k.pcbUsed p && (k.pcb p).pid == pid

def setUsed (t : Slot) (used : Bool) : KernelState :=
  { k with tcbUsed := Function.update k.tcbUsed t used }

def setPcbUsed (p : ProcSlot) (used : Bool) : KernelState :=
  { k with pcbUsed := Function.update k.pcbUsed p used }

def setThread (p : ProcSlot) (i : Nat) (t : Option Slot) : KernelState :=
  k.setPcb p { k.pcb p with threads := Function.update (k.pcb p).threads i t }

def setThreadCount (p : ProcSlot) (n : Nat) : KernelState :=
  k.setPcb p { k.pcb p with threadCount := n }

/-! ### task_free_thread -/

/-- One step of `task_free_thread(t)`; `none` when it returns. -/
def freeStep (t : Slot) : FreePc → KernelState × Option FreePc
  | .find =>
    match taskFindProcess k (k.tcb t).pid with
    | none => (k, some (.clear none))
    | some p => (k, some (.scan p 0))
  | .scan p i =>
    if i < (k.pcb p).threadCount then
      if (k.pcb p).threads i = some t then
        (setThreadCount k p ((k.pcb p).threadCount - 1), some (.shift p i))
      else
        (k, some (.scan p (i + 1)))
    else
      (k, some (.clear (some p)))
  | .shift p j =>
    if j < (k.pcb p).threadCount then
      (setThread k p j ((k.pcb p).threads (j + 1)), some (.shift p (j + 1)))
    else
      (setThread k p (k.pcb p).threadCount none, some (.clear (some p)))
  | .clear p => (setUsed k t false, some (.wipe p))
  | .wipe p => (k.setTcb t .zero, p.map .drop)
  | .drop p =>
    if (k.pcb p).threadCount = 0 then
      -- task_free_process
      (setPcbUsed k p false, some (.wipeProc p))
    else
      (k, none)
  | .wipeProc p => (k.setPcb p .zero, none)

/-! ### task_create_thread -/

/-- The free TCB slot that `task_create_thread` finds. -/
def findFreeSlot : Option Slot := (List.finRange maxThreads).find? fun t => !k.tcbUsed t

/-- The fields of a new TCB, with the next TID. -/
def initThread (t : Slot) (a : CreateArgs) : KernelState :=
  { k.setTcb t
      { tid := k.nextTid
        pid := match a.proc with
          | none => 0
          | some p => (k.pcb p).pid
        saved := some ⟨t, .user, .none⟩
        priority := a.priority
        affinity := none
        state := .ready
        killPending := false
        wakeTimeUs := 0
        cpuTimeUs := 0
        next := none } with
    nextTid := k.nextTid + 1 }

/-- `proc->threads[proc->thread_count++] = t`, with the count already read. -/
def linkThread (t : Slot) (p : ProcSlot) (n : Nat) : KernelState :=
  setThreadCount (setThread k p n (some t)) p (n + 1)

/-! ### task_create_process -/

/-- The checks of `task_create_process` and the free PCB slot it finds. -/
def findFreeProc (pid : UInt32) : Option ProcSlot :=
  if pid = 0 ∨ (taskFindProcess k pid).isSome then
    none
  else
    (List.finRange maxProcesses).find? fun p => !k.pcbUsed p

def fillProc (p : ProcSlot) (pid : UInt32) : KernelState :=
  k.setPcb p
    { pid := pid, threads := fun _ => none, threadCount := 0, exitCode := 0, alive := true }

/-! ### Exit and kill -/

/-- The process part of `SYS_EXIT`. -/
def sysExitProc (pid code : UInt32) : KernelState :=
  match taskFindProcess k pid with
  | none => k
  | some p =>
    let v := { k.pcb p with exitCode := code }
    let allDead := (List.range v.threadCount).all fun i =>
      match v.threads i with
      | none => true
      | some t => k.state t = .zombie
    k.setPcb p (if allDead then { v with alive := false } else v)

def setAlive (p : ProcSlot) (alive : Bool) : KernelState :=
  k.setPcb p { k.pcb p with alive := alive }

end PicoOS.Kernel
