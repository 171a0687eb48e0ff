import PicoOS.Kernel.Tables
import PicoOS.Mem.Allocations

/-!
# Stacks

What the calls of `task.c` do to the heap: a call that creates a thread takes the
block of its stack, a call that frees one gives it back, and the others leave the
heap alone.
-/
namespace PicoOS.Kernel

/-- How far the creation of a process with one thread has got. -/
inductive ProcessStart where
  | noProcess
  | noThread
  | thread (t : Slot)

/-- The stack size that a call asks for. -/
def TableOp.stackSize : TableOp → UInt32
  | .thread _ _ stackSize => stackSize
  | _ => defaultStackSize

namespace Tables

/-- `task_create_process` and `task_create_thread` as every launcher calls them: without a thread the
process is freed again. -/
def startProcess (s : Tables) (pid : UInt32) (priority : UInt8) : Option (Tables × ProcessStart) :=
  match findFreeProc s.k pid with
  | none => some (s, .noProcess)
  | some p =>
    (createThread { s with k := taskCreateProcess s.k pid } (some p) priority defaultStackSize).map
      fun made =>
        match made.2 with
        | none => ({ made.1 with k := taskFreeProcess made.1.k p }, .noThread)
        | some t => (made.1, .thread t)

/-- `task_alloc_pid`. -/
def allocPid (s : Tables) (range : PidRange) : UInt32 × Tables :=
  let alloc := taskAllocPid s.k (s.ranges range)
  (alloc.1, { s with ranges := Function.update s.ranges range alloc.2 })

/-- What a call does to the threads in use, their stacks and the heap. -/
inductive Change (size : UInt32) (s s' : Tables) : Prop where
  | same (used : s'.k.tcbUsed = s.k.tcbUsed) (heap : s'.heap = s.heap)
      (stackBase : s'.stackBase = s.stackBase)
  | grows (t : Slot) (p : Mem.Ptr) (free : s.k.tcbUsed t = false)
      (used : s'.k.tcbUsed = Function.update s.k.tcbUsed t true)
      (heap : Mem.kmalloc s.heap size = some (s'.heap, some p))
      (stackBase : s'.stackBase = Function.update s.stackBase t (some p))
  | shrinks (t : Slot) (used : s'.k.tcbUsed = Function.update s.k.tcbUsed t false)
      (heap : Mem.kfree s.heap (s.stackBase t) = some s'.heap)
      (stackBase : s'.stackBase = Function.update s.stackBase t none)

variable {s s₁ s' : Tables} {g : Groups Slot ProcSlot UInt32} {size : UInt32}

/-- The rest of the tables does not matter. -/
theorem Change.congr (change : Change size s₁ s') (used : s₁.k.tcbUsed = s.k.tcbUsed)
    (heap : s₁.heap = s.heap) (stackBase : s₁.stackBase = s.stackBase) : Change size s s' := by
  cases change with
  | same used' heap' stackBase' =>
    exact .same (used'.trans used) (heap'.trans heap) (stackBase'.trans stackBase)
  | grows t p free used' heap' stackBase' =>
    exact .grows t p (used ▸ free) (used ▸ used') (heap ▸ heap') (stackBase ▸ stackBase')
  | shrinks t used' heap' stackBase' =>
    rw [stackBase, heap] at heap'
    exact .shrinks t (used ▸ used') heap' (stackBase ▸ stackBase')

theorem tcbUsed_of_tables {k k' : KernelState} (same : k'.tables = k.tables) :
    k'.tcbUsed = k.tcbUsed := by
  simp only [KernelState.tables, Prod.mk.injEq] at same
  exact same.1

theorem createProcess_used (k : KernelState) (pid : UInt32) :
    (taskCreateProcess k pid).tcbUsed = k.tcbUsed := by
  unfold taskCreateProcess
  split <;> rfl

theorem Sound.createThread_change (h : Sound s g) {proc : Option ProcSlot} {priority : UInt8}
    {made : Option Slot} (ran : s.createThread proc priority size = some (s', made)) :
    made = none ∧ s' = s ∨ ∃ t, made = some t ∧ s.k.tcbUsed t = false ∧
      s'.k.tcbUsed = Function.update s.k.tcbUsed t true ∧ Change size s s' := by
  rcases h.createThread_cases ran with failed | ⟨t, heap, p, free, rfl, given, rfl, found⟩
  · exact .inl failed
  · have used := createThread_used (a := ⟨proc, priority, true⟩) rfl found
    exact .inr ⟨t, rfl, free, used, .grows t p free used given rfl⟩

theorem Sound.freeThread_change (h : Sound s g) {t : Slot} (ran : s.freeThread t = some s') :
    Change size s s' := by
  obtain ⟨k, g', freed, used, _⟩ := h.freeTables t
  rw [Tables.freeThread, freed, Option.bind_some] at ran
  obtain ⟨heap, back, rfl⟩ := Option.map_eq_some_iff.mp ran
  exact .shrinks t used back rfl

theorem Sound.killThread_change (h : Sound s g) {core : Core} {t : Slot}
    (ran : s.killThread core t = some s') : Change size s s' := by
  obtain ⟨⟨k, now⟩, killed, ran⟩ := Option.bind_eq_some_iff.mp ran
  have same := KernelState.unscheduled_tables.kill killed
  have sound := h.congr same
  have used := tcbUsed_of_tables same
  dsimp only at ran
  split at ran
  next =>
    exact (sound.freeThread_change ran).congr used rfl rfl
  next =>
    cases ran
    exact .same used rfl rfl

theorem Sound.nextThread_change (h : Sound s g) {core : Core} (ran : s.nextThread core = some s') :
    Change size s s' := by
  obtain ⟨⟨k, r⟩, next, ran⟩ := Option.bind_eq_some_iff.mp ran
  dsimp only at ran
  -- a zombie that goes off its core is freed with its stack
  rcases schedNextThread_tables next with ⟨none, same⟩ | ⟨t, k₁, k₂, reap, same, freed, last⟩
  · rw [none] at ran
    cases ran
    exact .same (tcbUsed_of_tables same) rfl rfl
  · rw [reap] at ran
    obtain ⟨heap, back, rfl⟩ := Option.map_eq_some_iff.mp ran
    obtain ⟨k₂', g', freed', used, _⟩ := (h.congr same).freeTables t
    cases freed.symm.trans freed'
    refine .shrinks t ?_ back rfl
    rw [tcbUsed_of_tables last, used]
    exact congrArg (Function.update · t false) (tcbUsed_of_tables same)

/-- Without a process and its thread nothing has changed. -/
theorem Sound.startProcess (h : Sound s g) {pid : UInt32} {priority : UInt8} {started : ProcessStart}
    (ran : s.startProcess pid priority = some (s', started)) :
    ((∀ t, started ≠ .thread t) ∧ s' = s) ∨
      ∃ t, started = .thread t ∧ s.k.tcbUsed t = false ∧
        s'.k.tcbUsed = Function.update s.k.tcbUsed t true ∧ Change defaultStackSize s s' ∧
        ∃ g', Sound s' g' := by
  unfold Tables.startProcess at ran
  cases found : findFreeProc s.k pid with
  | none =>
    rw [found] at ran
    cases ran
    exact .inl ⟨nofun, rfl⟩
  | some p =>
    rw [found] at ran
    obtain ⟨idle, opened, sound⟩ := h.openProcess found
    dsimp only at ran
    rw [opened] at ran
    obtain ⟨⟨s₁, thread⟩, created, same⟩ := Option.map_eq_some_iff.mp ran
    rcases sound.createThread_change created with ⟨rfl, rfl⟩ | ⟨t, rfl, free, used, change⟩
    · cases same
      -- the slot that has been taken is freed again, and was all zero before
      have back := Represents.reopened h.tables idle pid
      dsimp only
      rw [back]
      exact .inl ⟨nofun, rfl⟩
    · cases same
      obtain ⟨g', sound', _⟩ := sound.createThread
        (fun q own => by cases own; exact ⟨pid, [], Function.update_self ..⟩) created
      exact .inr ⟨t, rfl, free, used, change.congr rfl rfl rfl, g', sound'⟩

/-- It ends. -/
theorem startProcess_isSome (heap : ∃ ps, Mem.Sound s.heap ps) (pid : UInt32) (priority : UInt8) :
    (s.startProcess pid priority).isSome = true := by
  obtain ⟨ps, laid⟩ := heap
  unfold Tables.startProcess
  cases found : findFreeProc s.k pid with
  | none => rfl
  | some p =>
    dsimp only
    rw [Option.isSome_map, Tables.createThread]
    split
    next => rfl
    next =>
      rw [Option.isSome_map]
      rcases laid.kmalloc_cases defaultStackSize with null | ⟨_, _, _, given, _⟩
      · rw [null]
        rfl
      · rw [given]
        rfl

/-- A PID is taken from its range. -/
theorem Sound.allocPid (h : Sound s g) (range : PidRange) : Sound (s.allocPid range).2 g :=
  ⟨h.tables, h.groups, h.stackBase, h.owned⟩

/-- `SYS_SPAWN` starts a process as the others do. -/
theorem sysSpawn_eq (s : Tables) :
    s.sysSpawn =
      ((s.allocPid .spawn).2.startProcess (s.allocPid .spawn).1 4).map fun started =>
        match started.2 with
        | .thread _ => (started.1, some (s.allocPid .spawn).1)
        | _ => (started.1, none) := by
  simp only [sysSpawn, startProcess, Tables.allocPid]
  split
  next zero =>
    -- `SYS_SPAWN` looks at the PID first, `task_create_process` refuses it too
    have none : findFreeProc s.k (taskAllocPid s.k (s.ranges .spawn)).1 = none := by
      rw [findFreeProc, if_pos (.inl zero)]
    rw [none]
    rfl
  next =>
    cases findFreeProc s.k (taskAllocPid s.k (s.ranges .spawn)).1 with
    | none => rfl
    | some p =>
      dsimp only
      rw [Option.map_map]
      congr 1
      funext made
      obtain ⟨s', thread⟩ := made
      cases thread <;> rfl

/-- Each call takes one stack, gives one back, or does neither. -/
theorem Sound.step_change (h : Sound s g) (op : TableOp) : Change op.stackSize s (s.step op) := by
  have nothing {size : UInt32} : Change size s s := .same rfl rfl rfl
  have thread {proc : Option ProcSlot} {priority : UInt8} {size : UInt32} :
      Change size s (((s.createThread proc priority size).map Prod.fst).getD s) := by
    cases ran : s.createThread proc priority size with
    | none => exact nothing
    | some r =>
      rcases h.createThread_change ran with ⟨_, same⟩ | ⟨_, _, _, _, change⟩
      · rw [Option.map_some, Option.getD_some, same]
        exact nothing
      · exact change
  cases op with
  | process pid => exact .same (createProcess_used ..) rfl rfl
  | thread proc priority stackSize =>
    cases proc with
    | none => exact thread
    | some pid =>
      simp only [Tables.step]
      split
      next => exact nothing
      next => exact thread
  | spawn =>
    simp only [Tables.step, sysSpawn_eq, TableOp.stackSize]
    cases ran : (s.allocPid .spawn).2.startProcess (s.allocPid .spawn).1 4 with
    | none => exact nothing
    | some r =>
      obtain ⟨s₁, started⟩ := r
      rcases (h.allocPid .spawn).startProcess ran with ⟨failed, rfl⟩ | ⟨t, rfl, _, _, change, _⟩
      · cases started with
        | thread t => exact absurd rfl (failed t)
        | noProcess => exact .same rfl rfl rfl
        | noThread => exact .same rfl rfl rfl
      · exact change.congr rfl rfl rfl
  | freeThread t =>
    obtain ⟨s', ran, _⟩ := h.freeThread t
    simp only [Tables.step, ran, Option.getD_some]
    exact h.freeThread_change ran
  | freeProcess p =>
    simp only [Tables.step]
    split
    next => exact .same rfl rfl rfl
    next => exact nothing
  | kill core t =>
    simp only [Tables.step]
    cases ran : s.killThread core t with
    | none => exact nothing
    | some s' => exact h.killThread_change ran
  | next core =>
    simp only [Tables.step]
    cases ran : s.nextThread core with
    | none => exact nothing
    | some s' => exact h.nextThread_change ran
  | state t state => exact .same rfl rfl rfl

end Tables

end PicoOS.Kernel
