import PicoOS.Kernel.Boot
import PicoOS.Kernel.Frame
import PicoOS.Kernel.Select
import PicoOS.Lib.Run
import Mathlib

/-!
# Thread ids

`next_tid` counts the threads created since boot, in 32 bits. Other modules read
0 and 0xFFFFFFFF as no thread, and `task_find_thread` stops at the first match: a
tid names one thread as long as the counter has not reached the second of these.
-/
namespace PicoOS.Kernel

open KernelState

/-! ### Creating and ending threads -/

/-- `task_create_thread` without interruption, and the thread it returns. -/
def createThread (k : KernelState) (a : CreateArgs) : KernelState × Option Slot :=
  match findFreeSlot k with
  | none => (k, none)
  | some t =>
    let k := setUsed k t true
    if a.heap then
      let k := initThread k t a
      let k :=
        match a.proc with
        | none => k
        | some p =>
          if (k.pcb p).threadCount < maxThreads then linkThread k t p (k.pcb p).threadCount else k
      ((schedAddThreadRaw k t).getD k, some t)
    else
      (setUsed k t false, none)

/-- The end of a thread that has exited or was killed: it leaves its ready queue and is freed. -/
def endThread (k : KernelState) (t : Slot) : KernelState :=
  ((schedRemoveThreadRaw k t).bind fun k => taskFreeThread k t).getD k

inductive TaskOp where
  | process (pid : UInt32)
  | create (a : CreateArgs)
  | ends (t : Slot)

def taskStep (k : KernelState) : TaskOp → KernelState
  | .process pid => taskCreateProcess k pid
  | .create a => (createThread k a).1
  | .ends t => endThread k t

/-- The step creates a thread. -/
def creates (k : KernelState) : TaskOp → Bool
  | .create a => (createThread k a).2.isSome
  | _ => false

/-- How many threads a run creates. -/
def created : KernelState → List TaskOp → Nat
  | _, [] => 0
  | k, op :: ops => (creates k op).toNat + created (taskStep k op) ops

/-- A tid names one thread, and none of those that stand for no thread. -/
structure TidsUnique (k : KernelState) : Prop where
  distinct : ∀ t u, k.tcbUsed t = true → k.tcbUsed u = true → k.tid t = k.tid u → t = u
  found : ∀ t, k.tcbUsed t = true → taskFindThread k (k.tid t) = some t
  reserved : ∀ t, k.tcbUsed t = true → k.tid t ≠ 0 ∧ k.tid t ≠ noOwner

/-! ### What the steps do to the tids -/

/-- Which TCBs are in use, their tids, and the counter. -/
def KernelState.tids (k : KernelState) : (Slot → Bool) × (Slot → UInt32) × UInt32 :=
  (k.tcbUsed, k.tid, k.nextTid)

theorem KernelState.unscheduled_tids : Unscheduled KernelState.tids where
  tcb k t v same _ _ := by
    have tids : (k.setTcb t v).tid = k.tid := by
      funext u
      by_cases eq : u = t
      · subst eq
        simp [KernelState.tid, KernelState.setTcb, same]
      · simp [KernelState.tid, KernelState.setTcb, eq]
    show (k.tcbUsed, (k.setTcb t v).tid, k.nextTid) = _
    rw [tids]
    rfl
  ready _ _ _ := rfl

section

variable {k k' : KernelState} {t : Slot}

/-- What is left of them when a TCB has been freed. -/
def KernelState.tidsWithout (k : KernelState) (t : Slot) :
    (Slot → Bool) × (Slot → UInt32) × UInt32 :=
  (Function.update k.tcbUsed t false, Function.update k.tid t 0, k.nextTid)

/-- What `task_free_thread` has done to the TCB at a point. -/
def FreePc.Cleared (k : KernelState) (t : Slot) : FreePc → Prop
  | .wipe _ => k.tcbUsed t = false
  | .drop _ | .wipeProc _ => k.tcbUsed t = false ∧ k.tid t = 0
  | _ => True

theorem tidsWithout_of_tids (same : k'.tids = k.tids) : k'.tidsWithout t = k.tidsWithout t := by
  simp only [KernelState.tids, Prod.mk.injEq] at same
  simp only [KernelState.tidsWithout, same]

theorem freeStep_tids (k : KernelState) (t : Slot) {stage : FreePc} (cleared : stage.Cleared k t) :
    (freeStep k t stage).1.tidsWithout t = k.tidsWithout t ∧
      match (freeStep k t stage).2 with
      | some stage' => stage'.Cleared (freeStep k t stage).1 t
      | none => (freeStep k t stage).1.tcbUsed t = false ∧ (freeStep k t stage).1.tid t = 0 := by
  cases stage with
  | find =>
    simp only [freeStep]
    split <;> exact ⟨rfl, trivial⟩
  | scan p i =>
    simp only [freeStep]
    split
    next => split <;> exact ⟨rfl, trivial⟩
    next => exact ⟨rfl, trivial⟩
  | shift p j =>
    simp only [freeStep]
    split <;> exact ⟨rfl, trivial⟩
  | clear p =>
    refine ⟨?_, ?_⟩
    · show (Function.update (Function.update k.tcbUsed t false) t false, _) = _
      rw [Function.update_idem]
      rfl
    · simp [freeStep, FreePc.Cleared, setUsed]
  | wipe p =>
    have tids : (k.setTcb t .zero).tid = Function.update k.tid t 0 := by
      funext u
      by_cases eq : u = t
      · subst eq
        simp [KernelState.tid, KernelState.setTcb, Tcb.zero]
      · simp [KernelState.tid, KernelState.setTcb, eq]
    have wiped : (k.setTcb t .zero).tid t = 0 := by rw [tids, Function.update_self]
    refine ⟨?_, ?_⟩
    · show (Function.update k.tcbUsed t false, Function.update (k.setTcb t .zero).tid t 0, _) = _
      rw [tids, Function.update_idem]
      rfl
    · cases p <;> exact ⟨cleared, wiped⟩
  | drop p =>
    simp only [freeStep]
    split
    next => exact ⟨rfl, cleared⟩
    next => exact ⟨rfl, cleared⟩
  | wipeProc p => exact ⟨rfl, cleared⟩

theorem freeRun_tids {fuel : Nat} {stage : FreePc} (cleared : stage.Cleared k t)
    (h : freeRun fuel k t stage = some k') : k'.tids = k.tidsWithout t := by
  induction fuel generalizing k stage with
  | zero => cases h
  | succ fuel ih =>
    obtain ⟨same, next⟩ := freeStep_tids k t cleared
    simp only [freeRun] at h
    cases step : freeStep k t stage with
    | mk k₁ after =>
      rw [step] at h same next
      cases after with
      | some stage' => exact (ih next h).trans same
      | none =>
        cases h
        rw [← same, KernelState.tidsWithout, ← next.1, Function.update_eq_self, ← next.2,
          Function.update_eq_self]
        rfl

theorem endThread_tids (k : KernelState) (t : Slot) :
    (endThread k t).tids = k.tids ∨ (endThread k t).tids = k.tidsWithout t := by
  unfold endThread
  cases removed : schedRemoveThreadRaw k t with
  | none => exact .inl rfl
  | some k₁ =>
    obtain ⟨k₂, freed, _⟩ := taskFreeThread_ends k₁ t
    have start : FreePc.find.Cleared k₁ t := trivial
    refine .inr ?_
    rw [Option.bind_some, freed, Option.getD_some, freeRun_tids start freed]
    exact tidsWithout_of_tids (unscheduled_tids.remove removed)

/-- A creation takes a free TCB and the next tid, or changes neither. -/
theorem createThread_tids (k : KernelState) (a : CreateArgs) :
    ((createThread k a).2 = none ∧ (createThread k a).1.tids = k.tids) ∨
      ∃ t, (createThread k a).2 = some t ∧ k.tcbUsed t = false ∧
        (createThread k a).1.tids =
          (Function.update k.tcbUsed t true, Function.update k.tid t k.nextTid, k.nextTid + 1) := by
  unfold createThread
  cases found : findFreeSlot k with
  | none => exact .inl ⟨rfl, rfl⟩
  | some t =>
    have free : k.tcbUsed t = false := by simpa using List.find?_some found
    dsimp only
    split
    next =>
      refine .inr ⟨t, rfl, free, ?_⟩
      have made : (initThread (setUsed k t true) t a).tids =
          (Function.update k.tcbUsed t true, Function.update k.tid t k.nextTid, k.nextTid + 1) := by
        have tids : (initThread (setUsed k t true) t a).tid = Function.update k.tid t k.nextTid := by
          funext u
          by_cases eq : u = t
          · subst eq
            simp [initThread, KernelState.tid, KernelState.setTcb, setUsed]
          · simp [initThread, KernelState.tid, KernelState.setTcb, setUsed, eq]
        rw [KernelState.tids, tids]
        rfl
      generalize initThread (setUsed k t true) t a = k₁ at made ⊢
      have linked : (match a.proc with
          | none => k₁
          | some p =>
            if (k₁.pcb p).threadCount < maxThreads then linkThread k₁ t p (k₁.pcb p).threadCount
            else k₁).tids = k₁.tids := by
        cases a.proc with
        | none => rfl
        | some p => dsimp only; split <;> rfl
      rw [← made, ← linked]
      generalize (match a.proc with
          | none => k₁
          | some p =>
            if (k₁.pcb p).threadCount < maxThreads then linkThread k₁ t p (k₁.pcb p).threadCount
            else k₁) = k₂
      cases added : schedAddThreadRaw k₂ t with
      | none => rfl
      | some k₃ => exact unscheduled_tids.add added
    next =>
      refine .inl ⟨rfl, ?_⟩
      have back : Function.update (Function.update k.tcbUsed t true) t false = k.tcbUsed := by
        rw [Function.update_idem, ← free, Function.update_eq_self]
      show (Function.update (Function.update k.tcbUsed t true) t false, _) = _
      rw [back]
      rfl

theorem taskCreateProcess_tids (k : KernelState) (pid : UInt32) :
    (taskCreateProcess k pid).tids = k.tids := by
  unfold taskCreateProcess
  split <;> rfl

end

/-! ### Numbered threads -/

/-- Of `n` threads created, those in use have different numbers from 1 to `n`. -/
structure Numbered (k : KernelState) (n : Nat) : Prop where
  few : n < 2 ^ 32 - 1
  next : k.nextTid.toNat = n + 1
  number : ∀ t, k.tcbUsed t = true → 0 < (k.tid t).toNat ∧ (k.tid t).toNat ≤ n
  distinct : ∀ t u, k.tcbUsed t = true → k.tcbUsed u = true → k.tid t = k.tid u → t = u

namespace Numbered

variable {k k' : KernelState} {n : Nat} {t : Slot}

theorem taskInit : Numbered PicoOS.Kernel.taskInit 0 :=
  ⟨by decide, rfl, nofun, nofun⟩

theorem unique (h : Numbered k n) : TidsUnique k where
  distinct := h.distinct
  found t used := by
    cases search : taskFindThread k (k.tid t) with
    | none =>
      have absent := List.find?_eq_none.mp search t (List.mem_finRange t)
      simp [used, KernelState.tid] at absent
    | some u =>
      have here := List.find?_some search
      simp only [Bool.and_eq_true, beq_iff_eq] at here
      rw [h.distinct u t here.1 used here.2]
  reserved t used := by
    have few := h.few
    obtain ⟨positive, bound⟩ := h.number t used
    constructor
    · intro zero
      rw [zero] at positive
      exact Nat.lt_irrefl 0 positive
    · intro none
      rw [none, show noOwner.toNat = 2 ^ 32 - 1 from rfl] at bound
      omega

/-- Where threads only go. -/
theorem fewer (h : Numbered k n) (next : k'.nextTid = k.nextTid)
    (stays : ∀ u, k'.tcbUsed u = true → k.tcbUsed u = true ∧ k'.tid u = k.tid u) :
    Numbered k' n where
  few := h.few
  next := by rw [next, h.next]
  number u used := by
    obtain ⟨before, same⟩ := stays u used
    rw [same]
    exact h.number u before
  distinct u v used used' same := by
    obtain ⟨before, tid⟩ := stays u used
    obtain ⟨before', tid'⟩ := stays v used'
    exact h.distinct u v before before' (by rw [← tid, ← tid', same])

theorem same (h : Numbered k n) (tids : k'.tids = k.tids) : Numbered k' n := by
  simp only [KernelState.tids, Prod.mk.injEq] at tids
  obtain ⟨used, tid, next⟩ := tids
  exact h.fewer next fun u now => ⟨used ▸ now, congrFun tid u⟩

theorem without (h : Numbered k n) (tids : k'.tids = k.tidsWithout t) : Numbered k' n := by
  simp only [KernelState.tids, KernelState.tidsWithout, Prod.mk.injEq] at tids
  obtain ⟨used, tid, next⟩ := tids
  refine h.fewer next fun u now => ?_
  have other : u ≠ t := by
    rintro rfl
    rw [used, Function.update_self] at now
    cases now
  rw [used, Function.update_of_ne other] at now
  rw [tid, Function.update_of_ne other]
  exact ⟨now, rfl⟩

/-- The next thread has the next number. -/
theorem create (h : Numbered k n)
    (tids : k'.tids =
      (Function.update k.tcbUsed t true, Function.update k.tid t k.nextTid, k.nextTid + 1))
    (more : n + 1 < 2 ^ 32 - 1) : Numbered k' (n + 1) := by
  simp only [KernelState.tids, Prod.mk.injEq] at tids
  obtain ⟨used, tid, next⟩ := tids
  have number (u : Slot) (now : k'.tcbUsed u = true) :
      u = t ∧ (k'.tid u).toNat = n + 1 ∨
        u ≠ t ∧ k.tcbUsed u = true ∧ k'.tid u = k.tid u := by
    by_cases own : u = t
    · subst own
      exact .inl ⟨rfl, by rw [tid, Function.update_self, h.next]⟩
    · rw [used, Function.update_of_ne own] at now
      exact .inr ⟨own, now, by rw [tid, Function.update_of_ne own]⟩
  refine ⟨more, ?_, fun u now => ?_, fun u v now now' same => ?_⟩
  · rw [next, UInt32.toNat_add, h.next, UInt32.toNat_one, Nat.mod_eq_of_lt (by omega)]
  · rcases number u now with ⟨_, last⟩ | ⟨_, before, old⟩
    · omega
    · have bound := h.number u before
      rw [old]
      omega
  · rcases number u now with ⟨own, last⟩ | ⟨_, before, old⟩ <;>
      rcases number v now' with ⟨own', last'⟩ | ⟨_, before', old'⟩
    · rw [own, own']
    · have bound := h.number v before'
      rw [same, old'] at last
      omega
    · have bound := h.number u before
      rw [← same, old] at last'
      omega
    · exact h.distinct u v before before' (by rw [← old, ← old', same])

/-- A step that creates no thread. -/
theorem step (h : Numbered k n) {op : TaskOp} (none : creates k op = false) :
    Numbered (taskStep k op) n := by
  cases op with
  | process pid => exact h.same (taskCreateProcess_tids k pid)
  | ends t =>
    rcases endThread_tids k t with same | gone
    · exact h.same same
    · exact h.without gone
  | create a =>
    rcases createThread_tids k a with ⟨_, same⟩ | ⟨t, made, _⟩
    · exact h.same same
    · rw [creates, made] at none
      cases none

/-- Thread number 2^32 - 1 has a tid that stands for no thread. -/
theorem overrun (h : Numbered k n) {op : TaskOp} (some : creates k op = true)
    (last : n + 1 = 2 ^ 32 - 1) : ¬ TidsUnique (taskStep k op) := by
  cases op with
  | process pid => cases some
  | ends t => cases some
  | create a =>
    rcases createThread_tids k a with ⟨failed, _⟩ | ⟨t, _, _, tids⟩
    · rw [creates, failed] at some
      cases some
    · simp only [KernelState.tids, Prod.mk.injEq] at tids
      obtain ⟨used, tid, _⟩ := tids
      intro unique
      refine (unique.reserved t (by rw [taskStep, used, Function.update_self])).2 ?_
      rw [taskStep, tid, Function.update_self]
      apply UInt32.toNat_inj.mp
      rw [h.next, last]
      rfl

theorem stepCreate (h : Numbered k n) {op : TaskOp} (some : creates k op = true)
    (more : n + 1 < 2 ^ 32 - 1) : Numbered (taskStep k op) (n + 1) := by
  cases op with
  | process pid => cases some
  | ends t => cases some
  | create a =>
    rcases createThread_tids k a with ⟨failed, _⟩ | ⟨t, _, _, tids⟩
    · rw [creates, failed] at some
      cases some
    · exact h.create tids more

/-- Tids are unique in every state of a run as long as its threads have numbers. -/
theorem run_iff (h : Numbered k n) (ops : List TaskOp) :
    (∀ pre, pre <+: ops → TidsUnique (Run.exec taskStep k pre)) ↔
      n + created k ops < 2 ^ 32 - 1 := by
  induction ops generalizing k n with
  | nil => simpa [created, h.unique] using h.few
  | cons op ops ih =>
    have later (throughout : ∀ pre, pre <+: op :: ops → TidsUnique (Run.exec taskStep k pre)) :
        ∀ pre, pre <+: ops → TidsUnique (Run.exec taskStep (taskStep k op) pre) :=
      fun pre h => throughout (op :: pre) (List.cons_prefix_cons.mpr ⟨rfl, h⟩)
    have both (rest : ∀ pre, pre <+: ops → TidsUnique (Run.exec taskStep (taskStep k op) pre)) :
        ∀ pre, pre <+: op :: ops → TidsUnique (Run.exec taskStep k pre) := by
      intro pre prefix_
      cases pre with
      | nil => exact h.unique
      | cons b bs =>
        obtain ⟨rfl, inside⟩ := List.cons_prefix_cons.mp prefix_
        exact rest bs inside
    cases made : creates k op with
    | false =>
      rw [created, made, Bool.toNat_false, Nat.zero_add, ← ih (h.step made)]
      exact ⟨later, both⟩
    | true =>
      rw [created, made, Bool.toNat_true]
      by_cases more : n + 1 < 2 ^ 32 - 1
      · rw [← Nat.add_assoc, ← ih (h.stepCreate made more)]
        exact ⟨later, both⟩
      · have few := h.few
        refine iff_of_false (fun throughout => ?_) (by omega)
        exact h.overrun made (by omega) (throughout [op] (by simp))

end Numbered

/-- In every state of a run from boot a tid names one thread, and none of those that stand for no
thread, if and only if the run creates fewer than 2^32 - 1 threads. -/
theorem tids_unique_iff (ops : List TaskOp) :
    (∀ pre, pre <+: ops → TidsUnique (Run.exec taskStep taskInit pre)) ↔
      created taskInit ops < 2 ^ 32 - 1 := by
  have run := Numbered.taskInit.run_iff ops
  rw [Nat.zero_add] at run
  exact run

/-! ### A long uptime -/

def idleArgs : CreateArgs := ⟨none, 7, true⟩
def workerArgs : CreateArgs := ⟨none, 4, true⟩

/-- One thread that stays, and `n` workers, one after the other. -/
def uptime (n : Nat) : List TaskOp :=
  .create idleArgs :: (List.replicate n [.create workerArgs, .ends 1]).flatten

/-- The first thread is there, and the next worker finds the second TCB and an empty queue. -/
structure Between (k : KernelState) (next : UInt32) : Prop where
  used : k.tcbUsed = fun u => decide (u = 0)
  processes : k.pcbUsed = fun _ => false
  queue : k.readyQueues 4 = none
  first : k.tid 0 = 1
  nextTid : k.nextTid = next

namespace Between

variable {k : KernelState} {next : UInt32}

theorem slot (h : Between k next) : findFreeSlot k = some 1 := by
  rw [findFreeSlot, h.used]
  decide

theorem idle : Between (taskStep taskInit (.create idleArgs)) 2 :=
  ⟨by decide, rfl, rfl, rfl, rfl⟩

/-- A worker has its TCB and its ready queue for itself. -/
theorem worker (h : Between k next) :
    taskStep k (.create workerArgs) =
      ((initThread (setUsed k 1 true) 1 workerArgs).setNext 1 none).setReady 4 (some 1) := by
  have prio : ((initThread (setUsed k 1 true) 1 workerArgs).setNext 1 none).prio 1 = 4 := by
    simp [KernelState.prio, KernelState.setNext, KernelState.setTcb, initThread, workerArgs,
      numPriorities]
  have empty : ((initThread (setUsed k 1 true) 1 workerArgs).setNext 1 none).readyQueues 4 =
      none := h.queue
  have added : schedAddThreadRaw (initThread (setUsed k 1 true) 1 workerArgs) 1 =
      some (((initThread (setUsed k 1 true) 1 workerArgs).setNext 1 none).setReady 4 (some 1)) := by
    simp only [schedAddThreadRaw, prio, empty]
  rw [taskStep, createThread, h.slot]
  show (schedAddThreadRaw (initThread (setUsed k 1 true) 1 workerArgs) 1).getD _ = _
  rw [added]
  rfl

/-- It leaves both as it found them. -/
theorem pair (h : Between k next) :
    Between (taskStep (taskStep k (.create workerArgs)) (.ends 1)) (next + 1) := by
  rw [h.worker]
  let k₁ := ((initThread (setUsed k 1 true) 1 workerArgs).setNext 1 none).setReady 4 (some 1)
  let k₂ := (k₁.setReady 4 none).setNext 1 none
  have prio : k₁.prio 1 = 4 := by
    simp [k₁, KernelState.prio, KernelState.setReady, KernelState.setNext, KernelState.setTcb,
      initThread, workerArgs, numPriorities]
  have head : k₁.readyQueues 4 = some 1 := by simp [k₁, KernelState.setReady]
  have alone : k₁.next 1 = none := by
    simp [k₁, KernelState.next, KernelState.setReady, KernelState.setNext, KernelState.setTcb]
  have removed : schedRemoveThreadRaw k₁ 1 = some k₂ := by
    simp only [schedRemoveThreadRaw, prio, head, Chain.seek, if_true, Option.map_some, alone]
    rfl
  have nobody : taskFindProcess k₂ (k₂.tcb 1).pid = none := by
    have processes : k₂.pcbUsed = fun _ => false := h.processes
    simp [taskFindProcess, processes]
  have freed : taskFreeThread k₂ 1 = some ((setUsed k₂ 1 false).setTcb 1 .zero) := by
    simp only [taskFreeThread, freeWork, nobody, freeRun, freeStep, Option.map_none]
  show Between (endThread k₁ 1) (next + 1)
  rw [endThread, removed, Option.bind_some, freed, Option.getD_some]
  refine ⟨?_, h.processes, ?_, ?_, ?_⟩
  · show Function.update (Function.update k.tcbUsed 1 true) 1 false = _
    rw [Function.update_idem, h.used]
    decide
  · simp [k₂, KernelState.setTcb, setUsed, KernelState.setNext, KernelState.setReady]
  · have first := h.first
    simp only [KernelState.tid] at first
    simp [k₂, k₁, KernelState.tid, KernelState.setTcb, setUsed, KernelState.setNext,
      KernelState.setReady, initThread, first]
  · show k.nextTid + 1 = next + 1
    rw [h.nextTid]

theorem pairs (h : Between k next) (n : Nat) :
    Between (Run.exec taskStep k (List.replicate n [.create workerArgs, .ends 1]).flatten)
      (next + UInt32.ofNat n) := by
  induction n generalizing k next with
  | zero => simpa using h
  | succ n ih =>
    have rest := ih h.pair
    have count : next + 1 + UInt32.ofNat n = next + UInt32.ofNat (n + 1) := by
      rw [UInt32.add_assoc, UInt32.add_comm 1, UInt32.ofNat_add]
      rfl
    rw [count] at rest
    rw [List.replicate_succ, List.flatten_cons, Run.exec_append]
    exact rest

theorem uptime (n : Nat) :
    Between (Run.exec taskStep taskInit (PicoOS.Kernel.uptime n)) (2 + UInt32.ofNat n) :=
  idle.pairs n

/-- Once the counter has come round, a worker has the tid of the thread that stays. -/
theorem round (h : Between k 1) :
    let k' := taskStep k (.create workerArgs)
    k'.tcbUsed 0 = true ∧ k'.tid 0 = 1 ∧ k'.tcbUsed 1 = true ∧ k'.tid 1 = 1 := by
  have made : (createThread k workerArgs).2 = some 1 := by
    rw [createThread, h.slot]
    rfl
  rcases createThread_tids k workerArgs with ⟨failed, _⟩ | ⟨t, slot, _, tids⟩
  · rw [made] at failed
    cases failed
  · cases made.symm.trans slot
    simp only [KernelState.tids, Prod.mk.injEq] at tids
    obtain ⟨used, tid, -⟩ := tids
    simp only [taskStep, used, tid, h.used, h.nextTid]
    exact ⟨by decide, h.first, by decide, Function.update_self ..⟩

end Between

/-- After 2^32 - 1 workers the next one has the tid of the thread that stays. -/
theorem second_tid_one :
    let k := Run.exec taskStep taskInit (uptime (2 ^ 32 - 1) ++ [.create workerArgs])
    (k.tcbUsed 0 = true ∧ k.tid 0 = 1 ∧ k.tcbUsed 1 = true ∧ k.tid 1 = 1) ∧ ¬ TidsUnique k := by
  have last := Between.uptime (2 ^ 32 - 1)
  rw [show (2 : UInt32) + UInt32.ofNat (2 ^ 32 - 1) = 1 by decide] at last
  have both := last.round
  rw [Run.exec_append, Run.exec_cons, Run.exec_nil]
  refine ⟨both, fun unique => ?_⟩
  have same := unique.distinct 0 1 both.1 both.2.2.1 (by rw [both.2.1, both.2.2.2])
  cases same

end PicoOS.Kernel
