import PicoOS.Kernel.Tids
import PicoOS.Kernel.Pids
import PicoOS.Mem.Run
import PicoOS.Lib.Run
import PicoOS.Lib.Groups
import Mathlib

/-!
# The thread and process tables

The calls of `task.c` as wholes, with the heap that stacks come from. The TCBs of
a process are a group of items: a thread joins it when it is created and leaves
it when it is freed, and the process goes with its last thread.
-/
namespace PicoOS.Kernel

open KernelState

/-! ### What the scheduler leaves alone -/

/-- The pools, and the PID of each TCB. -/
def KernelState.tables (k : KernelState) :
    (Slot → Bool) × (Slot → UInt32) × (ProcSlot → Bool) × (ProcSlot → Pcb) :=
  (k.tcbUsed, fun t => (k.tcb t).pid, k.pcbUsed, k.pcb)

theorem KernelState.unscheduled_tables : Unscheduled KernelState.tables where
  tcb k t v _ pid _ := by
    have pids : (fun u => ((k.setTcb t v).tcb u).pid) = fun u => (k.tcb u).pid := by
      funext u
      by_cases own : u = t
      · subst own
        simp [setTcb, pid]
      · simp [setTcb, own]
    exact congrArg (fun f => (k.tcbUsed, f, k.pcbUsed, k.pcb)) pids
  ready _ _ _ := rfl

theorem schedPick_tables {k k' : KernelState} {core : Core} {cur r : Option Slot}
    (picked : schedPick k core cur = some (k', r)) : k'.tables = k.tables :=
  unscheduled_tables.pick (fun _ _ _ => rfl) picked

/-! ### task_free_thread as a whole -/

/-- `task_free_thread` goes from the stage to the state it returns in. -/
def Frees (k : KernelState) (t : Slot) (stage : FreePc) (k' : KernelState) : Prop :=
  ∃ n, freeRun n k t stage = some k'

namespace Frees

variable {k k₁ k' : KernelState} {t : Slot} {stage stage' : FreePc} {p : ProcSlot}

theorem step (next : freeStep k t stage = (k₁, some stage')) (h : Frees k₁ t stage' k') :
    Frees k t stage k' := by
  obtain ⟨n, ran⟩ := h
  exact ⟨n + 1, by rw [freeRun, next]; exact ran⟩

theorem done (last : freeStep k t stage = (k', none)) : Frees k t stage k' :=
  ⟨1, by rw [freeRun, last]⟩

theorem freeRun_more {n m : Nat} (more : n ≤ m) (ran : freeRun n k t stage = some k') :
    freeRun m k t stage = some k' := by
  induction n generalizing m k stage with
  | zero => cases ran
  | succ n ih =>
    obtain ⟨m, rfl⟩ := Nat.exists_eq_add_of_le' (Nat.zero_lt_of_lt more)
    rw [freeRun] at ran ⊢
    cases next : freeStep k t stage with
    | mk k₁ after =>
      rw [next] at ran
      cases after with
      | none => exact ran
      | some stage' => exact ih (Nat.le_of_succ_le_succ more) ran

theorem taskFreeThread (h : Frees k t .find k') : taskFreeThread k t = some k' := by
  obtain ⟨n, ran⟩ := h
  obtain ⟨k'', ends, _⟩ := taskFreeThread_ends k t
  have left := freeRun_more (Nat.le_max_left n (freeWork k t .find)) ran
  have right := freeRun_more (Nat.le_max_right n (freeWork k t .find)) ends
  rw [ends, ← right, left]

end Frees

/-- The PCB with other threads. -/
def withThreads (k : KernelState) (p : ProcSlot) (threads : Nat → Option Slot) (n : Nat) :
    KernelState :=
  k.setPcb p { k.pcb p with threads := threads, threadCount := n }

section

variable {k k' : KernelState} {t : Slot} {p : ProcSlot} {f : Nat → Option Slot} {n : Nat}

@[simp] theorem withThreads_pcb :
    (withThreads k p f n).pcb p = { k.pcb p with threads := f, threadCount := n } := by
  simp [withThreads, setPcb]

@[simp] theorem setThread_withThreads (i : Nat) (v : Option Slot) :
    setThread (withThreads k p f n) p i v = withThreads k p (Function.update f i v) n := by
  rw [setThread, withThreads_pcb]
  simp [withThreads, setPcb]

theorem setThreadCount_eq : setThreadCount k p n = withThreads k p (k.pcb p).threads n := rfl

/-- The scan stops at the thread. -/
theorem Frees.scan {i d : Nat} (inside : i + d < (k.pcb p).threadCount)
    (at_ : (k.pcb p).threads (i + d) = some t)
    (first : ∀ j, i ≤ j → j < i + d → (k.pcb p).threads j ≠ some t)
    (h : Frees (withThreads k p (k.pcb p).threads ((k.pcb p).threadCount - 1)) t
      (.shift p (i + d)) k') : Frees k t (.scan p i) k' := by
  induction d generalizing i with
  | zero =>
    refine .step ?_ h
    simp only [freeStep, if_pos (show i < (k.pcb p).threadCount from inside),
      if_pos (show (k.pcb p).threads i = some t from at_), setThreadCount_eq]
    rfl
  | succ d ih =>
    have more : i < (k.pcb p).threadCount := by omega
    have other := first i (Nat.le_refl _) (by omega)
    have shift : i + (d + 1) = i + 1 + d := by omega
    rw [shift] at inside at_ first h
    have next : freeStep k t (.scan p i) = (k, some (.scan p (i + 1))) := by
      simp only [freeStep, if_pos more, if_neg other]
    exact .step next (ih inside at_ (fun j above below => first j (by omega) below) h)

/-- The shift leaves the list without its entry at `i`. -/
theorem Frees.shift {l : List Slot} {i d : Nat} (inside : i < l.length)
    (left : i ≤ (l.eraseIdx i).length - d)
    (h : Frees (withThreads k p (fun j => (l.eraseIdx i)[j]?) (l.eraseIdx i).length) t
      (.clear (some p)) k') (small : d ≤ (l.eraseIdx i).length) :
    Frees (withThreads k p
      (fun j => if j < (l.eraseIdx i).length - d then (l.eraseIdx i)[j]? else l[j]?)
      (l.eraseIdx i).length) t (.shift p ((l.eraseIdx i).length - d)) k' := by
  have length : (l.eraseIdx i).length = l.length - 1 := by
    rw [List.length_eraseIdx_of_lt inside]
  induction d with
  | zero =>
    refine .step ?_ h
    simp only [freeStep, withThreads_pcb, Nat.sub_zero, Nat.lt_irrefl, if_false,
      setThread_withThreads]
    congr 1
    congr 1
    funext j
    by_cases last : j = (l.eraseIdx i).length
    · subst last
      simp
    · rw [Function.update_of_ne last]
      split
      next => rfl
      next above => rw [List.getElem?_eq_none (by omega), List.getElem?_eq_none (by omega)]
  | succ d ih =>
    refine .step ?_ (ih (by omega) (by omega))
    have more : (l.eraseIdx i).length - (d + 1) < (l.eraseIdx i).length := by omega
    have next : (l.eraseIdx i).length - (d + 1) + 1 = (l.eraseIdx i).length - d := by omega
    simp only [freeStep, withThreads_pcb, if_pos more, setThread_withThreads, next]
    congr 1
    congr 1
    funext j
    by_cases here : j = (l.eraseIdx i).length - (d + 1)
    · subst here
      rw [Function.update_self, if_neg (by omega), if_pos (by omega), List.getElem?_eraseIdx,
        if_neg (by omega)]
      congr 1
      omega
    · rw [Function.update_of_ne here]
      by_cases below : j < (l.eraseIdx i).length - (d + 1)
      · rw [if_pos below, if_pos (by omega)]
      · rw [if_neg below, if_neg (by omega)]

/-- The TCB is free and cleared. -/
def withoutTcb (k : KernelState) (t : Slot) : KernelState := (setUsed k t false).setTcb t .zero

/-- `task_free_process`. -/
def taskFreeProcess (k : KernelState) (p : ProcSlot) : KernelState :=
  (setPcbUsed k p false).setPcb p .zero

theorem Frees.clear (owner : Option ProcSlot) :
    Frees k t (.clear owner) (match owner with
      | none => withoutTcb k t
      | some p =>
        if (k.pcb p).threadCount = 0 then taskFreeProcess (withoutTcb k t) p
        else withoutTcb k t) := by
  have marked : freeStep k t (.clear owner) = (setUsed k t false, some (.wipe owner)) := rfl
  refine .step marked ?_
  cases owner with
  | none => exact .done rfl
  | some p =>
    have wiped : freeStep (setUsed k t false) t (.wipe (some p)) =
        (withoutTcb k t, some (.drop p)) := rfl
    refine .step wiped ?_
    dsimp only
    split
    next last =>
      have dropped : freeStep (withoutTcb k t) t (.drop p) =
          (setPcbUsed (withoutTcb k t) p false, some (.wipeProc p)) := if_pos last
      exact .step dropped (.done rfl)
    next more => exact .done (if_neg more)

/-- `task_free_thread` of a thread on the list of its process. -/
theorem Frees.member {l : List Slot} (found : taskFindProcess k (k.tcb t).pid = some p)
    (threads : (k.pcb p).threads = fun i => l[i]?) (count : (k.pcb p).threadCount = l.length)
    (member : t ∈ l) :
    Frees k t .find
      (if l.erase t = [] then
        taskFreeProcess
          (withoutTcb (withThreads k p (fun i => (l.erase t)[i]?) (l.erase t).length) t) p
      else withoutTcb (withThreads k p (fun i => (l.erase t)[i]?) (l.erase t).length) t) := by
  have place := List.idxOf_lt_length_of_mem member
  rw [← List.eraseIdx_idxOf_eq_erase t l]
  generalize at_ : l.idxOf t = i at place
  have here : l[i]? = some t := by
    subst at_
    rw [List.getElem?_eq_getElem place, List.getElem_idxOf]
  have before (j : Nat) (below : j < i) : l[j]? ≠ some t := by
    intro same
    rw [← at_] at below
    rw [List.getElem?_eq_getElem (by omega), Option.some.injEq] at same
    have other := List.not_of_lt_findIdx below
    simp [same] at other
  have shorter : (l.eraseIdx i).length = l.length - 1 := List.length_eraseIdx_of_lt place
  have cleared := Frees.clear (k := withThreads k p (fun j => (l.eraseIdx i)[j]?)
    (l.eraseIdx i).length) (t := t) (some p)
  simp only [withThreads_pcb, List.length_eq_zero_iff] at cleared
  have shifted := Frees.shift (d := l.length - 1 - i) place (by omega) cleared (by omega)
  -- In front of the entry both lists are the same.
  have start : withThreads k p (k.pcb p).threads ((k.pcb p).threadCount - 1) =
      withThreads k p (fun j => if j < (l.eraseIdx i).length - (l.length - 1 - i) then
        (l.eraseIdx i)[j]? else l[j]?) (l.eraseIdx i).length := by
    rw [threads, count, shorter]
    congr 1
    funext j
    split
    next below => rw [List.getElem?_eraseIdx, if_pos (by omega)]
    next => rfl
  have stop : (l.eraseIdx i).length - (l.length - 1 - i) = 0 + i := by omega
  rw [← start, stop] at shifted
  have scanned := Frees.scan (i := 0) (by omega) (by rw [threads, Nat.zero_add]; exact here)
    (fun j _ below => by rw [threads]; exact before j (by omega)) shifted
  refine .step ?_ scanned
  simp only [freeStep, found]

end

/-- What is in the tables of a new thread's TCB once the scheduler has it. -/
theorem added_tables (k : KernelState) (t : Slot) :
    ((schedAddThreadRaw k t).getD k).tables = k.tables := by
  cases added : schedAddThreadRaw k t with
  | none => rfl
  | some k' => exact unscheduled_tables.add added

theorem createThread_used {k : KernelState} {t : Slot} {a : CreateArgs} (heap : a.heap = true)
    (found : findFreeSlot k = some t) :
    (Kernel.createThread k a).1.tcbUsed = Function.update k.tcbUsed t true := by
  rcases createThread_tids k a with ⟨failed, _⟩ | ⟨u, made, _, tids⟩
  · simp [Kernel.createThread, found, heap] at failed
  · have own : u = t := by simpa [Kernel.createThread, found, heap, eq_comm] using made
    simp only [KernelState.tids, Prod.mk.injEq] at tids
    rw [tids.1, own]

/-! ### The tables as groups of threads -/

/-- The tables show the threads that belong to a process, and the processes with their lists. -/
structure Represents (k : KernelState) (g : Groups Slot ProcSlot UInt32) : Prop where
  key : ∀ t, g.key t = if (k.tcb t).pid = 0 then none else some (k.tcb t).pid
  unused : ∀ t, k.tcbUsed t = false → (k.tcb t).pid = 0
  idle : ∀ p, g.group p = none → k.pcbUsed p = false ∧ k.pcb p = .zero
  busy : ∀ p pid l, g.group p = some (pid, l) → k.pcbUsed p = true ∧ (k.pcb p).pid = pid ∧
    pid ≠ 0 ∧ (k.pcb p).threadCount = l.length ∧ ∀ i, (k.pcb p).threads i = l[i]?

namespace Represents

variable {k k' : KernelState} {g : Groups Slot ProcSlot UInt32} {t : Slot} {p : ProcSlot}
  {pid : UInt32} {l : List Slot}

theorem congr (h : Represents k g) (same : k'.tables = k.tables) : Represents k' g := by
  simp only [KernelState.tables, Prod.mk.injEq] at same
  obtain ⟨used, pids, procs, pcbs⟩ := same
  have pids (t : Slot) : (k'.tcb t).pid = (k.tcb t).pid := congrFun pids t
  refine ⟨fun t => ?_, fun t => ?_, fun p => ?_, fun p => ?_⟩
  · rw [pids]
    exact h.key t
  · rw [used, pids]
    exact h.unused t
  · rw [procs, pcbs]
    exact h.idle p
  · rw [procs, pcbs]
    exact h.busy p

theorem used_iff (h : Represents k g) (p : ProcSlot) :
    k.pcbUsed p = true ↔ ∃ pid l, g.group p = some (pid, l) := by
  cases group : g.group p with
  | none => simp [(h.idle p group).1]
  | some v => exact iff_of_true (h.busy p v.1 v.2 group).1 ⟨v.1, v.2, rfl⟩

/-- `task_find_process` finds the group of the PID. -/
theorem find_some (h : Represents k g) (found : taskFindProcess k pid = some p) :
    ∃ l, g.group p = some (pid, l) := by
  have here := List.find?_some found
  simp only [Bool.and_eq_true, beq_iff_eq] at here
  obtain ⟨pid', l, group⟩ := (h.used_iff p).mp here.1
  have own := (h.busy p pid' l group).2.1
  rw [here.2] at own
  exact ⟨l, own ▸ group⟩

theorem find_none (h : Represents k g) (absent : taskFindProcess k pid = none) :
    ∀ p l, g.group p ≠ some (pid, l) := by
  intro p l group
  obtain ⟨used, own, _⟩ := h.busy p pid l group
  have other := List.find?_eq_none.mp absent p (List.mem_finRange p)
  simp [used, own] at other

theorem find_eq (h : Represents k g) (sound : g.Sound) (group : g.group p = some (pid, l)) :
    taskFindProcess k pid = some p := by
  cases found : taskFindProcess k pid with
  | none => exact absurd group (h.find_none found p l)
  | some q =>
    obtain ⟨m, group'⟩ := h.find_some found
    rw [(sound.group_inj group' group).1]

theorem find_zero (h : Represents k g) : taskFindProcess k 0 = none := by
  cases found : taskFindProcess k 0 with
  | none => rfl
  | some p =>
    obtain ⟨l, group⟩ := h.find_some found
    exact absurd rfl (h.busy p 0 l group).2.2.1

/-- Other PIDs of the TCBs, and another entry in one slot. -/
theorem update (h : Represents k g) {key : Slot → Option UInt32}
    {out : Option (UInt32 × List Slot)}
    (keys : ∀ t, key t = if (k'.tcb t).pid = 0 then none else some (k'.tcb t).pid)
    (unused : ∀ t, k'.tcbUsed t = false → (k'.tcb t).pid = 0)
    (others : ∀ q, q ≠ p → k'.pcbUsed q = k.pcbUsed q ∧ k'.pcb q = k.pcb q)
    (idle : out = none → k'.pcbUsed p = false ∧ k'.pcb p = .zero)
    (busy : ∀ pid l, out = some (pid, l) → k'.pcbUsed p = true ∧ (k'.pcb p).pid = pid ∧ pid ≠ 0 ∧
      (k'.pcb p).threadCount = l.length ∧ ∀ i, (k'.pcb p).threads i = l[i]?) :
    Represents k' ⟨key, Function.update g.group p out⟩ := by
  refine ⟨keys, unused, fun q group => ?_, fun q pid l group => ?_⟩ <;> by_cases own : q = p
  · subst own
    have here : Function.update g.group q out q = none := group
    rw [Function.update_self] at here
    exact idle here
  · obtain ⟨used, pcb⟩ := others q own
    rw [used, pcb]
    exact h.idle q ((Function.update_of_ne own ..).symm.trans group)
  · subst own
    have here : Function.update g.group q out q = some (pid, l) := group
    rw [Function.update_self] at here
    exact busy pid l here
  · obtain ⟨used, pcb⟩ := others q own
    rw [used, pcb]
    exact h.busy q pid l ((Function.update_of_ne own ..).symm.trans group)

/-- A process opens in a free slot. -/
theorem create (h : Represents k g) (nonzero : pid ≠ 0) :
    Represents (fillProc (setPcbUsed k p true) p pid) (g.opens p pid) := by
  refine h.update h.key h.unused (fun q other => ?_) nofun fun pid' l group => ?_
  · simp [fillProc, setPcbUsed, setPcb, other]
  · cases group
    simp [fillProc, setPcbUsed, setPcb, nonzero]

/-- A process without threads goes. -/
theorem freeProcess (h : Represents k g) (p : ProcSlot) :
    Represents (taskFreeProcess k p) (g.closes p) := by
  refine h.update h.key h.unused (fun q other => ?_) (fun _ => ?_) nofun
  · simp [taskFreeProcess, setPcbUsed, setPcb, other]
  · simp [taskFreeProcess, setPcbUsed, setPcb]

theorem withoutTcb_pid (k : KernelState) (t u : Slot) :
    ((withoutTcb k t).tcb u).pid = if u = t then 0 else (k.tcb u).pid := by
  by_cases here : u = t
  · subst here
    simp [withoutTcb, setUsed, setTcb, Tcb.zero]
  · simp [withoutTcb, setUsed, setTcb, here]

theorem withoutTcb_unused (h : Represents k g) (t u : Slot)
    (now : (withoutTcb k t).tcbUsed u = false) : ((withoutTcb k t).tcb u).pid = 0 := by
  rw [withoutTcb_pid]
  by_cases here : u = t
  · rw [if_pos here]
  · rw [if_neg here]
    simp only [withoutTcb, setUsed, setTcb, Function.update_of_ne here] at now
    exact h.unused u now

/-- A TCB of no process goes. -/
theorem freeTcb (h : Represents k g) (nobody : (k.tcb t).pid = 0) :
    Represents (withoutTcb k t) g := by
  have pids (u : Slot) : ((withoutTcb k t).tcb u).pid = (k.tcb u).pid := by
    rw [withoutTcb_pid]
    split
    next here => rw [here, nobody]
    next => rfl
  refine ⟨fun u => ?_, h.withoutTcb_unused t, h.idle, h.busy⟩
  rw [pids]
  exact h.key u

/-- `task_free_thread` of a thread of a process: it leaves the list, and the process goes if the
list is then empty. -/
theorem leave (h : Represents k g) (sound : g.Sound) (group : g.group p = some (pid, l))
    (member : t ∈ l) :
    ∃ k', taskFreeThread k t = some k' ∧ k'.tcbUsed = Function.update k.tcbUsed t false ∧
      Represents k' (g.leaves p pid l t) := by
  obtain ⟨used, own, nonzero, count, threads⟩ := h.busy p pid l group
  have mine : (k.tcb t).pid = pid := by
    have key := (sound.mem p pid l group t).mp member
    rw [h.key] at key
    split at key
    next => cases key
    next => exact Option.some.inj key
  have found : taskFindProcess k (k.tcb t).pid = some p := mine ▸ h.find_eq sound group
  have ran := (Frees.member found (funext threads) count member).taskFreeThread
  have keys (u : Slot) : Function.update g.key t none u =
      if ((withoutTcb k t).tcb u).pid = 0 then none else some ((withoutTcb k t).tcb u).pid := by
    rw [withoutTcb_pid]
    by_cases here : u = t
    · subst here
      simp
    · rw [Function.update_of_ne here, if_neg here]
      exact h.key u
  by_cases last : l.erase t = []
  · rw [if_pos last] at ran
    refine ⟨_, ran, rfl, ?_⟩
    rw [Groups.leaves, if_pos last]
    refine h.update keys (h.withoutTcb_unused t) (fun q other => ?_) (fun _ => ?_)
      fun pid' l' busy => by cases busy
    · simp [taskFreeProcess, withoutTcb, withThreads, setPcbUsed, setUsed, setTcb, setPcb, other]
    · simp [taskFreeProcess, setPcbUsed, setPcb]
  · rw [if_neg last] at ran
    refine ⟨_, ran, rfl, ?_⟩
    rw [Groups.leaves, if_neg last]
    refine h.update keys (h.withoutTcb_unused t) (fun q other => ?_) (fun idle => by cases idle)
      fun pid' l' busy => ?_
    · simp [withoutTcb, withThreads, setUsed, setTcb, setPcb, other]
    · cases busy
      simp [withoutTcb, withThreads, setUsed, setTcb, setPcb, used, own, nonzero]

/-- A new thread joins the list of its process. -/
theorem join (h : Represents k g) (sound : g.Sound) (group : g.group p = some (pid, l))
    (free : k.tcbUsed t = false) (priority : UInt8) :
    let k₁ := initThread (setUsed k t true) t ⟨some p, priority, true⟩
    l.length < maxThreads ∧ (k₁.pcb p).threadCount = l.length ∧
      Represents (linkThread k₁ t p l.length) (g.joins p pid l t) := by
  intro k₁
  obtain ⟨used, own, nonzero, count, threads⟩ := h.busy p pid l group
  have pids (u : Slot) : (k₁.tcb u).pid = if u = t then pid else (k.tcb u).pid := by
    by_cases here : u = t
    · subst here
      simp [k₁, initThread, setUsed, setTcb, own]
    · simp [k₁, initThread, setUsed, setTcb, here]
  have fresh : t ∉ l := by
    intro member
    have key := (sound.mem p pid l group t).mp member
    rw [h.key, h.unused t free, if_pos rfl] at key
    cases key
  refine ⟨?_, count, h.update (fun u => ?_) (fun u now => ?_) (fun q other => ?_)
    (fun idle => by cases idle) fun pid' l' busy => ?_⟩
  · -- The list and the new thread are different TCBs of the pool.
    have distinct : (t :: l).Nodup := List.nodup_cons.mpr ⟨fresh, sound.nodup p pid l group⟩
    have few := distinct.length_le_card
    rw [Fintype.card_fin, List.length_cons] at few
    exact few
  · show Function.update g.key t (some pid) u =
      if (k₁.tcb u).pid = 0 then none else some (k₁.tcb u).pid
    rw [pids]
    by_cases here : u = t
    · subst here
      simp [nonzero]
    · rw [Function.update_of_ne here, if_neg here]
      exact h.key u
  · show (k₁.tcb u).pid = 0
    have before : Function.update k.tcbUsed t true u = false := now
    rw [pids]
    by_cases here : u = t
    · subst here
      rw [Function.update_self] at before
      cases before
    · rw [Function.update_of_ne here] at before
      rw [if_neg here]
      exact h.unused u before
  · simp [k₁, linkThread, setThread, setThreadCount, initThread, setUsed, setTcb, setPcb, other]
  · cases busy
    refine ⟨used, ?_, nonzero, ?_, fun i => ?_⟩
    · simp [k₁, linkThread, setThread, setThreadCount, initThread, setUsed, setTcb, setPcb, own]
    · simp [linkThread, setThreadCount, setPcb]
    · simp only [k₁, linkThread, setThread, setThreadCount, initThread, setUsed, setTcb, setPcb,
        Function.update_self]
      by_cases last : i = l.length
      · subst last
        simp
      · rw [Function.update_of_ne last, threads, List.getElem?_append]
        split
        next => rfl
        next => rw [List.getElem?_eq_none (by omega), List.getElem?_eq_none (by simp; omega)]

/-- A thread of no process. -/
theorem createAlone (h : Represents k g)
    (found : findFreeSlot k = some t) (priority : UInt8) :
    Represents (Kernel.createThread k ⟨none, priority, true⟩).1 g := by
  have free : k.tcbUsed t = false := by simpa using List.find?_some found
  have pids (u : Slot) :
      ((initThread (setUsed k t true) t ⟨none, priority, true⟩).tcb u).pid = (k.tcb u).pid := by
    by_cases here : u = t
    · subst here
      simp [initThread, setUsed, setTcb, h.unused u free]
    · simp [initThread, setUsed, setTcb, here]
  have base : Represents (initThread (setUsed k t true) t ⟨none, priority, true⟩) g := by
    refine ⟨fun u => ?_, fun u now => ?_, h.idle, h.busy⟩
    · rw [pids]
      exact h.key u
    · rw [pids]
      by_cases here : u = t
      · rw [here]
        exact h.unused t free
      · have before : Function.update k.tcbUsed t true u = false := now
        rw [Function.update_of_ne here] at before
        exact h.unused u before
  simp only [Kernel.createThread, found, if_true]
  exact base.congr (added_tables _ t)

theorem createIn (h : Represents k g) (sound : g.Sound)
    (found : findFreeSlot k = some t)
    (group : g.group p = some (pid, l)) (priority : UInt8) :
    Represents (Kernel.createThread k ⟨some p, priority, true⟩).1 (g.joins p pid l t) := by
  have free : k.tcbUsed t = false := by simpa using List.find?_some found
  obtain ⟨few, count, joined⟩ := h.join sound group free priority
  simp only [Kernel.createThread, found, if_true, count, if_pos few]
  exact joined.congr (added_tables _ t)

end Represents

/-! ### The calls as wholes -/

/-- `DEFAULT_STACK_SIZE`. -/
def defaultStackSize : UInt32 := 2048

/-- The statics of `task.c` with `stack_base` of each TCB, the scheduler's, and the heap. -/
structure Tables where
  k : KernelState
  ranges : PidRange → PidRangeInfo
  heap : Mem.Heap
  stackBase : Slot → Option Mem.Ptr

namespace Tables

def boot : Tables := ⟨taskInit, pidRanges, Mem.kmemInit, fun _ => none⟩

variable (s : Tables)

/-- `task_create_thread`, and the thread it returns. Every caller asks for a stack that the initial
frame fits in. As in all of these, `none` is a call that does not return. -/
def createThread (proc : Option ProcSlot) (priority : UInt8) (stackSize : UInt32) :
    Option (Tables × Option Slot) :=
  match findFreeSlot s.k with
  | none => some (s, none)
  | some t =>
    (Mem.kmalloc s.heap stackSize).map fun (heap, stack) =>
      let (k, made) := Kernel.createThread s.k ⟨proc, priority, stack.isSome⟩
      ({ s with
        k := k
        heap := heap
        stackBase := Function.update s.stackBase t stack }, made)

/-- `task_free_thread`. -/
def freeThread (t : Slot) : Option Tables :=
  (taskFreeThread s.k t).bind fun k =>
    (Mem.kfree s.heap (s.stackBase t)).map fun heap =>
      { s with
        k := k
        heap := heap
        stackBase := Function.update s.stackBase t none }

/-- `task_kill_thread`. -/
def killThread (core : Core) (t : Slot) : Option Tables :=
  (schedKill s.k core t).bind fun (k, freeNow) =>
    if freeNow then freeThread { s with k := k } t else some { s with k := k }

/-- `sched_next_thread`, which reaps the outgoing thread of the core. -/
def nextThread (core : Core) : Option Tables :=
  (schedNextThread s.k core).bind fun (k, _) =>
    match (s.k.currentTcb core).filter (reaps s.k) with
    | none => some { s with k := k }
    | some t =>
      (Mem.kfree s.heap (s.stackBase t)).map fun heap =>
        { s with
          k := k
          heap := heap
          stackBase := Function.update s.stackBase t none }

/-- `SYS_SPAWN`, and the PID it returns. -/
def sysSpawn : Option (Tables × Option UInt32) :=
  let (pid, range) := taskAllocPid s.k (s.ranges .spawn)
  let s := { s with ranges := Function.update s.ranges .spawn range }
  if pid = 0 then
    some (s, none)
  else
    match findFreeProc s.k pid with
    | none => some (s, none)
    | some p =>
      (createThread { s with k := taskCreateProcess s.k pid } (some p) 4 defaultStackSize).map
        fun (s, thread) =>
          match thread with
          | none => ({ s with k := taskFreeProcess s.k p }, none)
          | some _ => (s, some pid)

end Tables

/-- A call. Threads are created in no process or in a live one, processes are freed when they have
no threads, and `state` is what the rest of the kernel makes of a thread. -/
inductive TableOp where
  | process (pid : UInt32)
  | thread (proc : Option UInt32) (priority : UInt8) (stackSize : UInt32)
  | spawn
  | freeThread (t : Slot)
  | freeProcess (p : ProcSlot)
  | kill (core : Core) (t : Slot)
  | next (core : Core)
  | state (t : Slot) (state : ThreadState)

/-- A call that does not return changes nothing. -/
def Tables.step (s : Tables) : TableOp → Tables
  | .process pid => { s with k := taskCreateProcess s.k pid }
  | .thread none priority stackSize =>
    ((s.createThread none priority stackSize).map Prod.fst).getD s
  | .thread (some pid) priority stackSize =>
    match taskFindProcess s.k pid with
    | none => s
    | some p => ((s.createThread (some p) priority stackSize).map Prod.fst).getD s
  | .spawn => (s.sysSpawn.map Prod.fst).getD s
  | .freeThread t => (s.freeThread t).getD s
  | .freeProcess p =>
    if (s.k.pcb p).threadCount = 0 then { s with k := taskFreeProcess s.k p } else s
  | .kill core t => (s.killThread core t).getD s
  | .next core => (s.nextThread core).getD s
  | .state t state => { s with k := s.k.setState t state }

/-! ### What the calls keep -/

namespace Tables

/-- The tables are groups of threads, a TCB that is not in use has no stack, and the others each
have a block of the heap. -/
structure Sound (s : Tables) (g : Groups Slot ProcSlot UInt32) : Prop where
  tables : Represents s.k g
  groups : g.Sound
  stackBase : ∀ t, s.k.tcbUsed t = false → s.stackBase t = none
  owned : ∃ live, Mem.Owned ⟨s.heap, live⟩ s.stackBase

/-- The call keeps the tables, and each process that has a thread for as long as it has one. -/
def Keeps (g : Groups Slot ProcSlot UInt32) (s' : Tables) : Prop :=
  ∃ g', Sound s' g' ∧ g.Continues g'

section

variable {s s' : Tables} {g : Groups Slot ProcSlot UInt32} {t : Slot}

theorem Sound.boot : Sound boot Groups.empty where
  tables := ⟨fun _ => rfl, fun _ _ => rfl, fun _ _ => ⟨rfl, rfl⟩, nofun⟩
  groups := .empty
  stackBase _ _ := rfl
  owned := ⟨[], ⟨_, .init⟩, nofun, nofun⟩

namespace Sound

/-- The rest of the kernel. -/
theorem congr (h : Sound s g) {k : KernelState} (same : k.tables = s.k.tables) :
    Sound { s with k := k } g where
  tables := h.tables.congr same
  groups := h.groups
  stackBase t free := by
    simp only [KernelState.tables, Prod.mk.injEq] at same
    exact h.stackBase t (same.1 ▸ free)
  owned := h.owned

theorem keeps (h : Sound s g) : Keeps g s := ⟨g, h, .refl g⟩

/-- `task_free_thread` of any TCB. -/
theorem freeTables (h : Sound s g) (t : Slot) :
    ∃ k g', taskFreeThread s.k t = some k ∧ k.tcbUsed = Function.update s.k.tcbUsed t false ∧
      Represents k g' ∧ g'.Sound ∧ g.Continues g' := by
  by_cases nobody : (s.k.tcb t).pid = 0
  · have absent : taskFindProcess s.k (s.k.tcb t).pid = none := by
      rw [nobody]
      exact h.tables.find_zero
    have ran : Frees s.k t .find (withoutTcb s.k t) := by
      have searched : freeStep s.k t .find = (s.k, some (.clear none)) := by
        simp only [freeStep, absent]
      exact .step searched (.clear none)
    exact ⟨_, g, ran.taskFreeThread, rfl, h.tables.freeTcb nobody, h.groups, .refl g⟩
  · have key : g.key t = some (s.k.tcb t).pid := by rw [h.tables.key, if_neg nobody]
    obtain ⟨p, l, group⟩ := h.groups.owned t _ key
    have member := (h.groups.mem p _ l group t).mpr key
    obtain ⟨k, ran, used, tables⟩ := h.tables.leave h.groups group member
    exact ⟨k, _, ran, used, tables, h.groups.leaves group member,
      .leaves h.groups group member⟩

theorem stackBase_freed (h : Sound s g) {k : KernelState}
    (used : k.tcbUsed = Function.update s.k.tcbUsed t false) (u : Slot)
    (free : k.tcbUsed u = false) : Function.update s.stackBase t none u = none := by
  by_cases here : u = t
  · rw [here, Function.update_self]
  · rw [used, Function.update_of_ne here] at free
    rw [Function.update_of_ne here]
    exact h.stackBase u free

/-- The stack of a TCB goes back to the heap. -/
theorem kfree (h : Sound s g) (t : Slot) :
    ∃ heap, Mem.kfree s.heap (s.stackBase t) = some heap ∧
      ∃ live, Mem.Owned ⟨heap, live⟩ (Function.update s.stackBase t none) := by
  obtain ⟨live, owned⟩ := h.owned
  exact owned.kfree t

/-- It returns. -/
theorem freeThread (h : Sound s g) (t : Slot) :
    ∃ s', s.freeThread t = some s' ∧ Keeps g s' := by
  obtain ⟨k, g', freed, used, tables, groups, continues⟩ := h.freeTables t
  obtain ⟨heap, back, owned⟩ := h.kfree t
  refine ⟨{ s with k := k, heap := heap, stackBase := Function.update s.stackBase t none }, ?_, g',
    ⟨tables, groups, h.stackBase_freed used, owned⟩, continues⟩
  rw [Tables.freeThread, freed, Option.bind_some, back, Option.map_some]

theorem killThread (h : Sound s g) {core : Core} (ran : s.killThread core t = some s') :
    Keeps g s' := by
  obtain ⟨⟨k, now⟩, killed, ran⟩ := Option.bind_eq_some_iff.mp ran
  have sound := h.congr (unscheduled_tables.kill killed)
  dsimp only at ran
  split at ran
  next =>
    obtain ⟨s₁, freed, keeps⟩ := sound.freeThread t
    cases freed.symm.trans ran
    exact keeps
  next =>
    cases ran
    exact sound.keeps

end Sound

/-- `sched_next_thread` as far as the tables go. -/
theorem schedNextThread_tables {k k' : KernelState} {core : Core} {r : Option Slot}
    (h : schedNextThread k core = some (k', r)) :
    ((k.currentTcb core).filter (reaps k) = none ∧ k'.tables = k.tables) ∨
      ∃ t k₁ k₂, (k.currentTcb core).filter (reaps k) = some t ∧ k₁.tables = k.tables ∧
        taskFreeThread k₁ t = some k₂ ∧ k'.tables = k₂.tables := by
  unfold schedNextThread at h
  cases current : k.currentTcb core with
  | none =>
    rw [current] at h
    refine .inl ⟨rfl, ?_⟩
    exact (schedPick_tables h).trans (unscheduled_tables.outgoing k none)
  | some t =>
    obtain ⟨v, out, _⟩ := schedOutgoing_some k t
    have marked := unscheduled_tables.outgoing k (some t)
    rw [out] at marked
    rw [current] at h
    simp only [out] at h
    cases reap : reaps k t with
    | false =>
      rw [reap] at h
      refine .inl ⟨by simp [reap], ?_⟩
      exact (schedPick_tables h).trans marked
    | true =>
      rw [reap] at h
      obtain ⟨k₁, removed, h⟩ := Option.bind_eq_some_iff.mp h
      obtain ⟨k₂, freed, h⟩ := Option.bind_eq_some_iff.mp h
      exact .inr ⟨t, k₁, k₂, by simp [reap], (unscheduled_tables.remove removed).trans marked,
        freed, schedPick_tables h⟩

theorem Sound.nextThread (h : Sound s g) {core : Core} (ran : s.nextThread core = some s') :
    Keeps g s' := by
  obtain ⟨⟨k, r⟩, next, ran⟩ := Option.bind_eq_some_iff.mp ran
  dsimp only at ran
  rcases schedNextThread_tables next with ⟨none, same⟩ | ⟨t, k₁, k₂, reap, same, freed, last⟩
  · rw [none] at ran
    cases ran
    exact (h.congr same).keeps
  · rw [reap] at ran
    obtain ⟨heap, back, rfl⟩ := Option.map_eq_some_iff.mp ran
    have sound := h.congr same
    obtain ⟨k₂', g', freed', used, tables, groups, continues⟩ := sound.freeTables t
    cases freed.symm.trans freed'
    obtain ⟨heap', back', owned⟩ := h.kfree t
    cases back.symm.trans back'
    refine ⟨g', ⟨tables.congr last, groups, fun u free => ?_, owned⟩, continues⟩
    simp only [KernelState.tables, Prod.mk.injEq] at last
    exact sound.stackBase_freed used u (last.1 ▸ free)

/-! ### Creation -/

/-- `task_create_process` opens a process in a free slot, with a PID that none has, or fails. -/
theorem findFreeProc_some {k : KernelState} {pid : UInt32} {p : ProcSlot}
    (found : findFreeProc k pid = some p) :
    pid ≠ 0 ∧ taskFindProcess k pid = none ∧ k.pcbUsed p = false := by
  unfold findFreeProc at found
  split at found
  next => cases found
  next fine =>
    rw [not_or, Bool.not_eq_true, Option.isSome_eq_false_iff, Option.isNone_iff_eq_none] at fine
    refine ⟨fine.1, fine.2, ?_⟩
    simpa using List.find?_some found

theorem Sound.openProcess (h : Sound s g) {pid : UInt32} {p : ProcSlot}
    (found : findFreeProc s.k pid = some p) :
    g.group p = none ∧ taskCreateProcess s.k pid = fillProc (setPcbUsed s.k p true) p pid ∧
      Sound { s with k := fillProc (setPcbUsed s.k p true) p pid } (g.opens p pid) := by
  obtain ⟨nonzero, absent, free⟩ := findFreeProc_some found
  have idle : g.group p = none := by
    cases group : g.group p with
    | none => rfl
    | some v =>
      rw [(h.tables.busy p v.1 v.2 group).1] at free
      cases free
  refine ⟨idle, by rw [taskCreateProcess, found], h.tables.create nonzero, ?_, h.stackBase,
    h.owned⟩
  exact h.groups.opens idle (h.tables.find_none absent)

theorem Sound.createProcess (h : Sound s g) (pid : UInt32) :
    Keeps g { s with k := taskCreateProcess s.k pid } := by
  cases found : findFreeProc s.k pid with
  | none =>
    rw [taskCreateProcess, found]
    exact h.keeps
  | some p =>
    obtain ⟨idle, made, sound⟩ := h.openProcess found
    rw [made]
    exact ⟨_, sound, .opens idle⟩

theorem kmalloc_none {heap heap' : Mem.Heap} {size : UInt32}
    (failed : Mem.kmalloc heap size = some (heap', none)) : heap' = heap := by
  unfold Mem.kmalloc at failed
  split at failed
  next => cases failed; rfl
  next =>
    obtain ⟨found, _, same⟩ := Option.map_eq_some_iff.mp failed
    cases found with
    | none => cases same; rfl
    | some _ => cases same

/-- A failed creation changes nothing, and a successful one takes a TCB that was not in use. -/
theorem Sound.createThread_cases (h : Sound s g) {proc : Option ProcSlot} {priority : UInt8}
    {stackSize : UInt32} {made : Option Slot}
    (ran : s.createThread proc priority stackSize = some (s', made)) :
    (made = none ∧ s' = s) ∨
      ∃ t heap stack, s.k.tcbUsed t = false ∧ made = some t ∧
        Mem.kmalloc s.heap stackSize = some (heap, some stack) ∧ s' = { s with
          k := (Kernel.createThread s.k ⟨proc, priority, true⟩).1
          heap := heap
          stackBase := Function.update s.stackBase t (some stack) } ∧
        findFreeSlot s.k = some t := by
  unfold Tables.createThread at ran
  cases found : findFreeSlot s.k with
  | none =>
    rw [found] at ran
    cases ran
    exact .inl ⟨rfl, rfl⟩
  | some t =>
    have free : s.k.tcbUsed t = false := by simpa using List.find?_some found
    rw [found] at ran
    obtain ⟨⟨heap, stack⟩, allocated, same⟩ := Option.map_eq_some_iff.mp ran
    cases stack with
    | none =>
      -- The slot is given back, and its `stack_base` was NULL.
      have back : setUsed (setUsed s.k t true) t false = s.k := by
        have used : Function.update (Function.update s.k.tcbUsed t true) t false = s.k.tcbUsed := by
          rw [Function.update_idem, ← free, Function.update_eq_self]
        simp only [setUsed, used]
      have stackBase : Function.update s.stackBase t none = s.stackBase := by
        rw [← h.stackBase t free, Function.update_eq_self]
      simp only [Kernel.createThread, found, Option.isSome_none, Bool.false_eq_true, if_false,
        back, stackBase, kmalloc_none allocated, Prod.mk.injEq] at same
      exact .inl ⟨same.2.symm, same.1.symm⟩
    | some stack =>
      have thread : (Kernel.createThread s.k ⟨proc, priority, true⟩).2 = some t := by
        simp [Kernel.createThread, found]
      simp only [Option.isSome_some, thread, Prod.mk.injEq] at same
      exact .inr ⟨t, heap, stack, free, same.2.symm, allocated, same.1.symm, rfl⟩

/-- The key of a TCB that is not in use. -/
theorem Sound.key_free (h : Sound s g) (free : s.k.tcbUsed t = false) : g.key t = none := by
  rw [h.tables.key, h.tables.unused t free, if_pos rfl]

/-- A new thread in no process or in a live one, and how its process goes on. -/
theorem Sound.createThread (h : Sound s g) {proc : Option ProcSlot} {priority : UInt8}
    {stackSize : UInt32} (live : ∀ p, proc = some p → ∃ pid l, g.group p = some (pid, l))
    (ran : s.createThread proc priority stackSize = some (s', some t)) :
    ∃ g', Sound s' g' ∧ g.Continues g' ∧ (proc = none ∧ g' = g ∨
      ∃ p pid l, proc = some p ∧ g.group p = some (pid, l) ∧ g' = g.joins p pid l t) := by
  rcases h.createThread_cases ran with ⟨none, _⟩ | ⟨u, heap, stack, free, same, allocated, rfl, found⟩
  · cases none
  cases same
  have stackBase (u : Slot) (now : (Kernel.createThread s.k ⟨proc, priority, true⟩).1.tcbUsed u =
      false) : Function.update s.stackBase t (some stack) u = none := by
    rw [createThread_used rfl found] at now
    by_cases here : u = t
    · rw [here, Function.update_self] at now
      cases now
    · rw [Function.update_of_ne here] at now ⊢
      exact h.stackBase u now
  have owned : ∃ live, Mem.Owned ⟨heap, live⟩ (Function.update s.stackBase t (some stack)) := by
    obtain ⟨live, owned⟩ := h.owned
    exact owned.kmalloc t allocated
  cases proc with
  | none =>
    exact ⟨g, ⟨h.tables.createAlone found priority, h.groups, stackBase, owned⟩, .refl g,
      .inl ⟨rfl, rfl⟩⟩
  | some p =>
    obtain ⟨pid, l, group⟩ := live p rfl
    exact ⟨_, ⟨h.tables.createIn h.groups found group priority,
      h.groups.joins group (h.key_free free), stackBase, owned⟩, .joins group,
      .inr ⟨p, pid, l, rfl, group, rfl⟩⟩

theorem Sound.freeProcess (h : Sound s g) {p : ProcSlot} (empty : (s.k.pcb p).threadCount = 0) :
    Keeps g { s with k := taskFreeProcess s.k p } := by
  have stackBase := h.stackBase
  cases group : g.group p with
  | some v =>
    obtain ⟨pid, l⟩ := v
    have count := (h.tables.busy p pid l group).2.2.2.1
    rw [empty] at count
    cases List.length_eq_zero_iff.mp count.symm
    exact ⟨_, ⟨h.tables.freeProcess p, h.groups.closes group, stackBase, h.owned⟩, .closes group⟩
  | none =>
    have same : g.closes p = g := by
      rw [Groups.closes, ← group, Function.update_eq_self]
    have tables := h.tables.freeProcess p
    rw [same] at tables
    exact ⟨g, ⟨tables, h.groups, stackBase, h.owned⟩, .refl g⟩

/-- A process that has just been created and is freed again leaves no trace. -/
theorem Represents.reopened {k : KernelState} (h : Represents k g) {p : ProcSlot}
    (idle : g.group p = none) (pid : UInt32) :
    taskFreeProcess (fillProc (setPcbUsed k p true) p pid) p = k := by
  obtain ⟨free, zero⟩ := h.idle p idle
  have used : Function.update (Function.update k.pcbUsed p true) p false = k.pcbUsed := by
    rw [Function.update_idem, ← free, Function.update_eq_self]
  have pcb (v : Pcb) : Function.update (Function.update k.pcb p v) p .zero = k.pcb := by
    rw [Function.update_idem, ← zero, Function.update_eq_self]
  simp only [taskFreeProcess, fillProc, setPcbUsed, setPcb, used, pcb]

/-- A failed `SYS_SPAWN` moves the cursor of the PIDs only, and the process of a successful one has
its thread. -/
theorem Sound.sysSpawn (h : Sound s g) {made : Option UInt32} (ran : s.sysSpawn = some (s', made)) :
    (made = none → s' = { s with ranges := s'.ranges }) ∧ Keeps g s' := by
  unfold Tables.sysSpawn at ran
  dsimp only at ran
  generalize (taskAllocPid s.k (s.ranges .spawn)).1 = pid at ran
  generalize Function.update s.ranges .spawn (taskAllocPid s.k (s.ranges .spawn)).2 = ranges at ran
  have sound : Sound { s with ranges := ranges } g :=
    ⟨h.tables, h.groups, h.stackBase, h.owned⟩
  split at ran
  next =>
    cases ran
    exact ⟨fun _ => rfl, sound.keeps⟩
  next =>
    cases found : findFreeProc s.k pid with
    | none =>
      rw [found] at ran
      cases ran
      exact ⟨fun _ => rfl, sound.keeps⟩
    | some p =>
      rw [found] at ran
      obtain ⟨idle, opened, sound⟩ := sound.openProcess found
      dsimp only at opened ran
      rw [opened] at ran
      obtain ⟨⟨s₁, thread⟩, created, same⟩ := Option.map_eq_some_iff.mp ran
      cases thread with
      | none =>
        cases same
        rcases sound.createThread_cases created with ⟨_, same⟩ | ⟨_, _, _, _, some, _⟩
        · cases same
          have back := Represents.reopened h.tables idle pid
          dsimp only
          rw [back]
          exact ⟨fun _ => rfl, ⟨g, ⟨h.tables, h.groups, h.stackBase, h.owned⟩, .refl g⟩⟩
        · cases some
      | some t =>
        cases same
        have here : (g.opens p pid).group p = some (pid, []) := Function.update_self ..
        obtain ⟨g', sound', _, cases_⟩ := sound.createThread
          (fun q own => by cases own; exact ⟨pid, [], here⟩) created
        rcases cases_ with ⟨none, _⟩ | ⟨q, pid', l, own, group, rfl⟩
        · cases none
        · cases own
          rw [here] at group
          cases group
          exact ⟨nofun, _, sound', .opensJoins idle⟩

theorem Sound.step (h : Sound s g) (op : TableOp) : Keeps g (s.step op) := by
  have thread {proc : Option ProcSlot} {priority : UInt8} {stackSize : UInt32}
      (live : ∀ p, proc = some p → ∃ pid l, g.group p = some (pid, l)) :
      Keeps g (((s.createThread proc priority stackSize).map Prod.fst).getD s) := by
    cases ran : s.createThread proc priority stackSize with
    | none => exact h.keeps
    | some r =>
      obtain ⟨s', made⟩ := r
      cases made with
      | none =>
        rcases h.createThread_cases ran with ⟨_, rfl⟩ | ⟨_, _, _, _, some, _⟩
        · exact h.keeps
        · cases some
      | some t =>
        obtain ⟨g', sound, continues, _⟩ := h.createThread live ran
        exact ⟨g', sound, continues⟩
  cases op with
  | process pid => exact h.createProcess pid
  | thread proc priority stackSize =>
    cases proc with
    | none => exact thread nofun
    | some pid =>
      simp only [Tables.step]
      cases found : taskFindProcess s.k pid with
      | none => exact h.keeps
      | some p =>
        obtain ⟨l, group⟩ := h.tables.find_some found
        exact thread fun q own => by cases own; exact ⟨pid, l, group⟩
  | spawn =>
    simp only [Tables.step]
    cases ran : s.sysSpawn with
    | none => exact h.keeps
    | some r => exact (h.sysSpawn ran).2
  | freeThread t =>
    simp only [Tables.step]
    obtain ⟨s', ran, keeps⟩ := h.freeThread t
    rw [ran]
    exact keeps
  | freeProcess p =>
    simp only [Tables.step]
    split
    next empty => exact h.freeProcess empty
    next => exact h.keeps
  | kill core t =>
    simp only [Tables.step]
    cases ran : s.killThread core t with
    | none => exact h.keeps
    | some s' => exact h.killThread ran
  | next core =>
    simp only [Tables.step]
    cases ran : s.nextThread core with
    | none => exact h.keeps
    | some s' => exact h.nextThread ran
  | state t state => exact (h.congr (unscheduled_tables.setState ..)).keeps

theorem sound_run (ops : List TableOp) : ∃ g, Sound (Run.exec Tables.step .boot ops) g :=
  Run.exec_invariant (I := fun s => ∃ g, Sound s g)
    (fun _ op sound => by
      obtain ⟨g, sound⟩ := sound
      obtain ⟨g', sound', _⟩ := sound.step op
      exact ⟨g', sound'⟩) ⟨_, .boot⟩ ops

end

end Tables

/-! ### Runs -/

/-- The PIDs of the processes differ and are not 0, and each process lists its threads: the TCBs in
use with its PID, each once, and NULL behind them. -/
structure Consistent (k : KernelState) : Prop where
  pids : ∀ p, k.pcbUsed p = true → (k.pcb p).pid ≠ 0
  distinct : ∀ p q, k.pcbUsed p = true → k.pcbUsed q = true → (k.pcb p).pid = (k.pcb q).pid →
    p = q
  threads : ∀ p, k.pcbUsed p = true → ∃ l : List Slot, l.Nodup ∧
    (∀ t, t ∈ l ↔ k.tcbUsed t = true ∧ (k.tcb t).pid = (k.pcb p).pid) ∧
    (k.pcb p).threadCount = l.length ∧ ∀ i, (k.pcb p).threads i = l[i]?

/-- From `k` to `k'` the process in the slot goes if and only if its last thread does, and
otherwise it is the same process, and has a thread. -/
structure GoesWithLast (k k' : KernelState) (p : ProcSlot) : Prop where
  goes : k'.pcbUsed p = false ↔ ∀ t, k'.tcbUsed t = true → (k'.tcb t).pid ≠ (k.pcb p).pid
  stays : k'.pcbUsed p = true →
    (k'.pcb p).pid = (k.pcb p).pid ∧ 0 < (k'.pcb p).threadCount

section

variable {s s' : Tables} {g : Groups Slot ProcSlot UInt32}

theorem Tables.Sound.member_iff (h : s.Sound g) {p : ProcSlot} {pid : UInt32} {l : List Slot}
    (group : g.group p = some (pid, l)) (t : Slot) :
    t ∈ l ↔ s.k.tcbUsed t = true ∧ (s.k.tcb t).pid = pid := by
  have nonzero := (h.tables.busy p pid l group).2.2.1
  rw [h.groups.mem p pid l group t, h.tables.key]
  constructor
  · intro key
    split at key
    next => cases key
    next some =>
      refine ⟨?_, Option.some.inj key⟩
      by_contra unused
      exact some (h.tables.unused t (by simpa using unused))
  · rintro ⟨_, rfl⟩
    rw [if_neg nonzero]

theorem Tables.Sound.consistent (h : s.Sound g) : Consistent s.k where
  pids p used := by
    obtain ⟨pid, l, group⟩ := (h.tables.used_iff p).mp used
    obtain ⟨_, own, nonzero, _⟩ := h.tables.busy p pid l group
    rw [own]
    exact nonzero
  distinct p q used used' same := by
    obtain ⟨pid, l, group⟩ := (h.tables.used_iff p).mp used
    obtain ⟨pid', l', group'⟩ := (h.tables.used_iff q).mp used'
    rw [(h.tables.busy p pid l group).2.1, (h.tables.busy q pid' l' group').2.1] at same
    exact (h.groups.group_inj group (same ▸ group')).1
  threads p used := by
    obtain ⟨pid, l, group⟩ := (h.tables.used_iff p).mp used
    obtain ⟨_, own, _, count, threads⟩ := h.tables.busy p pid l group
    rw [own]
    exact ⟨l, h.groups.nodup p pid l group, h.member_iff group, count, threads⟩

theorem Tables.Sound.goesWithLast (h : s.Sound g) (keeps : Tables.Keeps g s') {p : ProcSlot}
    (used : s.k.pcbUsed p = true) (some : 0 < (s.k.pcb p).threadCount) :
    GoesWithLast s.k s'.k p := by
  obtain ⟨g', h', continues⟩ := keeps
  obtain ⟨pid, l, group⟩ := (h.tables.used_iff p).mp used
  obtain ⟨_, own, nonzero, count, _⟩ := h.tables.busy p pid l group
  have listed : l ≠ [] := by
    rintro rfl
    rw [count] at some
    exact Nat.lt_irrefl 0 some
  rw [count] at some
  rcases continues p pid l group listed with ⟨l', group', listed'⟩ | ⟨gone, nobody⟩
  · obtain ⟨used', own', _, count', _⟩ := h'.tables.busy p pid l' group'
    obtain ⟨t, member⟩ := List.exists_mem_of_ne_nil l' listed'
    obtain ⟨inUse, mine⟩ := (h'.member_iff group' t).mp member
    refine ⟨iff_of_false (by simp [used']) fun others => ?_, fun _ => ⟨own'.trans own.symm, ?_⟩⟩
    · exact others t inUse (mine.trans own.symm)
    · rw [count']
      exact List.length_pos_iff.mpr listed'
  · have free := (h'.tables.idle p gone).1
    refine ⟨iff_of_true free fun t _ mine => nobody t ?_, fun used' => ?_⟩
    · rw [own] at mine
      rw [h'.tables.key, mine, if_neg nonzero]
    · rw [free] at used'
      cases used'

end

/-- After any calls from `task_init` on the tables are consistent, `task_free_thread` returns, a
process with a thread goes with its last one, and failed creations leave no trace:
`task_create_thread` none at all, and `SYS_SPAWN` only the cursor of the PIDs. -/
theorem tables_consistent (ops : List TableOp) :
    let s := Run.exec Tables.step .boot ops
    Consistent s.k ∧ (∀ t, (s.freeThread t).isSome = true) ∧
      (∀ op p, s.k.pcbUsed p = true → 0 < (s.k.pcb p).threadCount →
        GoesWithLast s.k (s.step op).k p) ∧
      (∀ proc priority stackSize s', s.createThread proc priority stackSize = some (s', none) →
        s' = s) ∧
      ∀ s', s.sysSpawn = some (s', none) → s' = { s with ranges := s'.ranges } := by
  obtain ⟨g, sound⟩ := Tables.sound_run ops
  refine ⟨sound.consistent, fun t => ?_,
    fun op p used some => sound.goesWithLast (sound.step op) used some,
    fun proc priority stackSize s' failed => ?_, fun s' failed => ?_⟩
  · obtain ⟨s', freed, _⟩ := sound.freeThread t
    rw [freed]
    rfl
  · rcases sound.createThread_cases failed with ⟨_, same⟩ | ⟨_, _, _, _, some, _⟩
    · exact same
    · cases some
  · exact (sound.sysSpawn failed).1 rfl

end PicoOS.Kernel
