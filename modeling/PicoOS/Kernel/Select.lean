import PicoOS.Kernel.Task
import PicoOS.Kernel.Machine
import Mathlib

/-!
# Which thread runs next

`sched_next_thread` as one function, with the `task_free_thread` of a reaped
thread run to its end, and what it selects, for any ready queues that end: the
first thread it may take, of the lowest priority that has one, after the
outgoing thread has gone from the head of its queue to the tail.
-/
namespace PicoOS.Kernel

open KernelState

/-! ### Relinking -/

namespace KernelState

/-- A state with other links and list heads. -/
def relink (k : KernelState) (next : Slot → Option Slot) (ready : Prio → Option Slot)
    (waiters : WaitList → Option Slot) : KernelState :=
  { k with
    tcb := fun t => { k.tcb t with next := next t }
    readyQueues := ready
    waiters := waiters }

variable (k : KernelState) (next next' : Slot → Option Slot) (ready ready' : Prio → Option Slot)
  (waiters waiters' : WaitList → Option Slot) (t : Slot)

@[simp] theorem relink_next : (k.relink next ready waiters).next = next := rfl

@[simp] theorem relink_readyQueues : (k.relink next ready waiters).readyQueues = ready := rfl

@[simp] theorem relink_waiters : (k.relink next ready waiters).waiters = waiters := rfl

@[simp] theorem relink_relink :
    (k.relink next ready waiters).relink next' ready' waiters' = k.relink next' ready' waiters' :=
  rfl

theorem setNext_eq_relink (n : Option Slot) :
    k.setNext t n = k.relink (Function.update k.next t n) k.readyQueues k.waiters := by
  unfold setNext setTcb relink
  congr
  funext u
  by_cases eq : u = t
  · subst eq
    simp
  · simp [eq, KernelState.next]

theorem setReady_eq_relink (p : Prio) (h : Option Slot) :
    k.setReady p h = k.relink k.next (Function.update k.readyQueues p h) k.waiters := rfl

theorem relink_self : k.relink k.next k.readyQueues k.waiters = k := rfl

end KernelState

/-! ### task_free_thread without interruption -/

/-- The steps of `task_free_thread` from a point on; `none` when the fuel runs out. -/
def freeRun : Nat → KernelState → Slot → FreePc → Option KernelState
  | 0, _, _, _ => none
  | fuel + 1, k, t, stage =>
    match freeStep k t stage with
    | (k, none) => some k
    | (k, some stage) => freeRun fuel k t stage

/-- More steps than are left from a point on. -/
def freeWork (k : KernelState) (t : Slot) : FreePc → Nat
  | .find =>
    match taskFindProcess k (k.tcb t).pid with
    | none => 5
    | some p => (k.pcb p).threadCount + 7
  | .scan p i => (k.pcb p).threadCount - i + 6
  | .shift p j => (k.pcb p).threadCount - j + 5
  | .clear _ => 4
  | .wipe _ => 3
  | .drop _ => 2
  | .wipeProc _ => 1

/-- `task_free_thread`. -/
def taskFreeThread (k : KernelState) (t : Slot) : Option KernelState :=
  freeRun (freeWork k t .find) k t .find

theorem freeStep_work {k k' : KernelState} {t : Slot} {stage stage' : FreePc}
    (h : freeStep k t stage = (k', some stage')) : freeWork k' t stage' < freeWork k t stage := by
  cases stage with
  | find =>
    simp only [freeStep] at h
    split at h
    next absent =>
      cases h
      simp [freeWork, absent]
    next p found =>
      cases h
      simp [freeWork, found]
  | scan p i =>
    simp only [freeStep] at h
    split at h
    next more =>
      split at h
      next =>
        cases h
        simp only [freeWork, setThreadCount, setPcb, Function.update_self]
        omega
      next =>
        cases h
        simp only [freeWork]
        omega
    next =>
      cases h
      simp only [freeWork]
      omega
  | shift p j =>
    simp only [freeStep] at h
    split at h
    next more =>
      cases h
      simp only [freeWork, setThread, setPcb, Function.update_self]
      omega
    next =>
      cases h
      simp only [freeWork]
      omega
  | clear p =>
    cases h
    simp [freeWork]
  | wipe p =>
    cases p with
    | none => cases h
    | some p =>
      cases h
      simp [freeWork]
  | drop p =>
    simp only [freeStep] at h
    split at h
    next =>
      cases h
      simp [freeWork]
    next => cases h
  | wipeProc p => cases h

/-- Nothing that the scheduler reads changes but the TCB that is freed. -/
structure Freed (t : Slot) (k k' : KernelState) : Prop where
  tcb : ∀ u, u ≠ t → k'.tcb u = k.tcb u
  self : k'.tcb t = k.tcb t ∨ k'.tcb t = .zero
  readyQueues : k'.readyQueues = k.readyQueues
  currentTcb : k'.currentTcb = k.currentTcb

theorem Freed.of_same {t : Slot} {k k' : KernelState} (tcb : k'.tcb = k.tcb)
    (ready : k'.readyQueues = k.readyQueues) (current : k'.currentTcb = k.currentTcb) :
    Freed t k k' :=
  ⟨fun u _ => congrFun tcb u, .inl (congrFun tcb t), ready, current⟩

theorem Freed.refl (t : Slot) (k : KernelState) : Freed t k k := .of_same rfl rfl rfl

theorem Freed.trans {t : Slot} {k k₁ k₂ : KernelState} (h : Freed t k k₁) (h' : Freed t k₁ k₂) :
    Freed t k k₂ where
  tcb u other := (h'.tcb u other).trans (h.tcb u other)
  self := by
    rcases h'.self with same | zero
    · rw [same]
      exact h.self
    · exact .inr zero
  readyQueues := h'.readyQueues.trans h.readyQueues
  currentTcb := h'.currentTcb.trans h.currentTcb

theorem freeStep_freed (k : KernelState) (t : Slot) (stage : FreePc) :
    Freed t k (freeStep k t stage).1 := by
  cases stage with
  | find =>
    simp only [freeStep]
    split <;> exact .refl t k
  | scan p i =>
    simp only [freeStep]
    split
    · split <;> exact .of_same rfl rfl rfl
    · exact .refl t k
  | shift p j =>
    simp only [freeStep]
    split <;> exact .of_same rfl rfl rfl
  | clear p => exact .of_same rfl rfl rfl
  | wipe p =>
    refine ⟨fun u other => ?_, .inr ?_, rfl, rfl⟩
    · simp [freeStep, setTcb, other]
    · simp [freeStep, setTcb]
  | drop p =>
    simp only [freeStep]
    split <;> exact .of_same rfl rfl rfl
  | wipeProc p => exact .of_same rfl rfl rfl

theorem freeRun_ends {fuel : Nat} {k : KernelState} {t : Slot} {stage : FreePc}
    (enough : freeWork k t stage ≤ fuel) :
    ∃ k', freeRun fuel k t stage = some k' ∧ Freed t k k' := by
  induction fuel generalizing k stage with
  | zero =>
    exfalso
    cases stage with
    | find =>
      simp only [freeWork] at enough
      split at enough <;> omega
    | _ => simp [freeWork] at enough
  | succ fuel ih =>
    have frame := freeStep_freed k t stage
    simp only [freeRun]
    cases next : freeStep k t stage with
    | mk k₁ after =>
      rw [next] at frame
      cases after with
      | none => exact ⟨k₁, rfl, frame⟩
      | some stage' =>
        have less := freeStep_work next
        have rest_ : freeWork k₁ t stage' ≤ fuel := by omega
        obtain ⟨k', ran, rest⟩ := ih rest_
        exact ⟨k', ran, frame.trans rest⟩

theorem taskFreeThread_ends (k : KernelState) (t : Slot) :
    ∃ k', taskFreeThread k t = some k' ∧ Freed t k k' := freeRun_ends (Nat.le_refl _)

/-- `sched_next_thread`: a zombie is taken off its queue and freed before the selection. -/
def schedNextThread (k : KernelState) (core : Core) : Option (KernelState × Option Slot) :=
  let cur := k.currentTcb core
  match schedOutgoing k cur, cur with
  | (k, true), some t =>
    (schedRemoveThreadRaw k t).bind fun k => (taskFreeThread k t).bind fun k => schedPick k core none
  | (k, _), _ => schedPick k core cur

/-! ### Ready queues that end -/

/-- The threads linked in a ready queue, in order. -/
def KernelState.queue (k : KernelState) (p : Prio) : List Slot :=
  Chain.nodes k.next maxThreads (k.readyQueues p)

/-- The ready queues spell `rq`, and each holds threads of its priority. -/
structure ReadyQueues (k : KernelState) (rq : Prio → List Slot) : Prop where
  path : ∀ p, Chain.Path k.next (k.readyQueues p) (rq p) none
  prio : ∀ p, ∀ t ∈ rq p, k.prio t = p

namespace ReadyQueues

variable {k k' : KernelState} {rq : Prio → List Slot} {p q : Prio} {t : Slot}

theorem length_le (h : ReadyQueues k rq) (p : Prio) : (rq p).length ≤ maxThreads :=
  (h.path p).length_le

/-- A thread is on one queue only. -/
theorem apart (h : ReadyQueues k rq) (on : t ∈ rq p) (other : q ≠ p) : t ∉ rq q := by
  intro also
  exact other ((h.prio q t also).symm.trans (h.prio p t on))

theorem congr (h : ReadyQueues k rq) (ready : k'.readyQueues = k.readyQueues)
    (next : ∀ p, ∀ t ∈ rq p, k'.next t = k.next t)
    (prio : ∀ p, ∀ t ∈ rq p, k'.prio t = k.prio t) : ReadyQueues k' rq where
  path p := by
    rw [ready]
    exact (h.path p).congr (next p)
  prio p t on := (prio p t on).trans (h.prio p t on)

/-- New links inside one queue. -/
theorem relinked (h : ReadyQueues k rq) {next : Slot → Option Slot} {ready : Prio → Option Slot}
    {l : List Slot} (list : Chain.Path next (ready p) l none) (subset : ∀ t ∈ l, t ∈ rq p)
    (others : ∀ t, t ∉ rq p → next t = k.next t) (heads : ∀ q, q ≠ p → ready q = k.readyQueues q) :
    ReadyQueues (k.relink next ready k.waiters) (Function.update rq p l) := by
  constructor
  · intro q
    by_cases same : q = p
    · rw [same, Function.update_self]
      exact list
    · rw [Function.update_of_ne same, relink_readyQueues, relink_next, heads q same]
      exact (h.path q).congr fun t on => others t (h.apart on (Ne.symm same))
  · intro q t on
    by_cases same : q = p
    · rw [same, Function.update_self] at on
      rw [same]
      exact h.prio p t (subset t on)
    · rw [Function.update_of_ne same] at on
      exact h.prio q t on

/-- `sched_remove_thread_raw` takes the thread off its queue. -/
theorem remove (h : ReadyQueues k rq) (t : Slot) :
    ∃ next ready, schedRemoveThreadRaw k t = some (k.relink next ready k.waiters) ∧
      ReadyQueues (k.relink next ready k.waiters) fun p => (rq p).erase t := by
  have elsewhere (p : Prio) (other : p ≠ k.prio t) : (rq p).erase t = rq p :=
    List.erase_of_not_mem fun on => other (h.prio p t on).symm
  by_cases on : t ∈ rq (k.prio t)
  · obtain ⟨l₁, l₂, split⟩ := List.append_of_mem on
    have path := h.path (k.prio t)
    have enough := h.length_le (k.prio t)
    rw [split] at path enough
    have out : t ∉ l₁ := by
      intro member
      exact (List.nodup_append.mp path.nodup).2.2 t member t List.mem_cons_self rfl
    have gone : (fun p => (rq p).erase t) = Function.update rq (k.prio t) (l₁ ++ l₂) := by
      funext p
      by_cases same : p = k.prio t
      · rw [same, Function.update_self, split, List.erase_append_right _ out, List.erase_cons_head]
      · rw [Function.update_of_ne same, elsewhere p same]
    have subset : ∀ u ∈ l₁ ++ l₂, u ∈ rq (k.prio t) := by
      intro u member
      rw [split]
      simp only [List.mem_append, List.mem_cons] at member ⊢
      tauto
    rw [gone]
    -- the head of the queue is unlinked in `ready_queues`, any other thread in its predecessor
    rcases path.pull enough with ⟨rfl, head, walk, queue⟩ | ⟨a, aMem, -, walk, queue⟩
    · refine ⟨Function.update k.next t none, Function.update k.readyQueues (k.prio t) (k.next t),
        by simp [schedRemoveThreadRaw, walk, setNext_eq_relink, setReady_eq_relink],
        h.relinked (by simpa using queue) subset ?_ ?_⟩
      · intro u off
        rw [Function.update_of_ne]
        rintro rfl
        exact off on
      · exact fun q other => Function.update_of_ne other ..
    · refine ⟨Function.update (Function.update k.next a (k.next t)) t none, k.readyQueues,
        by simp [schedRemoveThreadRaw, walk, setNext_eq_relink],
        h.relinked queue subset ?_ fun _ _ => rfl⟩
      intro u off
      rw [Function.update_of_ne, Function.update_of_ne]
      · rintro rfl
        exact off (by simp [split, aMem])
      · rintro rfl
        exact off on
  · -- the walk comes to the end of the queue
    have walk := Chain.seek_notMem (h.path (k.prio t)) on (h.length_le _) none
    have same : (fun p => (rq p).erase t) = rq := by
      funext p
      by_cases own : p = k.prio t
      · rw [own]
        exact List.erase_of_not_mem on
      · exact elsewhere p own
    refine ⟨k.next, k.readyQueues, by simp [schedRemoveThreadRaw, walk, relink_self], ?_⟩
    rw [same, relink_self]
    exact h

end ReadyQueues

/-! ### Queues as lists

What the rotation and the scan do, on lists: `turns` is true of the outgoing thread
while it may run on, and `ok` of the threads that the core may take. -/

/-- A queue once its head has had its turn: it goes to the tail. -/
def rotated (turns : Slot → Bool) : List Slot → List Slot
  | [] => []
  | head :: rest => if turns head then rest ++ [head] else head :: rest

/-- The scan of the priorities: the queues afterwards, and the first thread that may be taken
of the first queue that has one. -/
def selection (turns ok : Slot → Bool) :
    List Prio → (Prio → List Slot) → (Prio → List Slot) × Option Slot
  | [], rq => (rq, none)
  | p :: ps, rq =>
    match (rotated turns (rq p)).find? ok with
    | some t => (Function.update rq p (rotated turns (rq p)), some t)
    | none => selection turns ok ps (Function.update rq p (rotated turns (rq p)))

section Lists

variable {turns ok : Slot → Bool} {l : List Slot} {t : Slot} {p q : Prio} {ps : List Prio}
  {rq : Prio → List Slot}

theorem rotated_perm (turns : Slot → Bool) (l : List Slot) : (rotated turns l).Perm l := by
  cases l with
  | nil => exact .nil
  | cons head rest =>
    simp only [rotated]
    split
    · exact List.perm_append_singleton head rest
    · exact .refl _

/-- The threads whose turn it was not keep their order. -/
theorem rotated_others {keep : Slot → Bool} (others : ∀ u, turns u = true → keep u = false)
    (l : List Slot) : (rotated turns l).filter keep = l.filter keep := by
  cases l with
  | nil => rfl
  | cons head rest =>
    simp only [rotated]
    split
    next turn => simp [others head turn]
    next => rfl

theorem find?_rotated : (rotated turns l).find? ok = none ↔ ∀ u ∈ l, ok u = false := by
  rw [List.find?_eq_none]
  constructor
  · intro nothing u on
    simpa using nothing u ((rotated_perm turns l).mem_iff.mpr on)
  · intro nothing u on
    simpa using nothing u ((rotated_perm turns l).mem_iff.mp on)

theorem selection_notMem (out : q ∉ ps) : (selection turns ok ps rq).1 q = rq q := by
  induction ps generalizing rq with
  | nil => rfl
  | cons p ps ih =>
    simp only [List.mem_cons, not_or] at out
    simp only [selection]
    split
    · exact Function.update_of_ne out.1 ..
    · rw [ih out.2]
      exact Function.update_of_ne out.1 ..

/-- Each queue is left as it was or has had its turn. -/
theorem selection_queue (nodup : ps.Nodup) (q : Prio) :
    (selection turns ok ps rq).1 q = rq q ∨
      (selection turns ok ps rq).1 q = rotated turns (rq q) := by
  induction ps generalizing rq with
  | nil => exact .inl rfl
  | cons p ps ih =>
    obtain ⟨out, nodup⟩ := List.nodup_cons.mp nodup
    by_cases same : q = p
    · right
      rw [same]
      simp only [selection]
      split
      · exact Function.update_self ..
      · rw [selection_notMem out]
        exact Function.update_self ..
    · simp only [selection]
      split
      · left
        exact Function.update_of_ne same ..
      · have later : Function.update rq p (rotated turns (rq p)) q = rq q :=
          Function.update_of_ne same ..
        rw [← later]
        exact ih nodup

/-- The thread taken is the first one of its queue that may be, once that queue has had its
turn, and the queues before it have none. -/
theorem selection_some (nodup : ps.Nodup) (taken : (selection turns ok ps rq).2 = some t) :
    ∃ before p after, ps = before ++ p :: after ∧
      (∀ q ∈ before, ∀ u ∈ rq q, ok u = false) ∧
      (rotated turns (rq p)).find? ok = some t ∧
      (selection turns ok ps rq).1 p = rotated turns (rq p) := by
  induction ps generalizing rq with
  | nil => cases taken
  | cons p ps ih =>
    obtain ⟨out, nodup⟩ := List.nodup_cons.mp nodup
    simp only [selection] at taken ⊢
    cases found : (rotated turns (rq p)).find? ok with
    | some u =>
      rw [found] at taken
      cases taken
      exact ⟨[], p, ps, rfl, by simp, found, Function.update_self ..⟩
    | none =>
      rw [found] at taken
      obtain ⟨before, q, after, split, earlier, here, queue⟩ := ih nodup taken
      -- the turn of `p` is over and changes no later queue
      have later (r : Prio) (member : r ∈ ps) :
          Function.update rq p (rotated turns (rq p)) r = rq r := by
        rw [Function.update_of_ne]
        rintro rfl
        exact out member
      rw [later q (by simp [split])] at here queue
      refine ⟨p :: before, q, after, by rw [split]; rfl, ?_, here, queue⟩
      intro r member
      rcases List.mem_cons.mp member with rfl | member
      · exact find?_rotated.mp found
      · have rest := earlier r member
        rwa [later r (by simp [split, member])] at rest

theorem selection_none (nodup : ps.Nodup) (nothing : (selection turns ok ps rq).2 = none) :
    ∀ p ∈ ps, ∀ u ∈ rq p, ok u = false := by
  induction ps generalizing rq with
  | nil => simp
  | cons p ps ih =>
    obtain ⟨out, nodup⟩ := List.nodup_cons.mp nodup
    simp only [selection] at nothing
    cases found : (rotated turns (rq p)).find? ok with
    | some u =>
      rw [found] at nothing
      cases nothing
    | none =>
      rw [found] at nothing
      intro r member
      rcases List.mem_cons.mp member with rfl | member
      · exact find?_rotated.mp found
      · have rest := ih nodup nothing r member
        rwa [Function.update_of_ne] at rest
        intro same
        exact out (same ▸ member)

end Lists

/-! ### The linked queues follow the lists -/

namespace ReadyQueues

variable {k k' : KernelState} {rq : Prio → List Slot} {p q : Prio} {t : Slot}

/-- The thread that `schedRotate` moves when it is at the head. -/
def turning (k : KernelState) (cur : Option Slot) (t : Slot) : Bool :=
  cur = some t && k.state t = .ready

theorem rotate (h : ReadyQueues k rq) (p : Prio) (cur : Option Slot) :
    ∃ next ready, schedRotate k p cur = some (k.relink next ready k.waiters) ∧
      ReadyQueues (k.relink next ready k.waiters)
        (Function.update rq p (rotated (turning k cur) (rq p))) := by
  have stays (same : rotated (turning k cur) (rq p) = rq p) (still : schedRotate k p cur = some k) :
      ∃ next ready, schedRotate k p cur = some (k.relink next ready k.waiters) ∧
        ReadyQueues (k.relink next ready k.waiters)
          (Function.update rq p (rotated (turning k cur) (rq p))) := by
    refine ⟨k.next, k.readyQueues, still, ?_⟩
    rw [same, Function.update_eq_self]
    exact h
  have path := h.path p
  cases list : rq p with
  | nil =>
    rw [list] at path stays
    have empty : k.readyQueues p = none := path
    refine stays rfl ?_
    cases cur <;> simp [schedRotate, empty]
  | cons a rest =>
    rw [list] at path stays
    have head : k.readyQueues p = some a := path.1
    by_cases turn : cur = some a ∧ k.state a = .ready
    · obtain ⟨rfl, ready⟩ := turn
      rcases List.eq_nil_or_concat rest with rfl | ⟨mid, z, rfl⟩
      · -- alone on its queue
        have alone : k.next a = none := path.2
        exact stays (by simp [rotated]) (by simp [schedRotate, head, ready, alone])
      rw [List.concat_eq_append] at *
      obtain ⟨b, link⟩ : ∃ b, k.next a = some b := by
        cases mid with
        | nil => exact ⟨_, path.2.1⟩
        | cons c mid => exact ⟨_, path.2.1⟩
      have second := path.2
      rw [link] at second
      have enough := path.length_le
      have walk : Chain.tail k.next maxThreads b = some z :=
        Chain.tail_eq second (by simp at enough; omega)
      have turned : rotated (turning k (some a)) (a :: (mid ++ [z])) = mid ++ [z] ++ [a] := by
        simp [rotated, turning, ready]
      have zMem : z ∈ rq p := by simp [list]
      have aMem : a ∈ rq p := by simp [list]
      refine ⟨Function.update (Function.update k.next z (some a)) a none,
        Function.update k.readyQueues p (some b), ?_, ?_⟩
      · simp [schedRotate, head, ready, link, walk, setNext_eq_relink, setReady_eq_relink]
      rw [turned]
      apply h.relinked
      · simpa [link] using path.rotate
      · intro u member
        rw [list]
        simp only [List.mem_append, List.mem_cons] at member ⊢
        tauto
      · intro u off
        rw [Function.update_of_ne, Function.update_of_ne]
        · rintro rfl
          exact off zMem
        · rintro rfl
          exact off aMem
      · exact fun q other => Function.update_of_ne other ..
    · refine stays (by simp [rotated, turning, turn]) ?_
      cases cur with
      | none => rfl
      | some b =>
        simp only [schedRotate, head]
        rw [if_neg]
        rintro ⟨same, ready⟩
        cases same
        exact turn ⟨rfl, ready⟩

/-- `schedSelect` does to the linked queues what `selection` does to the lists. -/
theorem select (h : ReadyQueues k rq) (core : Core) (cur : Option Slot) (ps : List Prio) :
    ∃ next ready, schedSelect core cur ps k = some (k.relink next ready k.waiters,
        (selection (turning k cur) (schedEligible k core) ps rq).2) ∧
      ReadyQueues (k.relink next ready k.waiters)
        (selection (turning k cur) (schedEligible k core) ps rq).1 := by
  induction ps generalizing k rq with
  | nil => exact ⟨k.next, k.readyQueues, rfl, h⟩
  | cons p ps ih =>
    obtain ⟨next, ready, turned, h₁⟩ := h.rotate p cur
    -- New links leave the threads to turn and to take what they were.
    have turns : turning (k.relink next ready k.waiters) cur = turning k cur := rfl
    have same : schedEligible (k.relink next ready k.waiters) core = schedEligible k core := rfl
    have walk := Chain.first_eq (h₁.path p) (schedEligible k core) (h₁.length_le p)
    rw [Function.update_self, relink_next, relink_readyQueues] at walk
    simp only [schedSelect, selection, turned, Option.bind_some, same, relink_next,
      relink_readyQueues, walk]
    cases found : (rotated (turning k cur) (rq p)).find? (schedEligible k core) with
    | some t => exact ⟨next, ready, rfl, h₁⟩
    | none =>
      obtain ⟨next', ready', selected, h₂⟩ := ih h₁
      rw [turns, same] at selected h₂
      exact ⟨next', ready', selected, h₂⟩

end ReadyQueues

/-! ### sched_next_thread from the state it is called in -/

/-- The outgoing thread may go on: it is not killed, and RUNNING or woken before its PendSV. -/
def goesOn (k : KernelState) (t : Slot) : Bool :=
  !(k.tcb t).killPending && (k.state t = .running || k.state t = .ready)

/-- The outgoing thread is freed: a zombie, or killed since it last ran and not in a waiter list. -/
def reaps (k : KernelState) (t : Slot) : Bool :=
  if (k.tcb t).killPending then k.state t ≠ .blocked else k.state t = .zombie

/-- The outgoing thread, once it is marked READY. -/
def outgoing (k : KernelState) (core : Core) (t : Slot) : Bool :=
  k.currentTcb core = some t && goesOn k t

/-- A thread that `sched_next_thread` may select: READY or outgoing, not current on the other
core, and of a matching affinity. -/
def takeable (k : KernelState) (core : Core) (t : Slot) : Bool :=
  (if k.currentTcb core = some t then goesOn k t else k.state t = .ready) &&
    k.currentTcb core.other ≠ some t &&
    ((k.tcb t).affinity = none || (k.tcb t).affinity = some core)

/-- A ready queue without the outgoing thread when that one is freed. -/
def left (k : KernelState) (core : Core) (rq : Prio → List Slot) (p : Prio) : List Slot :=
  match k.currentTcb core with
  | none => rq p
  | some t => if reaps k t then (rq p).erase t else rq p

/-- The queues after `sched_next_thread`, and the thread it selects. -/
def choice (k : KernelState) (core : Core) (rq : Prio → List Slot) :
    (Prio → List Slot) × Option Slot :=
  selection (outgoing k core) (takeable k core) (List.finRange numPriorities) (left k core rq)

section Outgoing

variable {k k' : KernelState} {core : Core} {rq : Prio → List Slot} {t u : Slot}

/-- What the outgoing thread's TCB keeps, and when it ends up READY or is to be freed. -/
theorem schedOutgoing_some (k : KernelState) (t : Slot) :
    ∃ v, schedOutgoing k (some t) = (k.setTcb t v, reaps k t) ∧ v.next = (k.tcb t).next ∧
      v.priority = (k.tcb t).priority ∧ v.affinity = (k.tcb t).affinity ∧
      decide (v.state = .ready) = goesOn k t := by
  simp only [schedOutgoing, reaps, goesOn, state]
  cases killed : (k.tcb t).killPending with
  | true =>
    refine ⟨{ k.tcb t with killPending := false, state := .zombie }, ?_, rfl, rfl, rfl, ?_⟩
    · by_cases blocked : (k.tcb t).state = .blocked <;> simp [blocked]
    · simp
  | false =>
    by_cases running : (k.tcb t).state = .running
    · refine ⟨{ k.tcb t with state := .ready }, ?_, rfl, rfl, rfl, ?_⟩
      · simp [killed, running]
      · simp [running]
    · refine ⟨k.tcb t, ?_, rfl, rfl, rfl, ?_⟩
      · by_cases zombie : (k.tcb t).state = .zombie <;> simp [running, zombie]
      · simp only [running]
        rfl

/-- Another TCB for `t`, of the same link and priority. -/
theorem ReadyQueues.setTcb (h : ReadyQueues k rq) {v : Tcb} (next : v.next = (k.tcb t).next)
    (priority : v.priority = (k.tcb t).priority) : ReadyQueues (k.setTcb t v) rq := by
  have same (u : Slot) : (k.setTcb t v).next u = k.next u ∧ (k.setTcb t v).prio u = k.prio u := by
    by_cases own : u = t
    · subst own
      simp [KernelState.setTcb, KernelState.next, KernelState.prio, next, priority]
    · simp [KernelState.setTcb, KernelState.next, KernelState.prio, own]
  exact h.congr rfl (fun _ u _ => (same u).1) fun _ u _ => (same u).2

/-- Nothing changes for the queues when a thread off them is freed. -/
theorem ReadyQueues.freed (h : ReadyQueues k rq) (out : ∀ p, t ∉ rq p) (free : Freed t k k') :
    ReadyQueues k' rq := by
  have same (p : Prio) (u : Slot) (on : u ∈ rq p) : k'.tcb u = k.tcb u := by
    apply free.tcb
    rintro rfl
    exact out p on
  apply h.congr free.readyQueues
  · intro p u on
    simp only [KernelState.next, same p u on]
  · intro p u on
    simp only [KernelState.prio, same p u on]

/-- The selection from a state in which the outgoing thread has been dealt with. -/
theorem ReadyQueues.pick (h : ReadyQueues k' (left k core rq)) {cur : Option Slot}
    (turns : turning k' cur = outgoing k core) (ok : schedEligible k' core = takeable k core)
    (current : k'.currentTcb = k.currentTcb) :
    ∃ k₁, schedPick k' core cur = some (schedSwitch k₁ core (choice k core rq).2) ∧
      ReadyQueues k₁ (choice k core rq).1 ∧ k₁.currentTcb = k.currentTcb := by
  obtain ⟨next, ready, selected, after⟩ := h.select core cur (List.finRange numPriorities)
  rw [turns, ok] at selected after
  refine ⟨_, ?_, after, current⟩
  simp only [schedPick, selected, Option.map_some]
  rfl

/-- `sched_next_thread` chooses as the lists say, and the linked queues follow. -/
theorem ReadyQueues.nextThread (h : ReadyQueues k rq) (core : Core) :
    ∃ k', schedNextThread k core = some (schedSwitch k' core (choice k core rq).2) ∧
      ReadyQueues k' (choice k core rq).1 ∧ k'.currentTcb = k.currentTcb := by
  cases current : k.currentTcb core with
  | none =>
    have same : left k core rq = rq := by
      funext p
      simp [left, current]
    have start : schedNextThread k core = schedPick k core none := by
      simp [schedNextThread, current, schedOutgoing]
    rw [start]
    apply ReadyQueues.pick (by rwa [same])
    · funext u
      simp [turning, outgoing, current]
    · funext u
      simp [schedEligible, takeable, current]
    · rfl
  | some t =>
    obtain ⟨v, out, next, priority, affinity, ready⟩ := schedOutgoing_some k t
    have h₁ := h.setTcb next priority
    have others {k' : KernelState} {u : Slot} (other : u ≠ t) (same : k'.state u = k.state u)
        (pinned : (k'.tcb u).affinity = (k.tcb u).affinity) (cur : k'.currentTcb = k.currentTcb) :
        schedEligible k' core u = takeable k core u := by
      simp [schedEligible, takeable, current, same, pinned, cur, Ne.symm other]
    cases reaped : reaps k t with
    | false =>
      have same : left k core rq = rq := by
        funext p
        simp [left, current, reaped]
      have start : schedNextThread k core = schedPick (k.setTcb t v) core (some t) := by
        simp [schedNextThread, current, out, reaped]
      rw [start]
      apply ReadyQueues.pick (by rwa [same])
      · funext u
        by_cases own : u = t
        · subst own
          simp [turning, outgoing, current, state, KernelState.setTcb, ready]
        · simp [turning, outgoing, current, Ne.symm own]
      · funext u
        by_cases own : u = t
        · subst own
          have marked : (k.setTcb u v).state u = v.state := by simp [state, KernelState.setTcb]
          have pinned : ((k.setTcb u v).tcb u).affinity = (k.tcb u).affinity := by
            simp [KernelState.setTcb, affinity]
          simp only [schedEligible, takeable, current, marked, pinned, ready]
          rfl
        · apply others own
          · simp [state, KernelState.setTcb, own]
          · simp [KernelState.setTcb, own]
          · rfl
      · rfl
    | true =>
      have same : left k core rq = fun p => (rq p).erase t := by
        funext p
        simp [left, current, reaped]
      obtain ⟨next', ready', removed, h₂⟩ := h₁.remove t
      obtain ⟨k₃, freed, free⟩ := taskFreeThread_ends
        ((k.setTcb t v).relink next' ready' (k.setTcb t v).waiters) t
      have gone : goesOn k t = false := by
        simp only [reaps, goesOn] at reaped ⊢
        cases killed : (k.tcb t).killPending with
        | true => rfl
        | false =>
          rw [killed] at reaped
          simp [of_decide_eq_true reaped]
      have start : schedNextThread k core = schedPick k₃ core none := by
        simp [schedNextThread, current, out, reaped, removed, freed]
      rw [start]
      -- The freed thread is off every queue, and a zombie or a wiped TCB.
      have out_ (p : Prio) : t ∉ (rq p).erase t := fun on =>
        absurd on (h₁.path p).nodup.not_mem_erase
      apply ReadyQueues.pick (by rw [same]; exact h₂.freed out_ free)
      · funext u
        by_cases own : u = t
        · simp [turning, outgoing, own, gone]
        · simp [turning, outgoing, current, Ne.symm own]
      · funext u
        by_cases own : u = t
        · subst own
          have off : k₃.state u ≠ .ready := by
            rcases free.self with same | zero
            · simp only [state, same, relink, KernelState.setTcb, Function.update_self]
              simpa [gone] using ready
            · simp [state, zero, Tcb.zero]
          simp [schedEligible, takeable, current, off, gone]
        · apply others own _ _ free.currentTcb
          · simp [state, free.tcb u own, relink, KernelState.setTcb, own]
          · simp [free.tcb u own, relink, KernelState.setTcb, own]
      · exact free.currentTcb

end Outgoing

end PicoOS.Kernel
