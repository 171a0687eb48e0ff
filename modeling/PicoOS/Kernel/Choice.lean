import PicoOS.Kernel.Current
import PicoOS.Kernel.Select
import Mathlib

/-!
# Priority and round-robin

What `sched_next_thread` selects: the first thread that the core may take, of the
lowest priority that has one. At the end of a slice a thread is selected again
although a peer could run, exactly if only threads that the core may not take
are ahead of it.
-/
namespace PicoOS.Kernel

open KernelState

/-! ### The steps of a core

With the other core out of the way, the steps of a core through the PendSV handler
are `schedNextThread`. -/

section

variable {m : Machine} {c : Core} {t : Slot}

theorem runs_freeRun {fuel : Nat} {stage : FreePc} {k' : KernelState}
    (at_ : m.cpu c = .reaping t stage) (ran : freeRun fuel m.k t stage = some k') :
    ∃ n, (fun m => m.step (.run c))^[n] m = { m.setCpu c .reaped with k := k' } := by
  induction fuel generalizing m stage with
  | zero => cases ran
  | succ fuel ih =>
    simp only [freeRun] at ran
    have first : m.step (.run c) = m.reapStep c t stage := by
      simp only [Machine.step, Machine.runStep, at_]
    cases next : freeStep m.k t stage with
    | mk k after =>
      rw [next] at ran
      cases after with
      | none =>
        cases ran
        refine ⟨1, ?_⟩
        rw [Function.iterate_one, first]
        simp only [Machine.reapStep, next]
      | some stage' =>
        have goes : (m.step (.run c)).cpu c = .reaping t stage' := by
          simp [first, Machine.reapStep, next, Machine.setCpu]
        have left_ : freeRun fuel (m.step (.run c)).k t stage' = some k' := by
          simpa [first, Machine.reapStep, next] using ran
        obtain ⟨n, rest⟩ := ih goes left_
        refine ⟨n + 1, ?_⟩
        rw [Function.iterate_succ_apply, rest]
        simp [first, Machine.reapStep, next, Machine.setCpu]

theorem pick_some {cur : Option Slot} {k' : KernelState}
    (picked : schedPick m.k c cur = some (k', some t)) :
    m.pick c cur = { m.setCpu c (.resuming t) with k := k' } := by
  simp only [Machine.pick, picked]

theorem reaped_step (at_ : m.cpu c = .reaped) : m.step (.run c) = m.pick c none := by
  simp only [Machine.step, Machine.runStep, at_]

/-- From `.switching` the core's own steps end where `schedNextThread` does. -/
theorem runs_schedNextThread {k' : KernelState} (at_ : m.cpu c = .switching)
    (free : m.schedFree c = true) (ran : schedNextThread m.k c = some (k', some t)) :
    ∃ n, (fun m => m.step (.run c))^[n] m = { m.setCpu c (.resuming t) with k := k' } := by
  have first : m.step (.run c) = m.nextThread c := by
    simp only [Machine.step, Machine.runStep, at_, free, if_true]
  cases current : m.k.currentTcb c with
  | none =>
    simp only [schedNextThread, current, schedOutgoing] at ran
    refine ⟨1, ?_⟩
    simp only [Function.iterate_one, first, Machine.nextThread, current, schedOutgoing]
    exact pick_some ran
  | some a =>
    obtain ⟨v, out, -⟩ := schedOutgoing_some m.k a
    cases reaped : reaps m.k a with
    | false =>
      rw [reaped] at out
      simp only [schedNextThread, current, out] at ran
      refine ⟨1, ?_⟩
      simp only [Function.iterate_one, first, Machine.nextThread, current, out]
      exact pick_some (m := { m with k := m.k.setTcb a v }) ran
    | true =>
      rw [reaped] at out
      simp only [schedNextThread, current, out] at ran
      obtain ⟨k₁, removed, ran⟩ := Option.bind_eq_some_iff.mp ran
      obtain ⟨k₂, freed, picked⟩ := Option.bind_eq_some_iff.mp ran
      have reaping : m.step (.run c) = { m.setCpu c (.reaping a .find) with k := k₁ } := by
        simp only [first, Machine.nextThread, current, out, removed]
      have goes : (m.step (.run c)).cpu c = .reaping a .find := by simp [reaping, Machine.setCpu]
      have frees : freeRun (freeWork k₁ a .find) (m.step (.run c)).k a .find = some k₂ := by
        rw [reaping]
        exact freed
      obtain ⟨n, steps⟩ := runs_freeRun goes frees
      -- The zombie is freed, and the last step selects.
      have last : ({ (m.step (.run c)).setCpu c .reaped with k := k₂ } : Machine).step (.run c) =
          { m.setCpu c (.resuming t) with k := k' } := by
        rw [reaped_step (by simp [Machine.setCpu]), pick_some picked, reaping]
        simp [Machine.setCpu]
      refine ⟨n + 1 + 1, ?_⟩
      rw [Function.iterate_succ_apply', Function.iterate_succ_apply, steps, last]

end

/-! ### Priority selection -/

section

variable {k k' : KernelState} {core : Core} {rq : Prio → List Slot} {p q : Prio} {t sel : Slot}

theorem ReadyQueues.switched (h : ReadyQueues k rq) (core : Core) (sel : Option Slot) :
    ReadyQueues (schedSwitch k core sel).1 rq := by
  cases sel with
  | none => exact h
  | some t =>
    have marked : ReadyQueues (k.setState t .running) rq := h.setTcb rfl rfl
    exact marked.congr rfl (fun _ _ _ => rfl) fun _ _ _ => rfl

/-- A READY thread that the core may take stays where it is, unless it is the outgoing one
and is killed. -/
theorem takeable_of_eligible (on : t ∈ rq p) (eligible : schedEligible k core t = true)
    (spared : ¬(k.currentTcb core = some t ∧ (k.tcb t).killPending = true)) :
    t ∈ left k core rq p ∧ takeable k core t = true := by
  simp only [schedEligible, Bool.and_eq_true, decide_eq_true_eq] at eligible
  obtain ⟨⟨ready, other⟩, affinity⟩ := eligible
  have own : k.currentTcb core = some t → (k.tcb t).killPending = false := by
    intro current
    simpa [current] using spared
  constructor
  · simp only [left]
    cases current : k.currentTcb core with
    | none => exact on
    | some a =>
      simp only
      split
      next reaped =>
        refine (List.mem_erase_of_ne ?_).mpr on
        rintro rfl
        simp [reaps, own current, ready] at reaped
      next => exact on
  · simp only [takeable, Bool.and_eq_true, decide_eq_true_eq]
    refine ⟨⟨?_, other⟩, affinity⟩
    split
    next current => simp [goesOn, own current, ready]
    next => simpa using ready

/-- The priorities before one in the scan are those of lower number. -/
theorem finRange_before {before after : List Prio}
    (split : List.finRange numPriorities = before ++ p :: after) (lower : q < p) : q ∈ before := by
  have sorted := List.pairwise_lt_finRange numPriorities
  have member := List.mem_finRange q
  rw [split] at sorted member
  rcases List.mem_append.mp member with early | late
  · exact early
  · exfalso
    rcases List.mem_cons.mp late with rfl | late
    · exact lt_irrefl _ lower
    · have above := List.rel_of_pairwise_cons (List.pairwise_append.mp sorted).2.1 late
      exact lt_asymm lower above

/-- What a selection leaves and takes, for the eight queues. -/
theorem choice_spec (h : t ∈ left k core rq p) (ok : takeable k core t = true) :
    ∃ sel p, (choice k core rq).2 = some sel ∧
      (∀ q < p, ∀ u ∈ left k core rq q, takeable k core u = false) ∧
      (rotated (outgoing k core) (left k core rq p)).find? (takeable k core) = some sel ∧
      (choice k core rq).1 p = rotated (outgoing k core) (left k core rq p) := by
  have nodup := List.nodup_finRange numPriorities
  cases taken : (choice k core rq).2 with
  | none =>
    have nothing := selection_none nodup taken p (List.mem_finRange p) t h
    rw [ok] at nothing
    cases nothing
  | some sel =>
    obtain ⟨before, p, after, split, earlier, first, queue⟩ := selection_some nodup taken
    refine ⟨sel, p, rfl, ?_, first, queue⟩
    intro q lower
    exact earlier q (finRange_before split lower)

theorem choice_queue (k : KernelState) (core : Core) (rq : Prio → List Slot) (q : Prio) :
    ((choice k core rq).1 q).Perm (left k core rq q) ∧
      ((choice k core rq).1 q).filter (fun u => k.currentTcb core ≠ some u) =
        (left k core rq q).filter fun u => k.currentTcb core ≠ some u := by
  have queue : (choice k core rq).1 q = left k core rq q ∨
      (choice k core rq).1 q = rotated (outgoing k core) (left k core rq q) :=
    selection_queue (List.nodup_finRange numPriorities) q
  rcases queue with same | turned
  · rw [same]
    exact ⟨.refl _, rfl⟩
  · rw [turned]
    refine ⟨rotated_perm _ _, rotated_others ?_ _⟩
    intro u turns
    simp only [outgoing, Bool.and_eq_true, decide_eq_true_eq] at turns
    simp [turns.1]

theorem priority_selection (h : ReadyQueues k rq) (on : t ∈ rq p)
    (eligible : schedEligible k core t = true)
    (spared : ¬(k.currentTcb core = some t ∧ (k.tcb t).killPending = true)) :
    ∃ k' sel first rq', schedNextThread k core = some (k', some sel) ∧ ReadyQueues k' rq' ∧
      (∀ q < first, ∀ u ∈ left k core rq q, takeable k core u = false) ∧
      (rotated (outgoing k core) (left k core rq first)).find? (takeable k core) = some sel ∧
      k'.state sel = .running ∧ k'.currentTcb = Function.update k.currentTcb core (some sel) ∧
      rq' first = rotated (outgoing k core) (left k core rq first) ∧
      ∀ q, (rq' q).Perm (left k core rq q) ∧
        (rq' q).filter (fun u => k.currentTcb core ≠ some u) =
          (left k core rq q).filter fun u => k.currentTcb core ≠ some u := by
  obtain ⟨there, ok⟩ := takeable_of_eligible on eligible spared
  obtain ⟨sel, first, taken, earlier, found, queue⟩ := choice_spec there ok
  obtain ⟨k₁, ran, after, current⟩ := h.nextThread core
  rw [taken] at ran
  refine ⟨_, sel, first, _, ran, after.switched core (some sel), earlier, found, ?_, ?_, queue,
    choice_queue k core rq⟩
  · simp [KernelState.setState, KernelState.setTcb, KernelState.state]
  · simp [current]

end

/-- The kernel after `sched_start` on core 0, with a thread of priority 2 and an idle one. -/
def startedPair : KernelState :=
  schedStart (taskCreateThread (taskCreateThread (taskCreateProcess taskInit 1) 0 2) 0 7) 0

theorem priority_selection_startedPair :
    ∃ k' sel first rq', schedNextThread startedPair 1 = some (k', some sel) ∧ ReadyQueues k' rq' ∧
      (∀ q < first, ∀ u ∈ left startedPair 1 startedPair.queue q,
        takeable startedPair 1 u = false) ∧
      (rotated (outgoing startedPair 1) (left startedPair 1 startedPair.queue first)).find?
        (takeable startedPair 1) = some sel ∧
      k'.state sel = .running ∧
      k'.currentTcb = Function.update startedPair.currentTcb 1 (some sel) ∧
      rq' first = rotated (outgoing startedPair 1) (left startedPair 1 startedPair.queue first) ∧
      ∀ q, (rq' q).Perm (left startedPair 1 startedPair.queue q) ∧
        (rq' q).filter (fun u => startedPair.currentTcb 1 ≠ some u) =
          (left startedPair 1 startedPair.queue q).filter
            fun u => startedPair.currentTcb 1 ≠ some u :=
  priority_selection (t := 1) (p := 7) ⟨by decide +kernel, by decide +kernel⟩ (by decide +kernel)
    (by decide +kernel) (by decide +kernel)

/-- The thread of priority 2 has blocked, was killed from core 1 and woken before the PendSV. -/
def killedWoken : KernelState :=
  (((schedBlock startedPair 0).bind fun k => schedKill k 1 0).bind fun (k, _) =>
    schedUnblock k 0).elim startedPair (·.1)

/-- READY and eligible in its queue, the thread is reaped and the idle one is returned. -/
theorem killed_outgoing_reaped :
    ReadyQueues killedWoken killedWoken.queue ∧ 0 ∈ killedWoken.queue 2 ∧
      schedEligible killedWoken 0 0 = true ∧
      ∃ k', schedNextThread killedWoken 0 = some (k', some 1) ∧ k'.tcbUsed 0 = false := by
  refine ⟨⟨by decide +kernel, by decide +kernel⟩, by decide +kernel, by decide +kernel, ?_⟩
  have ran : (schedNextThread killedWoken 0).map (fun r => (r.1.tcbUsed 0, r.2)) =
      some (false, some 1) := by decide +kernel
  obtain ⟨⟨k', sel⟩, called, result⟩ := Option.map_eq_some_iff.mp ran
  obtain ⟨freed, idle⟩ := Prod.mk.inj result
  exact ⟨k', idle ▸ called, freed⟩

/-! ### Round-robin -/

/-- Two threads of one priority that the core may both take, with nothing before them. -/
structure Peers (k : KernelState) (core : Core) (rq : Prio → List Slot) (a b : Slot) : Prop where
  queues : ReadyQueues k rq
  apart : a ≠ b
  queued : b ∈ rq (k.prio a)
  first : takeable k core a = true
  second : takeable k core b = true
  higher : ∀ q < k.prio a, ∀ u ∈ rq q, takeable k core u = false

/-- The thread is in its queue behind others, none of which the core may take. -/
def Stuck (k : KernelState) (core : Core) (rq : Prio → List Slot) (a : Slot) : Prop :=
  ∃ before after, rq (k.prio a) = before ++ a :: after ∧ before ≠ [] ∧
    ∀ u ∈ before, takeable k core u = false

section

variable {k : KernelState} {core : Core} {rq : Prio → List Slot} {a b : Slot}

/-- Nothing is freed when the outgoing thread may be taken again. -/
theorem left_of_takeable (current : k.currentTcb core = some a)
    (ok : takeable k core a = true) : left k core rq = rq := by
  have on : goesOn k a = true := by
    simp only [takeable, current, if_true, Bool.and_eq_true] at ok
    exact ok.1.1
  have kept : reaps k a = false := by
    simp only [goesOn, Bool.and_eq_true, Bool.or_eq_true, decide_eq_true_eq] at on
    rcases on with ⟨alive, running | ready⟩
    · simp [reaps, running, by simpa using alive]
    · simp [reaps, ready, by simpa using alive]
  funext p
  simp [left, current, kept]

/-- On one queue: the thread whose turn it was comes up again, before another one that may be
taken, exactly if it was behind threads that may not. -/
theorem find?_again {turns ok : Slot → Bool} {l : List Slot} {sel : Slot} (nodup : l.Nodup)
    (turn : ∀ u, turns u = true ↔ u = a) (first : ok a = true) (apart : a ≠ b) (queued : b ∈ l)
    (second : ok b = true) (found : (rotated turns l).find? ok = some sel) :
    sel = a ↔ ∃ before after, l = before ++ a :: after ∧ before ≠ [] ∧
      ∀ u ∈ before, ok u = false := by
  cases l with
  | nil => simp at queued
  | cons head rest =>
    by_cases own : head = a
    · -- It was at the head, so it is now behind the other one.
      subst own
      simp only [rotated, (turn head).mpr rfl, if_true] at found
      have peer : b ∈ rest := by
        rcases List.mem_cons.mp queued with same | member
        · exact absurd same.symm apart
        · exact member
      have before : (rest.find? ok).isSome = true := by
        rw [List.find?_isSome]
        exact ⟨b, peer, second⟩
      obtain ⟨u, early⟩ := Option.isSome_iff_exists.mp before
      rw [List.find?_append, early] at found
      cases found
      constructor
      · rintro rfl
        exact absurd (List.mem_of_find?_eq_some early) (List.nodup_cons.mp nodup).1
      · rintro ⟨before, after, split, some_, none_⟩
        exfalso
        cases before with
        | nil => exact some_ rfl
        | cons c before =>
          cases split
          simp [none_ head List.mem_cons_self] at first
    · -- The queue is as it was.
      have still : rotated turns (head :: rest) = head :: rest := by
        have not_ : turns head ≠ true := fun turned => own ((turn head).mp turned)
        simp [rotated, not_]
      rw [still] at found
      constructor
      · rintro rfl
        obtain ⟨-, before, after, split, none_⟩ := List.find?_eq_some_iff_append.mp found
        refine ⟨before, after, split, ?_, fun u member => by simpa using none_ u member⟩
        rintro rfl
        cases split
        exact own rfl
      · rintro ⟨before, after, split, -, none_⟩
        have again : (head :: rest).find? ok = some a :=
          List.find?_eq_some_iff_append.mpr
            ⟨first, before, after, split, fun u member => by simp [none_ u member]⟩
        rw [again] at found
        exact (Option.some.inj found).symm

/-- The outgoing thread is selected again exactly if it is stuck. -/
theorem Peers.reselected (h : Peers k core rq a b) (current : k.currentTcb core = some a) :
    ∃ k' sel, schedNextThread k core = some (k', some sel) ∧ (sel = a ↔ Stuck k core rq a) := by
  have kept : left k core rq = rq := left_of_takeable current h.first
  have queued : b ∈ left k core rq (k.prio a) := by
    rw [kept]
    exact h.queued
  obtain ⟨sel, p, taken, earlier, found, -⟩ := choice_spec queued h.second
  obtain ⟨k', ran, -, -⟩ := h.queues.nextThread core
  rw [taken] at ran
  refine ⟨_, sel, ran, ?_⟩
  rw [kept] at earlier found
  -- The queue it comes from is the one of the two threads.
  have same : p = k.prio a := by
    rcases lt_trichotomy p (k.prio a) with lower | same | above
    · exfalso
      have member := (rotated_perm _ _).mem_iff.mp (List.mem_of_find?_eq_some found)
      have ok := List.find?_some found
      rw [h.higher p lower sel member] at ok
      cases ok
    · exact same
    · exfalso
      have none_ := earlier (k.prio a) above b h.queued
      rw [h.second] at none_
      cases none_
  rw [same] at found
  have on : goesOn k a = true := by
    have ok := h.first
    simp only [takeable, current, if_true, Bool.and_eq_true] at ok
    exact ok.1.1
  refine find?_again (h.queues.path _).nodup (fun u => ?_) h.first h.apart h.queued h.second found
  simp only [outgoing, current, Bool.and_eq_true, decide_eq_true_eq, Option.some.injEq]
  constructor
  · exact fun turn => turn.1.symm
  · rintro rfl
    exact ⟨rfl, on⟩

end

/-- Slice ends of a core one after another: what it selects is current at the next one,
whatever has happened to the threads and queues in between. -/
structure SliceEnds (core : Core) (n : Nat) (k : Nat → KernelState) (sel : Nat → Slot) : Prop where
  selects : ∀ i < n, ∃ k', schedNextThread (k i) core = some (k', some (sel i))
  current : ∀ i, i + 1 < n → (k (i + 1)).currentTcb core = some (sel i)

/-- A thread is never selected at two slice ends in a row, while a peer could run, exactly if it
is never stuck in its queue. -/
theorem never_twice_iff {core : Core} {n : Nat} {k : Nat → KernelState} {sel : Nat → Slot}
    {rq : Nat → Prio → List Slot} {a b : Slot} (run : SliceEnds core n k sel)
    (peers : ∀ i < n, Peers (k i) core (rq i) a b) :
    (∀ i, i + 1 < n → ¬(sel i = a ∧ sel (i + 1) = a)) ↔
      ∀ i, i + 1 < n → (k (i + 1)).currentTcb core = some a →
        ¬Stuck (k (i + 1)) core (rq (i + 1)) a := by
  -- the thread that a slice end selects is the current one at the next
  have step (i : Nat) (more : i + 1 < n) :
      (sel i = a ∧ sel (i + 1) = a) ↔
        (k (i + 1)).currentTcb core = some a ∧ Stuck (k (i + 1)) core (rq (i + 1)) a := by
    have shown := run.current i more
    constructor
    · rintro ⟨this, next⟩
      rw [this] at shown
      obtain ⟨k', u, called, again⟩ := (peers (i + 1) more).reselected shown
      obtain ⟨k'', called'⟩ := run.selects (i + 1) more
      rw [called] at called'
      cases called'
      exact ⟨shown, again.mp next⟩
    · rintro ⟨own, stuck⟩
      obtain ⟨k', u, called, again⟩ := (peers (i + 1) more).reselected own
      obtain ⟨k'', called'⟩ := run.selects (i + 1) more
      rw [called] at called'
      cases called'
      rw [shown] at own
      exact ⟨Option.some.inj own, again.mpr stuck⟩
  constructor
  · intro never i more current stuck
    exact never i more ((step i more).mpr ⟨current, stuck⟩)
  · intro free i more twice
    have both := (step i more).mp twice
    exact free i more both.1 both.2

/-- After the first slice end of core 0, with the second of three threads running on core 1. -/
def secondSlice : KernelState := (schedNextThread threeThreads.k 0).elim taskInit (·.1)

/-- The same two slice ends as a run. -/
def twoSlices : Nat → KernelState
  | 0 => threeThreads.k
  | _ => secondSlice

theorem twoSlices_slices : SliceEnds 0 2 twoSlices fun _ => 2 where
  selects i few := by
    have ran : (schedNextThread (twoSlices i) 0).map (·.2) = some (some 2) := by
      revert i
      decide +kernel
    obtain ⟨⟨k', sel⟩, called, same⟩ := Option.map_eq_some_iff.mp ran
    cases same
    exact ⟨k', called⟩
  current i more := by
    obtain rfl : i = 0 := by omega
    decide +kernel

theorem twoSlices_peers : ∀ i < 2, Peers (twoSlices i) 0 (twoSlices i).queue 2 0 := by
  intro i few
  refine ⟨⟨?_, ?_⟩, ?_, ?_, ?_, ?_, ?_⟩ <;> (revert i; decide +kernel)

/-- The third thread is selected twice: the second one, at the head, is neither moved nor taken. -/
theorem third_selected_twice :
    Peers threeThreads.k 0 threeThreads.k.queue 2 0 ∧
      (schedNextThread threeThreads.k 0).map (·.2) = some (some 2) ∧
      Peers secondSlice 0 secondSlice.queue 2 0 ∧
      (schedNextThread secondSlice 0).map (·.2) = some (some 2) := by
  refine ⟨twoSlices_peers 0 (by decide), ?_, twoSlices_peers 1 (by decide), ?_⟩
  · decide +kernel
  · decide +kernel

/-- The thread is stuck at one of the two slice ends. -/
theorem never_twice_twoSlices :
    ¬ ∀ i, i + 1 < 2 → (twoSlices (i + 1)).currentTcb 0 = some 2 →
      ¬Stuck (twoSlices (i + 1)) 0 (twoSlices (i + 1)).queue 2 := by
  intro free
  have never := (never_twice_iff twoSlices_slices twoSlices_peers).mpr free
  exact never 0 (by decide) ⟨rfl, rfl⟩

end PicoOS.Kernel
