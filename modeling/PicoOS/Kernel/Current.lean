import PicoOS.Kernel.Boot
import PicoOS.Kernel.Frame

/-!
# The current threads

`current_tcb[core]` is the thread that a core runs, whatever the queues hold.
From that, no thread is on two cores, and a use of `CURRENT_TCB` denotes the
caller exactly when the thread indexes on the core whose number it read.
-/
namespace PicoOS.Kernel

open KernelState

theorem Core.other_other (c : Core) : c.other.other = c := by revert c; decide

theorem Core.other_ne (c : Core) : c.other ≠ c := by revert c; decide

theorem Core.eq_or_other (c d : Core) : d = c ∨ d = c.other := by revert c d; decide

/-- Both cores run their current threads, which differ, and the saved contexts belong to
the threads they are saved in. -/
structure Started (m : Machine) : Prop where
  running : ∀ c, ∃ x, m.cpu c = .thread x ∧ m.k.currentTcb c = some x.self
  saved : ∀ t x, (m.k.tcb t).saved = some x → x.self = t
  apart : m.k.currentTcb 0 ≠ m.k.currentTcb 1

/-- What stays of that in every run. -/
structure Scheduled (m : Machine) : Prop where
  live : ∀ c x, m.cpu c = .thread x → m.k.currentTcb c = some x.self
  resuming : ∀ c t, m.cpu c = .resuming t → m.k.currentTcb c = some t
  saved : ∀ t x, (m.k.tcb t).saved = some x → x.self = t
  apart : ∀ c : Core, m.k.currentTcb c ≠ m.k.currentTcb c.other

theorem Started.scheduled {m : Machine} (start : Started m) : Scheduled m where
  live c x run := by
    obtain ⟨y, run', current⟩ := start.running c
    rw [run] at run'
    cases run'
    exact current
  resuming c t run := by
    obtain ⟨y, run', _⟩ := start.running c
    rw [run] at run'
    cases run'
  saved := start.saved
  apart c := by
    rcases Core.eq_or_other 0 c with rfl | rfl
    · exact start.apart
    · exact start.apart.symm

namespace Scheduled

variable {m m' : Machine} {c : Core}

/-- A step that leaves the current threads alone and moves one core. -/
theorem frame (s : Scheduled m) (k : m.k.Frame m'.k) {v : Cpu}
    (cpu : m'.cpu = Function.update m.cpu c v)
    (live : ∀ x, v = .thread x → m.k.currentTcb c = some x.self)
    (resuming : ∀ t, v = .resuming t → m.k.currentTcb c = some t) : Scheduled m' where
  live d x run := by
    rw [k.current]
    rw [cpu] at run
    by_cases eq : d = c
    · subst eq
      exact live x (by simpa using run)
    · exact s.live d x (by simpa [eq] using run)
  resuming d t run := by
    rw [k.current]
    rw [cpu] at run
    by_cases eq : d = c
    · subst eq
      exact resuming t (by simpa using run)
    · exact s.resuming d t (by simpa [eq] using run)
  saved t x saved := by
    rcases k.saved t x saved with before | rfl
    · exact s.saved t x before
    · rfl
  apart d := by
    rw [k.current]
    exact s.apart d

/-- The cores stay where they are. -/
theorem keeps (s : Scheduled m) (k : m.k.Keeps m'.k) (cpu : m'.cpu = m.cpu) : Scheduled m' := by
  refine s.frame (c := 0) (v := m.cpu 0) k.frame ?_ (s.live 0) (s.resuming 0)
  rw [cpu, Function.update_eq_self]

end Scheduled

/-- What `sched_next_thread` returns: the current thread when it selects none, else a
thread that is not current on the other core. -/
theorem schedPick_cases {k k' : KernelState} {c : Core} {cur r : Option Slot}
    (h : schedPick k c cur = some (k', r)) :
    (∀ t, (k'.tcb t).saved = (k.tcb t).saved) ∧
      ((k'.currentTcb = k.currentTcb ∧ r = k.currentTcb c) ∨
        ∃ t, r = some t ∧ k.currentTcb c.other ≠ some t ∧
          k'.currentTcb = Function.update k.currentTcb c (some t)) := by
  obtain ⟨⟨k₁, selected⟩, select, same⟩ := Option.map_eq_some_iff.mp h
  have keeps := schedSelect_same select
  cases selected with
  | none =>
    cases same
    exact ⟨keeps.saved, .inl ⟨keeps.current, congrFun keeps.current c⟩⟩
  | some t =>
    cases same
    have running := Same.setState k₁ t .running
    refine ⟨(keeps.trans running).saved, .inr ⟨t, rfl, schedSelect_apart select, ?_⟩⟩
    simp [keeps.current]

theorem pick_scheduled {m : Machine} {c : Core} (s : Scheduled m) (cur : Option Slot) :
    Scheduled (m.pick c cur) := by
  unfold Machine.pick
  split
  next => exact s
  next k pick =>
    obtain ⟨saved, none | ⟨t, h, _⟩⟩ := schedPick_cases pick
    · exact s.frame (c := c) (v := .halted) (Keeps.frame ⟨none.1, saved⟩) rfl
        (fun _ h => by cases h) (fun _ h => by cases h)
    · cases h
  next k t pick =>
    obtain ⟨saved, ⟨same, current⟩ | ⟨u, h, other, current⟩⟩ := schedPick_cases pick
    · refine s.frame (c := c) (v := .resuming t) (Keeps.frame ⟨same, saved⟩) rfl
        (fun _ h => by cases h) fun u h => ?_
      cases h
      exact current.symm
    · cases h
      -- The other core's current thread was skipped, so the two still differ.
      have mine : k.currentTcb c = some t := by simp [current]
      have theirs : k.currentTcb c.other = m.k.currentTcb c.other := by
        simp [current, Core.other_ne]
      refine ⟨fun d x run => ?_, fun d u run => ?_, fun u x h => s.saved u x (saved u ▸ h),
        fun d => ?_⟩
      · rcases Core.eq_or_other c d with rfl | rfl
        · simp [Machine.setCpu] at run
        · exact theirs.trans (s.live _ x (by simpa [Machine.setCpu, Core.other_ne] using run))
      · rcases Core.eq_or_other c d with rfl | rfl
        · obtain rfl : t = u := by simpa [Machine.setCpu] using run
          exact mine
        · exact theirs.trans (s.resuming _ u (by simpa [Machine.setCpu, Core.other_ne] using run))
      · rcases Core.eq_or_other c d with rfl | rfl
        · simp only [mine, theirs]
          exact other.symm
        · simp only [Core.other_other, mine, theirs]
          exact other

theorem nextThread_scheduled {m : Machine} {c : Core} (s : Scheduled m) :
    Scheduled (m.nextThread c) := by
  unfold Machine.nextThread
  have out := schedOutgoing_same m.k (m.k.currentTcb c)
  dsimp only
  generalize schedOutgoing m.k (m.k.currentTcb c) = r at out ⊢
  split
  next k t _ =>
    split
    next => exact s
    next k₁ removed =>
      exact s.frame (c := c) (v := .reaping t .find) (out.trans (schedRemoveThreadRaw_same removed)).frame
        rfl (fun _ h => by cases h) (fun _ h => by cases h)
  next k _ _ =>
    have marked : Scheduled { m with k := k } := s.keeps out.toKeeps rfl
    exact pick_scheduled marked _

/-- One step of either core, whatever it is, keeps the current threads apart. -/
theorem step_scheduled {m : Machine} (s : Scheduled m) (e : Event) : Scheduled (m.step e) := by
  cases e with
  | call c call =>
    simp only [Machine.step, Machine.callStep]
    split
    next x run =>
      split
      next =>
        refine s.frame (c := c) (v := .thread _) (Keeps.refl _).frame rfl ?_ (fun _ h => by cases h)
        intro y h
        cases h
        exact s.live c x run
      next => exact s
    next => exact s
  | sysTick c =>
    simp only [Machine.step, Machine.tickStep]
    split
    next =>
      split
      next => exact s
      next k expired tick => exact s.keeps (isrSystick_same tick).toKeeps rfl
    next => exact s
  | elapse us => exact s.keeps (Keeps.refl _) rfl
  | run c =>
    simp only [Machine.step, Machine.runStep]
    split
    next x run =>
      split
      next =>
        -- The entry of isr_pendsv saves the context in its own thread's TCB.
        simp only [Machine.pendSvEntry, s.live c x run]
        refine ⟨fun d y h => ?_, fun d t h => ?_, fun t y h => ?_, s.apart⟩
        · rcases Core.eq_or_other c d with rfl | rfl
          · simp [Machine.setCpu] at h
          · exact s.live _ y (by simpa [Machine.setCpu, Core.other_ne] using h)
        · rcases Core.eq_or_other c d with rfl | rfl
          · simp [Machine.setCpu] at h
          · exact s.resuming _ t (by simpa [Machine.setCpu, Core.other_ne] using h)
        · by_cases eq : t = x.self
          · subst eq
            obtain rfl : x = y := by simpa [KernelState.setTcb] using h
            rfl
          · exact s.saved t y (by simpa [KernelState.setTcb, eq] using h)
      next =>
        split
        next => exact s
        next a act =>
          refine s.frame (c := c) (v := .thread _) (act_frame act) rfl ?_ (fun _ h => by cases h)
          intro y h
          cases h
          exact s.live c x run
    next =>
      split
      next => exact nextThread_scheduled s
      next => exact s
    next t stage _ =>
      unfold Machine.reapStep
      have freed := freeStep_frame m.k t stage
      split <;>
        exact s.frame (c := c) (by simpa [*] using freed) rfl (fun _ h => by cases h)
          (fun _ h => by cases h)
    next => exact pick_scheduled s none
    next t run =>
      have mine := s.resuming c t run
      have same : Function.update m.k.currentTcb c (some t) = m.k.currentTcb := by
        rw [← mine, Function.update_eq_self]
      unfold Machine.resume
      split
      next =>
        exact s.frame (c := c) (v := .halted) (Keeps.frame ⟨same, fun _ => rfl⟩) rfl
          (fun _ h => by cases h) (fun _ h => by cases h)
      next x saved =>
        refine s.frame (c := c) (v := .thread x) (Keeps.frame ⟨same, fun _ => rfl⟩) rfl ?_
          (fun _ h => by cases h)
        intro y h
        cases h
        rw [mine, s.saved t x saved]
    next => exact s

theorem run_scheduled {m : Machine} (s : Scheduled m) (es : List Event) :
    Scheduled (Run.exec Machine.step m es) :=
  Run.exec_invariant (I := Scheduled) (fun _ e s => step_scheduled s e) s es

/-- No thread is on two cores: in every run the current threads of the cores differ, and a
thread that `sched_next_thread` has chosen for a core runs on none and is chosen by no other,
so its last context is the saved one. -/
theorem no_thread_on_two_cores {m : Machine} (start : Started m) (es : List Event) :
    let m' := Run.exec Machine.step m es
    m'.k.currentTcb 0 ≠ m'.k.currentTcb 1 ∧
      (∀ c x, m'.cpu c = .thread x → m'.k.currentTcb c = some x.self) ∧
      ∀ c t, m'.cpu c = .resuming t →
        (∀ d x, m'.cpu d = .thread x → x.self ≠ t) ∧ ∀ d, d ≠ c → m'.cpu d ≠ .resuming t := by
  intro m'
  have s : Scheduled m' := run_scheduled start.scheduled es
  refine ⟨s.apart 0, s.live, fun c t chosen => ⟨fun d x run same => ?_, fun d apart run => ?_⟩⟩
  · have mine := s.resuming c t chosen
    have theirs := s.live d x run
    rcases Core.eq_or_other c d with rfl | rfl
    · rw [chosen] at run
      cases run
    · exact s.apart c (by rw [mine, theirs, same])
  · rcases Core.eq_or_other c d with rfl | rfl
    · exact apart rfl
    · exact s.apart c (by rw [s.resuming c t chosen, s.resuming _ t run])

/-! ### CURRENT_TCB -/

/-- The entry of `current_tcb[]` that a step takes for `CURRENT_TCB`. With interrupts off it is
that of the core it runs on. -/
def Pc.indexed (core : Core) : Pc → Option Core
  | .index r _ => some r
  | .test _ _ | .blocking _ | .sleepLock => some core
  | _ => none

/-- A thread that uses `CURRENT_TCB` in this step gets its own TCB, and accesses no other
through it. -/
def Machine.usesOwnTcb (m : Machine) : Event → Bool
  | .run c =>
    match m.executes c with
    | none => true
    | some x =>
      (match x.pc.indexed c with
        | none => true
        | some r => m.k.currentTcb r = some x.self) &&
      (match x.pc with
        | .access p _ => p = x.self
        | _ => true)
  | _ => true

/-- A thread that indexes `current_tcb[]` in this step is still on the core whose number it
read. -/
def Machine.indexesOwnCore (m : Machine) : Event → Bool
  | .run c =>
    match m.executes c with
    | some ⟨_, .index r _, _⟩ => r = c
    | _ => true
  | _ => true

/-- The TCB that a thread is about to access through a loaded `CURRENT_TCB`. -/
def Pc.loaded : Pc → Option Slot
  | .access p _ => some p
  | _ => none

/-- The pointers that threads have loaded, on a core or switched out, are their own. -/
structure OwnPointers (m : Machine) : Prop where
  live : ∀ c x p, m.cpu c = .thread x → x.pc.loaded = some p → p = x.self
  saved : ∀ t x p, (m.k.tcb t).saved = some x → x.pc.loaded = some p → p = x.self

theorem executes_eq_some {m : Machine} {c : Core} {x : Ctx} :
    m.executes c = some x ↔ m.cpu c = .thread x ∧ (m.pendSv c && m.irqsOn c) = false := by
  unfold Machine.executes
  split
  next y run =>
    split
    next masked => simp [run, masked]
    next free => simp [run, free]
  next other =>
    constructor
    · intro h
      cases h
    · rintro ⟨run, _⟩
      exact absurd run (other x)

/-- On its own core a thread finds itself, and on the other core someone else. -/
theorem usesOwnTcb_iff {m : Machine} (s : Scheduled m) (own : OwnPointers m) (e : Event) :
    m.usesOwnTcb e = true ↔ m.indexesOwnCore e = true := by
  cases e with
  | call | sysTick | elapse => exact Iff.rfl
  | run c =>
    simp only [Machine.usesOwnTcb, Machine.indexesOwnCore]
    cases exec : m.executes c with
    | none => simp
    | some x =>
      obtain ⟨run, _⟩ := executes_eq_some.mp exec
      have current := s.live c x run
      obtain ⟨self, pc, ret⟩ := x
      cases pc with
      | index r u =>
        simp only [Pc.indexed, Bool.and_true, decide_eq_true_eq]
        constructor
        · intro found
          rcases Core.eq_or_other c r with rfl | rfl
          · rfl
          · exact absurd (current.trans found.symm) (s.apart c)
        · rintro rfl
          exact current
      | access p u => simpa [Pc.indexed] using own.live c _ p run rfl
      | test | blocking | sleepLock => simpa [Pc.indexed] using current
      | _ => simp [Pc.indexed]

@[simp] theorem WakeLoop.woken_loaded (loop : WakeLoop) : loop.woken.loaded = none := by
  cases loop <;> rfl

@[simp] theorem WakeLoop.freed_loaded (loop : WakeLoop) : loop.freed.loaded = none := by
  cases loop <;> rfl

@[simp] theorem FreeCaller.resume_loaded (caller : FreeCaller) : caller.resume.loaded = none := by
  cases caller with
  | killer => rfl
  | waker loop => exact loop.freed_loaded

@[simp] theorem wakePc_loaded (k : KernelState) (wakes : Option WaitList) :
    (wakePc k wakes).loaded = none := by
  unfold wakePc
  split <;> rfl

/-- A pointer is only loaded by indexing `current_tcb[]`. -/
theorem act_loaded {m : Machine} {c : Core} {x : Ctx} {a : Act} {p : Slot}
    (h : m.act c x = some a) (loaded : a.pc.loaded = some p) :
    ∃ r u, x.pc = .index r u ∧ m.k.currentTcb r = some p := by
  obtain ⟨self, pc, ret⟩ := x
  cases pc with
  | index r u =>
    refine ⟨r, u, rfl, ?_⟩
    simp only [Machine.act] at h
    rcases (indexStep_cases h).2 with
      ⟨_, pc⟩ | pc | pc | pc | ⟨q, found, pc⟩ | ⟨_, _, pc⟩ <;> rw [pc] at loaded
    case inr.inr.inr.inr.inl => rw [found, ← loaded, Pc.loaded]
    all_goals cases loaded
  | user => cases h
  | access q u =>
    simp only [Machine.act] at h
    rcases accessStep_cases h with pc | ⟨_, pc⟩ | ⟨_, _, pc⟩ | pc | pc <;> rw [pc] at loaded <;>
      cases loaded
  | test op again =>
    simp only [Machine.act, Option.ite_none_right_eq_some] at h
    obtain ⟨cur, _, h⟩ := Option.bind_eq_some_iff.mp h.2
    unfold testStep at h
    split at h
    next =>
      cases h
      simp at loaded
    next =>
      obtain ⟨k₁, _, rfl⟩ := Option.map_eq_some_iff.mp h
      cases loaded
  | blocking | sleepLock =>
    simp only [Machine.act, Option.ite_none_right_eq_some] at h
    obtain ⟨cur, _, h⟩ := Option.bind_eq_some_iff.mp h.2
    obtain ⟨k₁, _, rfl⟩ := Option.map_eq_some_iff.mp h
    cases loaded
  | post op =>
    simp only [Machine.act, Option.ite_none_right_eq_some] at h
    cases h.2
    simp [postStep] at loaded
  | unblocking | killLock =>
    simp only [Machine.act, Option.ite_none_right_eq_some] at h
    obtain ⟨⟨k₁, flag⟩, _, rfl⟩ := Option.map_eq_some_iff.mp h.2
    dsimp only at loaded
    split at loaded <;> first
      | cases loaded
      | simp at loaded
  | createAdd t =>
    simp only [Machine.act, Option.ite_none_right_eq_some] at h
    obtain ⟨k₁, _, rfl⟩ := Option.map_eq_some_iff.mp h.2
    cases loaded
  | freeing t stage caller =>
    cases h
    unfold freeingStep at loaded
    split at loaded
    next => cases loaded
    next => simp at loaded
  | waking | scanning | killFind | killNext | snapshot | createFind | createAlloc | createInit
  | createCount | procFind =>
    cases h
    simp only [wakeStep, scanStep, killFindStep, killNextStep, snapshotStep, createFindStep,
      createAllocStep, createInitStep, createCountStep, procFindStep] at loaded
    repeat' split at loaded
    all_goals cases loaded
  | yielding | yielded | readCore | exitLoop | exitProc | yieldReturn | sleepYield | slept
  | killCore | killProc
  | createClaim | createLink | procClaim | procFill =>
    cases h
    cases loaded

namespace OwnPointers

variable {m m' : Machine} {c : Core}

/-- A step that moves one core to a point with no pointer, or with its own, and saves no
context but that of a new thread. -/
theorem frame (own : OwnPointers m)
    (saved : ∀ t x, (m'.k.tcb t).saved = some x →
      (m.k.tcb t).saved = some x ∨ x = ⟨t, .user, .none⟩) {v : Cpu}
    (cpu : m'.cpu = Function.update m.cpu c v)
    (live : ∀ x p, v = .thread x → x.pc.loaded = some p → p = x.self) : OwnPointers m' where
  live d x p run loaded := by
    rw [cpu] at run
    by_cases eq : d = c
    · subst eq
      exact live x p (by simpa using run) loaded
    · exact own.live d x p (by simpa [eq] using run) loaded
  saved t x p h loaded := by
    rcases saved t x h with before | rfl
    · exact own.saved t x p before loaded
    · cases loaded

theorem keeps (own : OwnPointers m) (k : m.k.Keeps m'.k) (cpu : m'.cpu = m.cpu) :
    OwnPointers m' := by
  refine own.frame (c := 0) (v := m.cpu 0) k.frame.saved ?_ (own.live 0)
  rw [cpu, Function.update_eq_self]

theorem pick (own : OwnPointers m) (cur : Option Slot) : OwnPointers (m.pick c cur) := by
  unfold Machine.pick
  split
  next => exact own
  next k pick =>
    refine own.frame (c := c) (v := .halted) (fun t x h => .inl ?_) rfl (fun _ _ h => by cases h)
    exact (schedPick_cases pick).1 t ▸ h
  next k t pick =>
    refine own.frame (c := c) (v := .resuming t) (fun u x h => .inl ?_) rfl
      (fun _ _ h => by cases h)
    exact (schedPick_cases pick).1 u ▸ h

theorem nextThread (own : OwnPointers m) : OwnPointers (m.nextThread c) := by
  unfold Machine.nextThread
  have out := schedOutgoing_same m.k (m.k.currentTcb c)
  dsimp only
  generalize schedOutgoing m.k (m.k.currentTcb c) = r at out ⊢
  split
  next k t _ =>
    split
    next => exact own
    next k₁ removed =>
      exact own.frame (c := c) (v := .reaping t .find)
        (out.trans (schedRemoveThreadRaw_same removed)).frame.saved rfl (fun _ _ h => by cases h)
  next k _ _ =>
    have marked : OwnPointers { m with k := k } := own.keeps out.toKeeps rfl
    exact marked.pick _

/-- The step of a thread. Only indexing loads a pointer. -/
theorem commit (own : OwnPointers m) {x : Ctx} {a : Act} (act : m.act c x = some a)
    (index : ∀ r u p, x.pc = .index r u → m.k.currentTcb r = some p → p = x.self) :
    OwnPointers (m.commit c x a) := by
  refine own.frame (c := c) (act_frame act).saved rfl ?_
  intro y p h loaded
  cases h
  obtain ⟨r, u, at_, found⟩ := act_loaded act loaded
  exact index r u p at_ found

end OwnPointers

/-- A step that indexes on its own core, if it indexes, loads no foreign pointer. -/
theorem step_ownPointers {m : Machine} (s : Scheduled m) (own : OwnPointers m) {e : Event}
    (stays : m.indexesOwnCore e = true) : OwnPointers (m.step e) := by
  cases e with
  | call c call =>
    simp only [Machine.step, Machine.callStep]
    split
    next x run =>
      split
      next =>
        refine own.frame (c := c) (v := .thread _) (fun _ _ h => .inl h) rfl ?_
        intro y p h loaded
        cases h
        cases call <;> cases loaded
      next => exact own
    next => exact own
  | sysTick c =>
    simp only [Machine.step, Machine.tickStep]
    split
    next =>
      split
      next => exact own
      next k expired tick => exact own.keeps (isrSystick_same tick).toKeeps rfl
    next => exact own
  | elapse us => exact own.keeps (Keeps.refl _) rfl
  | run c =>
    simp only [Machine.step, Machine.runStep]
    split
    next x run =>
      split
      next =>
        -- isr_pendsv saves the context, pointer and all, with the thread it belongs to.
        simp only [Machine.pendSvEntry, s.live c x run]
        refine ⟨fun d y p h loaded => ?_, fun t y p h loaded => ?_⟩
        · rcases Core.eq_or_other c d with rfl | rfl
          · simp [Machine.setCpu] at h
          · exact own.live _ y p (by simpa [Machine.setCpu, Core.other_ne] using h) loaded
        · by_cases eq : t = x.self
          · subst eq
            obtain rfl : x = y := by simpa [KernelState.setTcb] using h
            exact own.live c x p run loaded
          · exact own.saved t y p (by simpa [KernelState.setTcb, eq] using h) loaded
      next free =>
        split
        next => exact own
        next a act =>
          refine own.commit act fun r u p at_ found => ?_
          have exec : m.executes c = some x := executes_eq_some.mpr ⟨run, by simpa using free⟩
          obtain ⟨self, pc, ret⟩ := x
          cases at_
          have same : r = c := by simpa [Machine.indexesOwnCore, exec] using stays
          subst same
          exact Option.some.inj (found.symm.trans (s.live r _ run))
    next =>
      split
      next => exact own.nextThread
      next => exact own
    next t stage _ =>
      unfold Machine.reapStep
      have freed := freeStep_frame m.k t stage
      split <;>
        exact own.frame (c := c) (by simpa [*] using freed.saved) rfl (fun _ _ h => by cases h)
    next => exact own.pick none
    next t run =>
      unfold Machine.resume
      split
      next =>
        exact own.frame (c := c) (v := .halted) (fun _ _ h => .inl h) rfl (fun _ _ h => by cases h)
      next x saved =>
        refine own.frame (c := c) (v := .thread x) (fun _ _ h => .inl h) rfl ?_
        intro y p h loaded
        cases h
        exact own.saved t x p saved loaded
    next => exact own

/-- In a run every use of `CURRENT_TCB` is the caller's own TCB if and only if no thread moves
to the other core between reading the core number and indexing with it. -/
theorem uses_own_tcb_iff {m : Machine} (start : Started m) (own : OwnPointers m)
    (es : List Event) :
    Run.Along Machine.step (fun m e => m.usesOwnTcb e = true) m es ↔
      Run.Along Machine.step (fun m e => m.indexesOwnCore e = true) m es :=
  Run.along_congr (I := fun m => Scheduled m ∧ OwnPointers m)
    (fun _ e h stays => ⟨step_scheduled h.1 e, step_ownPointers h.1 h.2 stays⟩)
    (fun _ e h => usesOwnTcb_iff h.1 h.2 e) ⟨start.scheduled, own⟩ es

/-- Both cores and all threads are outside the kernel, each core in its current thread. -/
def AtBoot (m : Machine) : Prop :=
  (∀ c, ∃ t, m.cpu c = .thread ⟨t, .user, .none⟩ ∧ m.k.currentTcb c = some t) ∧
    (∀ t, (m.k.tcb t).saved = none ∨ (m.k.tcb t).saved = some ⟨t, .user, .none⟩) ∧
    m.k.currentTcb 0 ≠ m.k.currentTcb 1

instance (m : Machine) : Decidable (AtBoot m) := inferInstanceAs (Decidable (_ ∧ _ ∧ _))

theorem AtBoot.started {m : Machine} (boot : AtBoot m) : Started m where
  running c := by
    obtain ⟨t, run, current⟩ := boot.1 c
    exact ⟨_, run, current⟩
  saved t x saved := by
    rcases boot.2.1 t with empty | fresh
    · rw [empty] at saved
      cases saved
    · rw [fresh] at saved
      cases saved
      rfl
  apart := boot.2.2

theorem AtBoot.ownPointers {m : Machine} (boot : AtBoot m) : OwnPointers m where
  live c x p run loaded := by
    obtain ⟨t, run', _⟩ := boot.1 c
    rw [run'] at run
    cases run
    cases loaded
  saved t x p saved loaded := by
    rcases boot.2.1 t with empty | fresh
    · rw [empty] at saved
      cases saved
    · rw [fresh] at saved
      cases saved
      cases loaded

/-- Three threads of priority 4, each in a process of its own. The first two run. -/
def threeThreads : Machine :=
  let k := taskCreateProcess (taskCreateProcess (taskCreateProcess taskInit 10) 11) 12
  .boot (taskCreateThread (taskCreateThread (taskCreateThread k 0 4) 1 4) 2 4)

/-- A whole time slice and the switch at its end. -/
def sliceEnd (c : Core) : List Event :=
  List.replicate timeSliceMs (.sysTick c) ++ List.replicate 3 (.run c)

/-- `SYS_GETPID` by the first thread, which is moved to core 1 when it has read that it is on
core 0. -/
def migratedGetpid : List Event :=
  Event.call 0 .sysGetpid :: List.replicate 3 (Event.run 0) ++ sliceEnd 0 ++ sliceEnd 1 ++
    List.replicate 2 (Event.run 1)

/-- The moved thread gets the PID of the thread that took its place on core 0. -/
theorem migratedGetpid_foreign :
    AtBoot threeThreads ∧
      ¬ Run.Along Machine.step (fun m e => m.usesOwnTcb e = true) threeThreads migratedGetpid ∧
      (threeThreads.k.tcb 0).pid = 10 ∧
      (Run.exec Machine.step threeThreads migratedGetpid).cpu 1 = .thread ⟨0, .user, .word 12⟩ := by
  decide +kernel

/-- Moved outside the call only, the thread gets its own TCB at each use. -/
theorem stayedGetpid_own :
    Run.Along Machine.step (fun m e => m.usesOwnTcb e = true) threeThreads
      (sliceEnd 0 ++ sliceEnd 1 ++ .call 1 .sysGetpid :: List.replicate 6 (.run 1)) := by
  have boot : AtBoot threeThreads := by decide +kernel
  exact (uses_own_tcb_iff boot.started boot.ownPointers _).mpr (by decide +kernel)

/-- The two cores of the same machine over four slice ends and a mutex. -/
theorem threeThreads_apart :
    let m := Run.exec Machine.step threeThreads
      (.call 0 (.wait (.kmutexLock 0)) :: .run 0 :: sliceEnd 0 ++ sliceEnd 1 ++ sliceEnd 0)
    m.k.currentTcb 0 ≠ m.k.currentTcb 1 := by
  have boot : AtBoot threeThreads := by decide +kernel
  exact (no_thread_on_two_cores boot.started _).1

end PicoOS.Kernel
