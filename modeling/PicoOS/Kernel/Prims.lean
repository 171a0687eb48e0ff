import PicoOS.Kernel.Current

/-!
# Who writes the primitives

A mutex, semaphore, event or queue changes only in the section of its own
calls, and a tid only when a TCB is wiped or made anew. Whatever the scheduler
does with the threads in between, what holds of a primitive is decided by
those sections.
-/
namespace PicoOS.Kernel

/-- The TCB that an event wipes or makes anew. -/
def Machine.recasts (m : Machine) : Event → Option Slot
  | .run c =>
    match m.cpu c with
    | .reaping t (.wipe _) => some t
    | _ => (m.executes c).bind fun x => x.pc.recasts
  | _ => none

/-- The step that an event makes a thread take. -/
def Machine.acts (m : Machine) : Event → Option (Ctx × Act)
  | .run c => (m.executes c).bind fun x => (m.act c x).map fun a => (x, a)
  | _ => none

/-! ### Sections -/

section
variable {k k' : KernelState} {t : Slot}

theorem KernelState.setTcb_tid (k : KernelState) {v : Tcb} (same : v.tid = k.tid t) (u : Slot) :
    (k.setTcb t v).tid u = k.tid u := by
  by_cases eq : u = t
  · subst eq
    simp [KernelState.tid, KernelState.setTcb, same]
  · simp [KernelState.tid, KernelState.setTcb, eq]

theorem waitTake_tid {op : WaitOp} {s : Section} (h : waitTake k t op = some s) (u : Slot) :
    s.k.tid u = k.tid u := by
  cases op <;> simp only [waitTake, Option.ite_none_right_eq_some, Option.some.injEq] at h <;>
    obtain ⟨_, rfl⟩ := h <;> rfl

theorem postTake_tid (k : KernelState) (op : PostOp) (u : Slot) :
    (postTake k op).k.tid u = k.tid u := by
  cases op <;> simp only [postTake] <;> first | rfl | (split <;> rfl)

theorem freeStep_prims (k : KernelState) (t : Slot) (stage : FreePc) :
    (freeStep k t stage).1.prims = k.prims := by
  by_cases wipes : ∃ p, stage = .wipe p
  · obtain ⟨p, rfl⟩ := wipes
    rfl
  · exact (freeStep_same k t fun p eq => wipes ⟨p, eq⟩).prims

theorem freeStep_tid (k : KernelState) {t u : Slot} {stage : FreePc}
    (other : ∀ p, stage = .wipe p → u ≠ t) : (freeStep k t stage).1.tid u = k.tid u := by
  by_cases wipes : ∃ p, stage = .wipe p
  · obtain ⟨p, rfl⟩ := wipes
    simp [freeStep, KernelState.tid, KernelState.setTcb, other p rfl]
  · exact (freeStep_same k t fun p eq => wipes ⟨p, eq⟩).tid u

theorem initThread_tid (k : KernelState) {t u : Slot} (a : CreateArgs) (other : u ≠ t) :
    (initThread k t a).tid u = k.tid u := by
  simp [initThread, KernelState.tid, KernelState.setTcb, other]

end

/-! ### Steps -/

section
variable {m : Machine} {c : Core} {x : Ctx} {a : Act}

theorem acts_run {e : Event} (h : m.acts e = some (x, a)) :
    ∃ c, e = .run c ∧ m.executes c = some x ∧ m.act c x = some a := by
  cases e with
  | run c =>
    obtain ⟨y, runs, h⟩ := Option.bind_eq_some_iff.mp h
    obtain ⟨b, h, same⟩ := Option.map_eq_some_iff.mp h
    cases same
    exact ⟨c, rfl, runs, h⟩
  | call | sysTick | elapse => cases h

theorem acts_of (runs : m.executes c = some x) (h : m.act c x = some a) :
    m.acts (.run c) = some (x, a) := by
  simp [Machine.acts, runs, h]

theorem step_commit (runs : m.executes c = some x) (h : m.act c x = some a) :
    m.step (.run c) = m.commit c x a := by
  obtain ⟨at_, free⟩ := executes_eq_some.mp runs
  simp only [Machine.step, Machine.runStep, at_, free, Bool.false_eq_true, if_false, h]

/-- Outside the sections a step of a thread leaves the primitives alone. -/
theorem act_prims (h : m.act c x = some a) (outside : x.pc.enters = false) :
    a.k.prims = m.k.prims := by
  cases at_ : x.pc with
  | test | post => rw [at_] at outside; cases outside
  | freeing t stage caller =>
    simp only [Machine.act, at_, Option.some.injEq] at h
    have freed := freeStep_prims m.k t stage
    rw [← h]
    unfold freeingStep
    split <;> simpa [*] using freed
  | createInit t args =>
    simp only [Machine.act, at_, Option.some.injEq] at h
    rw [← h]
    unfold createInitStep
    split <;> rfl
  | _ => exact (act_same h outside (by rw [at_]; rfl)).prims

/-- A step of a thread leaves the tids alone, but for a TCB that it wipes or makes anew. -/
theorem act_tid (h : m.act c x = some a) {u : Slot} (other : x.pc.recasts ≠ some u) :
    a.k.tid u = m.k.tid u := by
  cases at_ : x.pc with
  | test op again =>
    obtain ⟨cur, _, ⟨s, taken, rfl⟩ | ⟨_, same, _⟩⟩ := test_cases at_ h
    · exact waitTake_tid taken u
    · exact same.tid u
  | post op =>
    rw [post_cases at_ h]
    exact postTake_tid m.k op u
  | freeing t stage caller =>
    simp only [Machine.act, at_, Option.some.injEq] at h
    have freed := freeStep_tid m.k fun p (wipe : stage = .wipe p) (same : u = t) => by
      rw [at_, wipe, same] at other
      exact other rfl
    rw [← h]
    unfold freeingStep
    split <;> simpa [*] using freed
  | createInit t args =>
    simp only [Machine.act, at_, Option.some.injEq] at h
    have made := initThread_tid m.k (t := t) (u := u) args fun same => by
      rw [at_, same] at other
      exact other rfl
    rw [← h]
    unfold createInitStep
    split <;> exact made
  | _ => exact (act_same h (by rw [at_]; rfl) (by rw [at_]; rfl)).tid u

end

/-! ### Sections that are under way -/

/-- The thread that is in the section of a primitive, with interrupts off. -/
def Cpu.holder : Cpu → Option Ctx
  | .thread x => if x.pc.stripe.isSome then some x else none
  | _ => none

theorem holder_thread {x : Ctx} (outside : x.pc.stripe = none) : (Cpu.thread x).holder = none := by
  simp [Cpu.holder, outside]

/-- The contexts that are saved are outside the sections. -/
def SavedOutside (k : KernelState) : Prop := ∀ t x, (k.tcb t).saved = some x → x.pc.stripe = none

/-- What an event leaves alone that is not the step of a thread: the primitives, all tids but one,
and the sections that are under way. -/
structure Rest (m : Machine) (e : Event) (m' : Machine) : Prop where
  idle : m.acts e = none
  prims : m'.k.prims = m.k.prims
  tid : ∀ u, m.recasts e ≠ some u → m'.k.tid u = m.k.tid u
  saved : ∀ t x, (m'.k.tcb t).saved = some x →
    (m.k.tcb t).saved = some x ∨ x.pc.stripe = none
  holder : SavedOutside m.k → ∀ d, (m'.cpu d).holder = (m.cpu d).holder

namespace Rest

variable {m m' : Machine} {e : Event} {c : Core}

/-- The kernel state keeps what the scheduler leaves alone, and one core moves. -/
theorem moves (idle : m.acts e = none) (same : m.k.Same m'.k) {v : Cpu}
    (cpu : m'.cpu = Function.update m.cpu c v)
    (holder : SavedOutside m.k → v.holder = (m.cpu c).holder) : Rest m e m' where
  idle := idle
  prims := same.prims
  tid u _ := same.tid u
  saved t x h := .inl (same.saved t ▸ h)
  holder outside d := by
    rw [cpu]
    by_cases eq : d = c
    · subst eq
      simpa using holder outside
    · simp [eq]

theorem stays (idle : m.acts e = none) (same : m.k.Same m'.k) (cpu : m'.cpu = m.cpu) :
    Rest m e m' := by
  refine .moves (c := 0) (v := m.cpu 0) idle same ?_ fun _ => rfl
  rw [cpu, Function.update_eq_self]

end Rest

/-- What an event is. -/
inductive Stepped (m : Machine) : Event → Machine → Prop where
  | act (c : Core) {x : Ctx} {a : Act} (runs : m.executes c = some x) (h : m.act c x = some a) :
      Stepped m (.run c) (m.commit c x a)
  | rest (e : Event) {m' : Machine} (rest : Rest m e m') : Stepped m e m'

/-- A core that executes no context takes no step of a thread. -/
theorem acts_idle {m : Machine} {c : Core} (out : m.executes c = none) : m.acts (.run c) = none := by
  simp [Machine.acts, out]

section
variable {m : Machine} {c : Core} {e : Event}

theorem schedPick_keeps {k k' : KernelState} {cur r : Option Slot}
    (h : schedPick k c cur = some (k', r)) :
    k'.prims = k.prims ∧ (∀ u, k'.tid u = k.tid u) ∧
      ∀ t, (k'.tcb t).saved = (k.tcb t).saved := by
  obtain ⟨⟨k₁, selected⟩, select, same⟩ := Option.map_eq_some_iff.mp h
  have keeps := schedSelect_same select
  cases selected with
  | none =>
    cases same
    exact ⟨keeps.prims, keeps.tid, keeps.saved⟩
  | some t =>
    cases same
    have running := keeps.trans (KernelState.Same.setState k₁ t .running)
    exact ⟨running.prims, running.tid, running.saved⟩

/-- The second part of `sched_next_thread` from a core that runs no thread. -/
theorem pick_rest {cur : Option Slot} {k : KernelState} (idle : m.acts e = none)
    (same : m.k.Same k) (out : (m.cpu c).holder = none) :
    Rest m e ({ m with k := k }.pick c cur) := by
  have moves {k' : KernelState} {r : Option Slot} (h : schedPick k c cur = some (k', r)) {v : Cpu}
      (quiet : v.holder = none) :
      Rest m e { m with k := k', cpu := Function.update m.cpu c v } := by
    obtain ⟨prims, tid, saved⟩ := schedPick_keeps h
    refine ⟨idle, prims.trans same.prims, fun u _ => (tid u).trans (same.tid u), ?_, ?_⟩
    · exact fun t x h => .inl (same.saved t ▸ saved t ▸ h)
    · intro _ d
      by_cases eq : d = c
      · subst eq
        simpa using quiet.trans out.symm
      · simp [eq]
  unfold Machine.pick
  split
  next => exact .stays idle same rfl
  next h => exact moves h rfl
  next h => exact moves h rfl

theorem nextThread_rest (idle : m.acts e = none) (out : (m.cpu c).holder = none) :
    Rest m e (m.nextThread c) := by
  unfold Machine.nextThread
  have outgoing := schedOutgoing_same m.k (m.k.currentTcb c)
  dsimp only
  generalize schedOutgoing m.k (m.k.currentTcb c) = r at outgoing ⊢
  split
  next k t _ =>
    split
    next => exact .stays idle (.refl _) rfl
    next removed =>
      exact .moves (c := c) idle (outgoing.trans (schedRemoveThreadRaw_same removed)) rfl
        fun _ => out.symm
  next => exact pick_rest idle outgoing out

theorem callStep_rest (call : Call) : Rest m (.call c call) (m.callStep c call) := by
  unfold Machine.callStep
  split
  next x at_ =>
    split
    next outside =>
      refine .moves (c := c) rfl (.refl _) rfl fun _ => ?_
      have enters : (Cpu.thread { x with pc := call.entry, ret := Ret.none }).holder = none :=
        holder_thread (by cases call <;> rfl)
      rw [enters, at_, holder_thread (by rw [outside.1]; rfl)]
    next => exact .stays rfl (.refl _) rfl
  next => exact .stays rfl (.refl _) rfl

theorem tickStep_rest : Rest m (.sysTick c) (m.tickStep c) := by
  unfold Machine.tickStep
  split
  next =>
    split
    next => exact .stays rfl (.refl _) rfl
    next tick => exact .stays rfl (isrSystick_same tick) rfl
  next => exact .stays rfl (.refl _) rfl

theorem pendSvEntry_rest (idle : m.acts e = none) {x : Ctx} (at_ : m.cpu c = .thread x)
    (outside : x.pc.stripe = none) : Rest m e (m.pendSvEntry c x) := by
  have leaves : (m.cpu c).holder = none := by rw [at_, holder_thread outside]
  unfold Machine.pendSvEntry
  split
  next => exact .moves (c := c) idle (.refl _) rfl fun _ => leaves.symm
  next t _ =>
    have write := KernelState.setTcb_tid m.k (t := t) (v := { m.k.tcb t with saved := some x }) rfl
    refine ⟨idle, rfl, fun u _ => write u, fun u y saved => ?_, fun _ d => ?_⟩
    · by_cases eq : u = t
      · subst eq
        obtain rfl : x = y := by simpa [KernelState.setTcb] using saved
        exact .inr outside
      · exact .inl (by simpa [KernelState.setTcb, eq] using saved)
    · by_cases eq : d = c
      · subst eq
        simpa [Machine.setCpu, Cpu.holder] using leaves.symm
      · simp [Machine.setCpu, eq]

theorem reapStep_rest {t : Slot} {stage : FreePc} (at_ : m.cpu c = .reaping t stage) :
    Rest m (.run c) (m.reapStep c t stage) := by
  have idle : m.acts (.run c) = none := acts_idle (by simp [Machine.executes, at_])
  have prims := freeStep_prims m.k t stage
  have frame := freeStep_frame m.k t stage
  have tid (u : Slot) (other : m.recasts (.run c) ≠ some u) :=
    freeStep_tid m.k fun p (wipe : stage = .wipe p) (same : u = t) => by
      rw [Machine.recasts, at_, wipe, same] at other
      exact other rfl
  unfold Machine.reapStep
  generalize freeStep m.k t stage = r at prims frame tid ⊢
  have rest {v : Cpu} (quiet : v.holder = none) :
      Rest m (.run c) { m.setCpu c v with k := r.1 } := by
    refine ⟨idle, prims, tid, fun u x saved => ?_, fun _ d => ?_⟩
    · exact (frame.saved u x saved).imp_right fun fresh => by rw [fresh]; rfl
    · by_cases eq : d = c
      · subst eq
        simp only [Machine.setCpu, Function.update_self, at_, quiet]
        rfl
      · simp [Machine.setCpu, eq]
  split <;> exact rest rfl

theorem resume_rest {t : Slot} (at_ : m.cpu c = .resuming t) : Rest m (.run c) (m.resume c t) := by
  have idle : m.acts (.run c) = none := acts_idle (by simp [Machine.executes, at_])
  have rest {v : Cpu} (quiet : SavedOutside m.k → v.holder = none) :
      Rest m (.run c) { m.setCpu c v with
        k := { m.k with currentTcb := Function.update m.k.currentTcb c (some t) } } := by
    refine ⟨idle, rfl, fun _ _ => rfl, fun _ _ h => .inl h, fun outside d => ?_⟩
    by_cases eq : d = c
    · subst eq
      simp only [Machine.setCpu, Function.update_self, at_, quiet outside]
      rfl
    · simp [Machine.setCpu, eq]
  unfold Machine.resume
  dsimp only
  split
  next => exact rest fun _ => rfl
  next x saved => exact rest fun outside => holder_thread (outside t x saved)

end

theorem step_stepped (m : Machine) (e : Event) : Stepped m e (m.step e) := by
  cases e with
  | call c call => exact .rest _ (callStep_rest call)
  | sysTick c => exact .rest _ tickStep_rest
  | elapse us => exact .rest _ (.stays rfl (.refl _) rfl)
  | run c =>
    cases at_ : m.cpu c with
    | thread x =>
      by_cases taken : (m.pendSv c && m.irqsOn c) = true
      · have idle : m.acts (.run c) = none := acts_idle (by simp [Machine.executes, at_, taken])
        have outside : x.pc.stripe = none := by
          simpa [Machine.irqsOn, at_] using (Bool.and_eq_true_iff.mp taken).2
        have entry : m.step (.run c) = m.pendSvEntry c x := by
          simp only [Machine.step, Machine.runStep, at_, if_pos taken]
        rw [entry]
        exact .rest _ (pendSvEntry_rest idle at_ outside)
      · have runs : m.executes c = some x := by simp only [Machine.executes, at_, if_neg taken]
        cases h : m.act c x with
        | none =>
          have stays : m.step (.run c) = m := by
            simp only [Machine.step, Machine.runStep, at_, if_neg taken, h]
          rw [stays]
          exact .rest _ (.stays (by simp [Machine.acts, runs, h]) (.refl _) rfl)
        | some a =>
          rw [step_commit runs h]
          exact .act c runs h
    | switching =>
      have idle : m.acts (.run c) = none := acts_idle (by simp [Machine.executes, at_])
      simp only [Machine.step, Machine.runStep, at_]
      split
      next => exact .rest _ (nextThread_rest idle (by rw [at_]; rfl))
      next => exact .rest _ (.stays idle (.refl _) rfl)
    | reaping t stage =>
      simp only [Machine.step, Machine.runStep, at_]
      exact .rest _ (reapStep_rest at_)
    | reaped =>
      have idle : m.acts (.run c) = none := acts_idle (by simp [Machine.executes, at_])
      simp only [Machine.step, Machine.runStep, at_]
      exact .rest _ (pick_rest (k := m.k) idle (.refl _) (by rw [at_]; rfl))
    | resuming t =>
      simp only [Machine.step, Machine.runStep, at_]
      exact .rest _ (resume_rest at_)
    | halted =>
      have idle : m.acts (.run c) = none := acts_idle (by simp [Machine.executes, at_])
      simp only [Machine.step, Machine.runStep, at_]
      exact .rest _ (.stays idle (.refl _) rfl)

end PicoOS.Kernel
