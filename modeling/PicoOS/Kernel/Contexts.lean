import PicoOS.Kernel.Sections

/-!
# Where a thread's context is

A thread that has not run into a fault is in one place: on a core, or saved in
its TCB while it is on none. A context changes only by a step or a call of its
own thread; the switches in between move it from one place to the other.
-/
namespace PicoOS.Kernel

/-- A context that its thread goes on from: on a core, or saved for a thread that is on none. -/
def Machine.Carries (m : Machine) (x : Ctx) : Prop :=
  (∃ c, m.cpu c = .thread x) ∨
    ∃ t, (m.k.tcb t).saved = some x ∧ ∀ c y, m.cpu c = .thread y → y.self ≠ t

/-- The thread outside the kernel that can make a call on a core. -/
def Machine.caller (m : Machine) (c : Core) : Option Ctx :=
  match m.cpu c with
  | .thread x => if x.pc = .user ∧ m.pendSv c = false then some x else none
  | _ => none

/-- The thread whose context an event changes. -/
def Machine.mover (m : Machine) : Event → Option Slot
  | .run c => (m.acts (.run c)).map fun (x, _) => x.self
  | .call c _ => (m.caller c).map Ctx.self
  | _ => none

section
variable {m m' : Machine} {c : Core} {x : Ctx}

/-- One core moves and keeps its thread, if it runs one. -/
theorem Machine.Carries.frame (h : m'.Carries x) (s : Scheduled m) (k : m.k.Frame m'.k) {v : Cpu}
    (cpu : m'.cpu = Function.update m.cpu c v)
    (keeps : ∀ y, m.cpu c = .thread y → ∃ z, v = .thread z ∧ z.self = y.self) :
    v = .thread x ∨ (m.Carries x ∧ ∀ y, m.cpu c = .thread y → y.self ≠ x.self) ∨
      ∃ t, x = ⟨t, .user, .none⟩ := by
  rcases h with ⟨d, at_⟩ | ⟨t, saved, off⟩
  · rcases Core.eq_or_other c d with rfl | rfl
    · exact .inl (by simpa [cpu] using at_)
    · have before : m.cpu c.other = .thread x := by simpa [cpu, Core.other_ne] using at_
      refine .inr (.inl ⟨.inl ⟨_, before⟩, fun y run same => ?_⟩)
      have mine := s.live c y run
      have theirs := s.live _ x before
      exact s.apart c (mine.trans (same ▸ theirs.symm))
  · have away (y : Ctx) (run : m.cpu c = .thread y) : y.self ≠ t := by
      obtain ⟨z, rfl, same⟩ := keeps y run
      exact same ▸ off c z (by simp [cpu])
    rcases k.saved t x saved with before | fresh
    · refine .inr (.inl ⟨.inr ⟨t, before, fun d y run => ?_⟩, fun y run same => ?_⟩)
      · rcases Core.eq_or_other c d with rfl | rfl
        · exact away y run
        · exact off c.other y (by simpa [cpu, Core.other_ne] using run)
      · exact away y run (same.trans (s.saved t x before))
    · exact .inr (.inr ⟨t, fresh⟩)

/-- The cores stay where they are. -/
theorem Machine.Carries.keeps (h : m'.Carries x) (k : m.k.Keeps m'.k) (cpu : m'.cpu = m.cpu) :
    m.Carries x := by
  rcases h with ⟨d, at_⟩ | ⟨t, saved, off⟩
  · exact .inl ⟨d, cpu ▸ at_⟩
  · exact .inr ⟨t, k.saved t ▸ saved, cpu ▸ off⟩

end

/-- Where a context of the next state comes from. -/
inductive Origin (m : Machine) (e : Event) (x : Ctx) : Prop where
  /-- Its thread did not move. -/
  | stays (was : m.Carries x) (other : m.mover e ≠ some x.self)
  | acts (y : Ctx) (a : Act) (acts : m.acts e = some (y, a)) (eq : x = ⟨y.self, a.pc, a.ret⟩)
  | calls (c : Core) (call : Call) (y : Ctx) (event : e = .call c call)
      (caller : m.caller c = some y) (eq : x = ⟨y.self, call.entry, .none⟩)
  /-- A thread that was created. -/
  | fresh (t : Slot) (eq : x = ⟨t, .user, .none⟩)

section
variable {m : Machine} {c : Core} {x : Ctx} {e : Event}

theorem pick_origin (idle : m.mover e = none) {k : KernelState}
    (same : m.k.Keeps k) (out : ∀ y, m.cpu c ≠ .thread y) {cur : Option Slot}
    (h : ({ m with k := k }.pick c cur).Carries x) : Origin m e x := by
  have quiet : m.mover e ≠ some x.self := by rw [idle]; rintro ⟨⟩
  unfold Machine.pick at h
  -- Whatever is selected, no context is loaded yet.
  have picked {k' : KernelState} {r : Option Slot} (pick : schedPick k c cur = some (k', r))
      {v : Cpu} (none : ∀ y, v ≠ .thread y)
      (h : Machine.Carries { m with k := k', cpu := Function.update m.cpu c v } x) :
      Origin m e x := by
    have saved := (schedPick_keeps pick).2.2
    rcases h with ⟨d, at_⟩ | ⟨t, parked, off⟩
    · rcases Core.eq_or_other c d with rfl | rfl
      · exact absurd (by simpa using at_) (none x)
      · exact .stays (.inl ⟨_, by simpa [Core.other_ne] using at_⟩) quiet
    · refine .stays (.inr ⟨t, (same.saved t ▸ saved t ▸ parked), fun d y run => ?_⟩) quiet
      rcases Core.eq_or_other c d with rfl | rfl
      · exact absurd run (out y)
      · exact off c.other y (by simpa [Core.other_ne] using run)
  split at h
  next => exact .stays (h.keeps same rfl) quiet
  next pick => exact picked pick (by rintro _ ⟨⟩) h
  next pick => exact picked pick (by rintro _ ⟨⟩) h

/-- A context of the next state is one of this state whose thread has not moved, or what its
thread's own step or call has made of it. -/
theorem step_origin (s : Scheduled m) (e : Event) (h : (m.step e).Carries x) : Origin m e x := by
  have still (idle : m.mover e = none) (was : m.Carries x) : Origin m e x :=
    .stays was (by rw [idle]; rintro ⟨⟩)
  cases e with
  | elapse us => exact still rfl (h.keeps (.refl _) rfl)
  | sysTick c =>
    refine still rfl ?_
    simp only [Machine.step, Machine.tickStep] at h
    split at h
    next =>
      split at h
      next => exact h
      next tick => exact h.keeps (isrSystick_same tick).toKeeps rfl
    next => exact h
  | call c call =>
    simp only [Machine.step, Machine.callStep] at h
    cases at_ : m.cpu c with
    | thread y =>
      simp only [at_] at h
      split at h
      next outside =>
        have caller : m.caller c = some y := by simp [Machine.caller, at_, outside]
        have mover : m.mover (.call c call) = some y.self := by simp [Machine.mover, caller]
        rcases h.frame s (KernelState.Keeps.refl _).frame rfl (fun z run => ⟨_, rfl, by
          rw [at_] at run; cases run; rfl⟩) with now | ⟨was, other⟩ | ⟨t, fresh⟩
        · cases now
          exact .calls c call y rfl caller rfl
        · exact .stays was (by rw [mover]; exact fun same => other y at_ (Option.some.inj same))
        · exact .fresh t fresh
      next outside =>
        exact still (by simp [Machine.mover, Machine.caller, at_, outside]) h
    | _ =>
      simp only [at_] at h
      exact still (by simp [Machine.mover, Machine.caller, at_]) h
  | run c =>
    simp only [Machine.step, Machine.runStep] at h
    cases at_ : m.cpu c with
    | thread y =>
      simp only [at_] at h
      by_cases taken : (m.pendSv c && m.irqsOn c) = true
      · have idle : m.mover (.run c) = none := by
          simp [Machine.mover, Machine.acts, Machine.executes, at_, taken]
        simp only [if_pos taken, Machine.pendSvEntry, s.live c y at_] at h
        refine still idle ?_
        -- The context goes from the core to its own TCB.
        rcases h with ⟨d, run⟩ | ⟨t, saved, off⟩
        · rcases Core.eq_or_other c d with rfl | rfl
          · simp [Machine.setCpu] at run
          · exact .inl ⟨_, by simpa [Machine.setCpu, Core.other_ne] using run⟩
        · by_cases eq : t = y.self
          · subst eq
            obtain rfl : y = x := by simpa [KernelState.setTcb] using saved
            exact .inl ⟨c, at_⟩
          · refine .inr ⟨t, by simpa [KernelState.setTcb, eq] using saved, fun d z run => ?_⟩
            rcases Core.eq_or_other c d with rfl | rfl
            · rw [at_] at run
              cases run
              exact Ne.symm eq
            · exact off c.other z (by simpa [Machine.setCpu, Core.other_ne] using run)
      · have runs : m.executes c = some y := by simp only [Machine.executes, at_, if_neg taken]
        simp only [if_neg taken] at h
        cases act : m.act c y with
        | none =>
          rw [act] at h
          exact still (by simp [Machine.mover, Machine.acts, runs, act]) h
        | some a =>
          rw [act] at h
          have acts := acts_of runs act
          have mover : m.mover (.run c) = some y.self := by simp [Machine.mover, acts]
          rcases h.frame s (act_frame act) rfl (fun z run => ⟨_, rfl, by
            rw [at_] at run; cases run; rfl⟩) with now | ⟨was, other⟩ | ⟨t, fresh⟩
          · cases now
            exact .acts y a acts rfl
          · exact .stays was (by rw [mover]; exact fun same => other y at_ (Option.some.inj same))
          · exact .fresh t fresh
    | switching =>
      have idle : m.mover (.run c) = none := by
        simp [Machine.mover, Machine.acts, Machine.executes, at_]
      have out (y : Ctx) : m.cpu c ≠ .thread y := by rw [at_]; rintro ⟨⟩
      simp only [at_] at h
      split at h
      next =>
        unfold Machine.nextThread at h
        have outgoing := schedOutgoing_same m.k (m.k.currentTcb c)
        dsimp only at h
        generalize schedOutgoing m.k (m.k.currentTcb c) = r at outgoing h
        split at h
        next =>
          split at h
          next => exact still idle h
          next removed =>
            rcases h.frame s (outgoing.trans (schedRemoveThreadRaw_same removed)).frame rfl
              (fun y run => absurd run (out y)) with now | ⟨was, _⟩ | ⟨t, fresh⟩
            · cases now
            · exact still idle was
            · exact .fresh t fresh
        next => exact pick_origin idle outgoing.toKeeps out h
      next => exact still idle h
    | reaping t stage =>
      have idle : m.mover (.run c) = none := by
        simp [Machine.mover, Machine.acts, Machine.executes, at_]
      simp only [at_, Machine.reapStep] at h
      have freed := freeStep_frame m.k t stage
      have rest {v : Cpu} (none : ∀ y, v ≠ .thread y)
          (h : Machine.Carries { m.setCpu c v with k := (freeStep m.k t stage).1 } x) :
          Origin m (.run c) x := by
        rcases h.frame s freed rfl (fun y run => by rw [at_] at run; cases run) with
          now | ⟨was, _⟩ | ⟨t, fresh⟩
        · exact absurd now (none x)
        · exact still idle was
        · exact .fresh t fresh
      split at h
      next freed =>
        exact rest (v := .reaping t _) (by rintro _ ⟨⟩) (by rw [freed]; exact h)
      next freed => exact rest (v := .reaped) (by rintro _ ⟨⟩) (by rw [freed]; exact h)
    | reaped =>
      have idle : m.mover (.run c) = none := by
        simp [Machine.mover, Machine.acts, Machine.executes, at_]
      simp only [at_] at h
      exact pick_origin idle (.refl _) (fun y => by rw [at_]; rintro ⟨⟩) h
    | resuming t =>
      have idle : m.mover (.run c) = none := by
        simp [Machine.mover, Machine.acts, Machine.executes, at_]
      have mine := s.resuming c t at_
      have same : Function.update m.k.currentTcb c (some t) = m.k.currentTcb := by
        rw [← mine, Function.update_eq_self]
      simp only [at_, Machine.resume] at h
      refine still idle ?_
      split at h
      next =>
        rcases h with ⟨d, run⟩ | ⟨u, saved, off⟩
        · rcases Core.eq_or_other c d with rfl | rfl
          · simp [Machine.setCpu] at run
          · exact .inl ⟨_, by simpa [Machine.setCpu, Core.other_ne] using run⟩
        · refine .inr ⟨u, saved, fun d y run => ?_⟩
          rcases Core.eq_or_other c d with rfl | rfl
          · rw [at_] at run
            cases run
          · exact off c.other y (by simpa [Machine.setCpu, Core.other_ne] using run)
      next z saved =>
        rcases h with ⟨d, loaded⟩ | ⟨u, parked, off⟩
        · rcases Core.eq_or_other c d with rfl | rfl
          · obtain rfl : z = x := by simpa [Machine.setCpu] using loaded
            -- It was saved, and its thread was on no core.
            refine .inr ⟨t, saved, fun e y run same => ?_⟩
            have theirs := s.live e y run
            rcases Core.eq_or_other d e with rfl | rfl
            · rw [at_] at run
              cases run
            · exact s.apart d (mine.trans (same ▸ theirs.symm))
          · exact .inl ⟨_, by simpa [Machine.setCpu, Core.other_ne] using loaded⟩
        · refine .inr ⟨u, parked, fun d y run => ?_⟩
          rcases Core.eq_or_other c d with rfl | rfl
          · rw [at_] at run
            cases run
          · exact off c.other y (by simpa [Machine.setCpu, Core.other_ne] using run)
    | halted =>
      simp only [at_] at h
      exact still (by simp [Machine.mover, Machine.acts, Machine.executes, at_]) h

end

end PicoOS.Kernel
