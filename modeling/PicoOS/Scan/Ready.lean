import PicoOS.Scan.Steps
import PicoOS.Scan.Wifi

/-!
# No window gets stuck

A poll publishes under the mutex and sets the ready flag after it; a wait
clears the flag before it takes. In between, the window is carried by a
thread: a publisher that has yet to set the flag, or a waiter that has yet to
take.
-/
namespace PicoOS.Scan

variable {d : Driver} {T : Type} [DecidableEq T]

/-- In a start, the reset done and the flags not yet cleared. -/
def Pc.arming : Pc → Bool
  | .startDwell _ | .startRadio _ | .startArm _ | .startClear _ => true
  | _ => false

/-- In a poll that has published, the ready flag not yet set. -/
def Pc.publishing : Pc → Bool
  | .pollRestart _ published | .pollEnd published | .pollUnlock published => published
  | .pollSet => true
  | _ => false

/-- What holds of each thread: no window is fresh while a session starts. -/
structure Stale (s : Shared d T) (t : T) (v : Thread) : Prop where
  lock : v.pc.locked = true → s.lock = some t
  arming : v.pc.arming = true → s.buf.sb.fresh = false

/-- A fresh window of the session is announced, or some thread is about to announce or take it. -/
def Carried (m : System d T) : Prop :=
  m.sh.cont = true → m.sh.buf.sb.fresh = true →
    m.sh.has contEvReady ∨ (∃ t, (m.thread t).pc.publishing = true) ∨
      ∃ t, (m.thread t).pc = .waitTake

section
variable {m : System d T} {t : T} {c : Core} {o : Outcome T} {s' : Shared d T} {v' : Thread}
  {new : Option T}

theorem arming_from (h : threadStep m t c o = some (s', v', new)) (into : v'.pc.arming = true) :
    (m.thread t).pc.arming = true ∨ ∃ l, (m.thread t).pc = .startReset l := by
  cases at_ : (m.thread t).pc <;> simp only [threadStep, at_] at h <;>
    grind [Option.map_eq_some_iff, Thread.goto, Thread.return, Pc.arming, StopCaller.resume,
      cases StopCaller]

/-- Other threads see no window become fresh while they hold the mutex. -/
theorem fresh_locked (h : threadStep m t c o = some (s', v', new))
    (unlocked : (m.thread t).pc.locked = false) : s'.buf.sb.fresh = m.sh.buf.sb.fresh := by
  rw [sb_locked h unlocked]

/-- A window becomes fresh only by being published, and is fresh no more once taken. -/
theorem fresh_from (h : threadStep m t c o = some (s', v', new))
    (fresh : s'.buf.sb.fresh = true) :
    (m.sh.buf.sb.fresh = true ∧ ((m.thread t).pc = .waitTake → m.sh.cont = false)) ∨
      v'.pc.publishing = true := by
  have buf := (threadStep_frame h).2.buf
  rw [buf] at fresh
  cases at_ : (m.thread t).pc <;> rw [at_] at fresh
  case startReset => exact absurd fresh Bool.false_ne_true
  case waitTake =>
    cases cont : m.sh.cont with
    | true =>
      rw [effect_takes cont] at fresh
      simp only [Buffers.take, scanbufTake] at fresh
      split at fresh
      next => cases fresh
      next stale => exact absurd fresh stale
    | false =>
      rw [effect_ended cont] at fresh
      exact .inl ⟨fresh, fun _ => rfl⟩
  case pollPublish now active ended =>
    by_cases due : publishes m.sh now ended = true
    · simp only [threadStep, at_, due, if_true, Option.some.injEq, Prod.mk.injEq] at h
      rw [← h.2.1]
      exact .inr rfl
    · rw [effect_passes due] at fresh
      exact .inl ⟨fresh, fun taking => by cases taking⟩
  all_goals exact .inl ⟨fresh, fun taking => by cases taking⟩

/-- The ready flag is cleared only before a take or in a start. -/
theorem ready_from (h : threadStep m t c o = some (s', v', new)) (ready : m.sh.has contEvReady) :
    s'.has contEvReady ∨ v'.pc = .waitTake ∨ ∃ l, (m.thread t).pc = .startClear l := by
  have ev := (threadStep_frame h).2.ev
  cases at_ : (m.thread t).pc <;> rw [at_] at ev
  case startClear l => exact .inr (.inr ⟨l, rfl⟩)
  case waitClear =>
    simp only [threadStep, at_, Option.some.injEq, Prod.mk.injEq] at h
    exact .inr (.inl (by rw [← h.2.1]; rfl))
  case stopSet | pollSet =>
    rw [Shared.has, ev]
    exact .inl ((eventFlagsSet_has _ _ _).mpr (.inl ready))
  case pollPublish now active ended =>
    rw [effect_ev_pass] at ev
    exact .inl (by rw [Shared.has, ev]; exact ready)
  all_goals exact .inl (by rw [Shared.has, ev]; exact ready)

/-- A publisher stays one until it sets the flag. -/
theorem publishing_on (h : threadStep m t c o = some (s', v', new))
    (publishing : (m.thread t).pc.publishing = true) :
    v'.pc.publishing = true ∨ s'.has contEvReady := by
  cases at_ : (m.thread t).pc <;> rw [at_] at publishing
  case pollRestart | pollEnd =>
    simp only [threadStep, at_, Option.some.injEq, Prod.mk.injEq] at h
    rw [← h.2.1]
    exact .inl publishing
  case pollUnlock published =>
    cases publishing
    simp only [threadStep, at_, if_true, Option.some.injEq, Prod.mk.injEq] at h
    rw [← h.2.1]
    exact .inl rfl
  case pollSet =>
    simp only [threadStep, at_, Option.some.injEq, Prod.mk.injEq] at h
    rw [← h.1]
    exact .inr ((eventFlagsSet_has _ _ _).mpr (.inr (by decide)))
  all_goals cases publishing

/-- One step of a thread. -/
theorem carried_run (stale : ∀ t, Stale m.sh t (m.thread t)) (carried : Carried m)
    (h : threadStep m t c o = some (s', v', new)) :
    Carried ((({ m with sh := s' } : System d T).setThread t v').spawn new) := by
  intro cont fresh
  rw [System.spawn_sh, System.setThread_sh] at cont fresh ⊢
  simp only [run_pc h]
  have stays {p : Pc → Prop} (x : T) (now : p (m.thread x).pc) (own : x = t → p v'.pc) :
      ∃ x, p (if x = t then v'.pc else (m.thread x).pc) := by
    refine ⟨x, ?_⟩
    split
    next same => exact own same
    next => exact now
  rcases fresh_from h fresh with ⟨fresh, taken⟩ | publishing
  case inr => exact .inr (.inl ⟨t, by rw [if_pos rfl]; exact publishing⟩)
  rcases cont_from h cont with cont | ⟨l, at_⟩
  case inr =>
    have none := (stale t).arming (by rw [at_]; rfl)
    rw [fresh] at none
    cases none
  rcases carried cont fresh with ready | ⟨x, publishing⟩ | ⟨x, taking⟩
  · rcases ready_from h ready with ready | taking | ⟨l, at_⟩
    · exact .inl ready
    · exact .inr (.inr ⟨t, by rw [if_pos rfl]; exact taking⟩)
    · have none := (stale t).arming (by rw [at_]; rfl)
      rw [fresh] at none
      cases none
  · by_cases own : x = t
    · subst own
      rcases publishing_on h publishing with on | ready
      · exact .inr (.inl (stays (p := fun pc => pc.publishing = true) x publishing fun _ => on))
      · exact .inl ready
    · exact .inr (.inl (stays (p := fun pc => pc.publishing = true) x publishing
        fun same => absurd same own))
  · refine .inr (.inr (stays (p := (· = .waitTake)) x taking fun same => ?_))
    subst same
    rw [cont] at taken
    cases taken taking

theorem Pc.arming_locked {pc : Pc} (arming : pc.arming = true) : pc.locked = true := by
  cases pc <;> first | rfl | cases arming

/-- Outside the mutex a publisher has only the flag left to set. -/
theorem Pc.publishing_outside {pc : Pc} (publishing : pc.publishing = true)
    (out : pc.locked = false) : pc = .pollSet := by
  cases pc <;> first
    | rfl
    | exact absurd publishing Bool.false_ne_true
    | exact absurd out.symm Bool.false_ne_true

theorem Pc.arming_publishing {pc : Pc} (arming : pc.arming = true) : pc.publishing = false := by
  cases pc <;> first | rfl | cases arming

omit [DecidableEq T] in
theorem Stale.outside {s : Shared d T} {v w : Thread} (_ : Stale s t v)
    (out : w.pc.locked = false) : Stale s t w where
  lock inside := by rw [out] at inside; cases inside
  arming arming := by rw [w.pc.arming_locked arming] at out; cases out

theorem stale_step {e : Event d T} (stale : ∀ t, Stale m.sh t (m.thread t)) (t : T) :
    Stale (m.step e).sh t ((m.step e).thread t) := by
  have other {t c o s' v' new x} (ne : x ≠ t)
      (h : threadStep m t c o = some (s', v', new)) : Stale s' x (m.thread x) := by
    refine ⟨fun inside => lock_other h (stale t).lock ne ((stale x).lock inside), fun arming => ?_⟩
    have mine := (stale x).lock (Pc.arming_locked arming)
    have outside : (m.thread t).pc.locked = false := by
      by_contra inside
      have his := (stale t).lock (by simpa using inside)
      exact ne (Option.some.inj (mine.symm.trans his))
    rw [fresh_locked h outside]
    exact (stale x).arming arming
  refine Carries.step (J := Stale) ?_ stale t
  constructor
  case own =>
    rintro t c o s' v' new - - h now
    refine ⟨lock_own h now.lock, fun arming => ?_⟩
    by_contra fresh
    rcases fresh_from h (by simpa using fresh) with ⟨fresh', _⟩ | publishing
    · rcases arming_from h arming with before | ⟨l, at_⟩
      · rw [now.arming before] at fresh'
        cases fresh'
      · have buf := (threadStep_frame h).2.buf
        rw [at_] at buf
        exact fresh (congrArg (fun b => b.sb.fresh) buf)
    · rw [Pc.arming_publishing arming] at publishing
      cases publishing
  case other => exact fun t c o _ _ _ x ne _ _ h _ _ => other ne h
  case born =>
    rintro t c o s' v' u - - h - -
    exact (other (threadStep_new h).1 h).outside rfl
  case call => exact fun t call _ _ now => now.outside (call.entry_unlocked _)
  case ends => exact fun t _ now => ⟨now.lock, now.arming⟩
  case env =>
    rintro s x - env now
    exact ⟨fun inside => env.lock.trans (now.lock inside), fun arming => env.sb ▸ now.arming arming⟩
  case idle => exact fun x _ now => now

omit [DecidableEq T] in
/-- Nothing changes but threads that were outside. -/
theorem Carried.same {m' : System d T} (carried : Carried m) (env : Env m.sh m'.sh)
    (pcs : ∀ t, (m.thread t).pc = .user ∨ (m'.thread t).pc = (m.thread t).pc) : Carried m' := by
  have on {p : Pc → Prop} (out : ¬ p .user) (now : ∃ t, p (m.thread t).pc) :
      ∃ t, p (m'.thread t).pc := by
    obtain ⟨t, now⟩ := now
    refine ⟨t, ?_⟩
    rcases pcs t with user | same
    · rw [user] at now
      exact absurd now out
    · rw [same]
      exact now
  intro cont fresh
  rw [env.cont] at cont
  rw [env.sb] at fresh
  rw [Shared.has, env.ev]
  rcases carried cont fresh with ready | publishing | taking
  · exact .inl ready
  · exact .inr (.inl (on (p := fun pc => pc.publishing = true) (fun h => by cases h) publishing))
  · exact .inr (.inr (on (p := (· = .waitTake)) (fun h => by cases h) taking))

theorem carried_step {e : Event d T} (stale : ∀ t, Stale m.sh t (m.thread t))
    (carried : Carried m) : Carried (m.step e) := by
  have turn := step_turn m e
  generalize m.step e = m' at turn ⊢
  cases turn with
  | idle => exact carried
  | run t c o alive h => exact carried_run stale carried h
  | call t call alive out =>
    refine carried.same ⟨rfl, rfl, rfl, rfl, rfl, rfl, rfl⟩ fun x => ?_
    by_cases own : x = t
    · exact .inl (own ▸ out)
    · exact .inr (by simp [System.setThread, own])
  | ends t =>
    refine carried.same ⟨rfl, rfl, rfl, rfl, rfl, rfl, rfl⟩ fun x => .inr ?_
    by_cases own : x = t
    · subst own
      simp [System.setThread]
    · simp [System.setThread, own]
  | env e _ env => exact carried.same env fun _ => .inr rfl

/-- Along every run. -/
theorem carried_run_all (start : Initial m) (es : List (Event d T)) :
    (∀ t, Stale (Run.exec System.step m es).sh t ((Run.exec System.step m es).thread t)) ∧
      Carried (Run.exec System.step m es) := by
  refine Run.exec_invariant
    (I := fun m : System d T => (∀ t, Stale m.sh t (m.thread t)) ∧ Carried m)
    (fun _ _ now => ⟨stale_step now.1, carried_step now.1 now.2⟩) ⟨fun t => ?_, fun cont => ?_⟩ es
  · have out := (start.threads t).1
    constructor <;> rw [out] <;> nofun
  · rw [start.cont] at cont
    cases cont

/-- A waiter that no flag lets go on. -/
def Blocked (m : System d T) (t : T) : Prop :=
  (m.thread t).pc = .waitFlags ∧ ∀ c o, threadStep m t c o = none

theorem ready_not_blocked (ready : m.sh.has contEvReady) (t : T) : ¬ Blocked m t := by
  rintro ⟨at_, blocked⟩
  have stuck := blocked 0 ⟨0, fun _ => true, true, none⟩
  have go : m.sh.ev &&& (contEvReady ||| contEvStop) ≠ 0 := (m.sh.has_or _ _).mpr (.inl ready)
  simp only [threadStep, at_] at stuck
  rw [if_pos go] at stuck
  cases stuck

end

/-- In every reachable state with a fresh window of a running session, the ready flag is set, or
a publisher has yet to set it, or a waiter has yet to take; and while no thread holds the mutex
only a publisher that has yet to set the flag lets a waiter block. -/
theorem fresh_window_never_stuck {m : System d T} (start : Initial m) (es : List (Event d T))
    (cont : (Run.exec System.step m es).sh.cont = true)
    (fresh : (Run.exec System.step m es).sh.buf.sb.fresh = true) :
    ((Run.exec System.step m es).sh.has contEvReady ∨
      (∃ t, ((Run.exec System.step m es).thread t).pc.publishing = true) ∨
      ∃ t, ((Run.exec System.step m es).thread t).pc = .waitTake) ∧
    ((Run.exec System.step m es).sh.lock = none →
      (∃ t, ((Run.exec System.step m es).thread t).pc = .pollSet) ∨
      ∀ t, ¬ Blocked (Run.exec System.step m es) t) := by
  obtain ⟨stale, carried⟩ := carried_run_all start es
  generalize Run.exec System.step m es = m' at *
  have here := carried cont fresh
  refine ⟨here, fun unlocked => ?_⟩
  have outside (t : T) : (m'.thread t).pc.locked = false := by
    by_contra inside
    have his := (stale t).lock (by simpa using inside)
    rw [unlocked] at his
    cases his
  rcases here with ready | ⟨t, publishing⟩ | ⟨t, taking⟩
  · exact .inr (ready_not_blocked ready)
  · exact .inl ⟨t, Pc.publishing_outside publishing (outside t)⟩
  · have out := outside t
    rw [taking] at out
    cases out

/-- Thread 0 starts a session and thread 1 polls at the end of the first pass. -/
def firstWindow : List (Event wifi (Fin 2)) :=
  .call 0 (.start false) :: goes 0 12 ++ .passEnds :: .call 1 .poll :: goes 1 14

theorem first_window_not_stuck :
    ((Run.exec System.step (afterInit wifi .zero fun _ => 7) firstWindow).sh.has contEvReady ∨
      (∃ t, ((Run.exec System.step (afterInit wifi .zero fun _ => 7) firstWindow).thread
        t).pc.publishing = true) ∨
      ∃ t, ((Run.exec System.step (afterInit wifi .zero fun _ => 7) firstWindow).thread t).pc =
        .waitTake) ∧
    ((Run.exec System.step (afterInit wifi .zero fun _ => 7) firstWindow).sh.lock = none →
      (∃ t, ((Run.exec System.step (afterInit wifi .zero fun _ => 7) firstWindow).thread t).pc =
        .pollSet) ∨
      ∀ t, ¬ Blocked (Run.exec System.step (afterInit wifi .zero fun _ => 7) firstWindow) t) :=
  fresh_window_never_stuck (afterInit_initial _ _ _) firstWindow (by decide +kernel)
    (by decide +kernel)

end PicoOS.Scan
