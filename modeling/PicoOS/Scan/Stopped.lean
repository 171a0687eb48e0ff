import PicoOS.Scan.Steps
import PicoOS.Scan.Wifi

/-!
# Sessions and their subscriber

A stop wakes the waiters through a level flag that the next start clears, and
a wait does not look whose session it returns a window of. A waiter whose
session was stopped learns of it, and windows go to the subscriber's process
alone, as long as no start runs past such a waiter and nobody else waits.
-/
namespace PicoOS.Scan

variable {d : Driver} {T : Type} [DecidableEq T]

/-- In a `*_scan_wait` that has yet to look at the session. -/
def Pc.waiting : Pc → Bool
  | .waitFlags | .waitLock | .waitClear | .waitTake => true
  | _ => false

/-- In a `*_scan_wait`. -/
def Pc.inWait : Pc → Bool
  | .waitFlags | .waitLock | .waitClear | .waitTake | .waitUnlock _ _ _ => true
  | _ => false

theorem Pc.inWait_iff {pc : Pc} :
    pc.inWait = true ↔ pc.waiting = true ∨ ∃ running took held, pc = .waitUnlock running took held := by
  constructor
  · intro inside
    cases pc <;> first
      | exact .inl inside
      | exact .inr ⟨_, _, _, rfl⟩
  · rintro (waiting | ⟨_, _, _, rfl⟩)
    · cases pc <;> first
        | rfl
        | exact absurd waiting Bool.false_ne_true
    · rfl

/-- The system, and the threads whose wait was under way when `*_scan_stop` ended its session. -/
structure Watch (d : Driver) (T : Type) where
  sys : System d T
  ended : T → Bool

namespace Watch

/-- `*_scan_stop` ends the session. -/
def stops (w : Watch d T) : Event d T → Bool
  | .run t _ _ => (w.sys.thread t).alive && w.sys.sh.cont && (w.sys.thread t).pc = .stopClear .stop
  | _ => false

/-- A wait begins. -/
def begins (w : Watch d T) (t : T) : Event d T → Bool
  | .call u .wait => t = u && (w.sys.thread t).pc = .user
  | _ => false

def step (w : Watch d T) (e : Event d T) : Watch d T where
  sys := w.sys.step e
  ended t :=
    if w.begins t e then false
    else if w.stops e && (w.sys.thread t).alive && (w.sys.thread t).pc.waiting then true
    else w.ended t

/-- A start arms a session only when every wait under way is of the caller's process and of no
stopped session; while a session runs, a wait is called only in the subscriber's process. The
thread that a start with a callback makes is not in question. -/
def Serves (w : Watch d T) : Event d T → Prop
  | .run t _ _ =>
    (w.sys.thread t).alive = true → ∀ l, (w.sys.thread t).pc = .startArm l →
      ∀ u, (w.sys.thread u).alive = true → (w.sys.thread u).pc.waiting = true →
        w.ended u = false ∧ w.sys.pid u = w.sys.pid t
  | .call t .wait =>
    (w.sys.thread t).alive = true → (w.sys.thread t).pc = .user →
      (w.sys.thread t).listener = false → w.sys.sh.cont = true → w.sys.pid t = w.sys.sh.ownerPid
  | _ => True

/-- What a wait may do in a step: one whose session was stopped returns `*_ERR_STOPPED` if it
returns, and one that returns a window is of the subscriber's process. -/
structure Honest (w : Watch d T) (e : Event d T) : Prop where
  stopped : ∀ t c o, e = .run t c o → (w.sys.thread t).pc.inWait = true → w.ended t = true →
    let v := (w.step e).sys.thread t
    v.list = none ∧
      (v.pc.inWait = true ∨ v.listener = true ∧ v.pc = .listenLock ∨
        v.listener = false ∧ v.pc = .user ∧ v.ret = d.radio.errStopped)
  delivered : ∀ t c o i, e = .run t c o → (w.sys.thread t).list = none →
    ((w.step e).sys.thread t).list = some i →
      w.sys.sh.cont = true ∧ w.sys.pid t = w.sys.sh.ownerPid

/-- Between critical sections a stopped wait finds the stop flag, so it goes on. -/
def Woken (w : Watch d T) : Prop :=
  w.sys.sh.lock = none → ∀ t, (w.sys.thread t).alive = true → (w.sys.thread t).pc = .waitFlags →
    w.ended t = true → w.sys.sh.has contEvStop

end Watch

/-! ### The invariant -/

/-- The stop flag is owed. -/
def Pc.stopping : Pc → Bool
  | .stopEnd _ | .stopSet _ => true
  | _ => false

/-- In a start that has found no session and no listener. -/
def Pc.cleared : Pc → Bool
  | .startBegin _ | .startCheck _ | .startReset _ | .startDwell _ | .startRadio _ | .startArm _
  | .startClear _ | .startEnd _ | .startListen => true
  | _ => false

/-- In a start that has armed the session. -/
def Pc.armed : Pc → Bool
  | .startClear _ | .startEnd _ | .startListen => true
  | _ => false

/-- What holds of the shared state and of each thread. -/
structure Bound (pid : T → UInt32) (ended alive : T → Bool) (s : Shared d T) (t : T)
    (v : Thread) : Prop where
  lock : v.pc.locked = true → s.lock = some t
  settled : s.lock = none ∨ v.pc.locked = true ∧ v.pc.stopping = false →
    s.cont = false → s.has contEvStop
  armed : v.pc.armed = true → s.cont = true ∧ s.ownerPid = pid t
  waits : v.alive = true → v.pc.waiting = true → s.cont = true →
    pid t = s.ownerPid ∧ ended t = false
  unlocks : ∀ running took held, v.alive = true → v.pc = .waitUnlock running took held →
    running = s.cont ∧ (running = true → pid t = s.ownerPid ∧ ended t = false)
  list : v.pc.inWait = true → v.list = none
  cleared : v.pc.cleared = true → ∀ u, s.listen = some u → alive u = false
  listens : v.alive = true → v.listener = true → v.pc ≠ .listenUnlock →
    s.listen = some t ∧ (s.cont = true → pid t = s.ownerPid)

section
variable {m : System d T} {t : T} {c : Core} {o : Outcome T} {s' : Shared d T} {v' : Thread}
  {new : Option T}

/-! ### What a step can do -/

theorem cont_ends (h : threadStep m t c o = some (s', v', new)) (ended : s'.cont = false) :
    m.sh.cont = false ∨ ∃ k, (m.thread t).pc = .stopClear k := by
  have same := (threadStep_frame h).2.cont
  cases at_ : (m.thread t).pc <;> rw [at_] at same
  case startArm => rw [same] at ended; cases ended
  case stopClear k => exact .inr ⟨k, rfl⟩
  case pollPublish =>
    rw [effect_session_pass.1] at same
    exact .inl (same.symm.trans ended)
  all_goals exact .inl (same.symm.trans ended)

/-- The stop flag is cleared only in a start that has armed its session. -/
theorem stop_from (h : threadStep m t c o = some (s', v', new)) (stop : m.sh.has contEvStop) :
    s'.has contEvStop ∨ ∃ l, (m.thread t).pc = .startClear l := by
  have ev := (threadStep_frame h).2.ev
  cases at_ : (m.thread t).pc <;> rw [at_] at ev
  case startClear l => exact .inr ⟨l, rfl⟩
  case waitClear =>
    rw [Shared.has, ev]
    exact .inl ((eventFlagsClear_has _ (by decide)).mpr stop)
  case stopSet | pollSet =>
    rw [Shared.has, ev]
    exact .inl ((eventFlagsSet_has _ _ _).mpr (.inl stop))
  case pollPublish =>
    rw [effect_ev_pass] at ev
    exact .inl (by rw [Shared.has, ev]; exact stop)
  all_goals exact .inl (by rw [Shared.has, ev]; exact stop)

theorem owner_from (h : threadStep m t c o = some (s', v', new)) :
    s'.ownerPid = m.sh.ownerPid ∨ ∃ l, (m.thread t).pc = .startArm l ∧ s'.ownerPid = m.pid t := by
  have same := (threadStep_frame h).2.ownerPid
  cases at_ : (m.thread t).pc <;> rw [at_] at same
  case startArm l => exact .inr ⟨l, rfl, same⟩
  case pollPublish =>
    rw [effect_session_pass.2] at same
    exact .inl same
  all_goals exact .inl same

theorem waiting_from (h : threadStep m t c o = some (s', v', new))
    (into : v'.pc.waiting = true) :
    (m.thread t).pc.waiting = true ∨ ∃ held, (m.thread t).pc = .waitUnlock true false held := by
  cases at_ : (m.thread t).pc <;> simp only [threadStep, at_] at h <;>
    grind [Option.map_eq_some_iff, Thread.goto, Thread.return, Pc.waiting, StopCaller.resume,
      cases StopCaller]

theorem unlocks_from (h : threadStep m t c o = some (s', v', new)) {running took : Bool}
    {held : UInt8} (into : v'.pc = .waitUnlock running took held) :
    (m.thread t).pc = .waitTake ∧ running = m.sh.cont ∧ s'.cont = m.sh.cont := by
  cases at_ : (m.thread t).pc <;> simp only [threadStep, at_] at h <;>
    grind [Option.map_eq_some_iff, Thread.goto, Thread.return, StopCaller.resume, cases StopCaller]

theorem cleared_from (h : threadStep m t c o = some (s', v', new))
    (into : v'.pc.cleared = true) :
    (m.thread t).pc.cleared = true ∨
      ∃ l, (m.thread t).pc = .startBusy l ∧ listenerAlive m = false := by
  cases at_ : (m.thread t).pc <;> simp only [threadStep, at_] at h <;>
    grind [Option.map_eq_some_iff, Thread.goto, Thread.return, Pc.cleared, StopCaller.resume,
      cases StopCaller]

theorem armed_from (h : threadStep m t c o = some (s', v', new)) (into : v'.pc.armed = true) :
    (m.thread t).pc.armed = true ∨ ∃ l, (m.thread t).pc = .startArm l := by
  cases at_ : (m.thread t).pc <;> simp only [threadStep, at_] at h <;>
    grind [Option.map_eq_some_iff, Thread.goto, Thread.return, Pc.armed, StopCaller.resume,
      cases StopCaller]

/-- A list is given out only at the end of a wait. -/
theorem list_from (h : threadStep m t c o = some (s', v', new)) :
    v'.list = (m.thread t).list ∨ ∃ held, (m.thread t).pc = .waitUnlock true true held := by
  cases at_ : (m.thread t).pc <;> simp only [threadStep, at_] at h <;>
    grind [Option.map_eq_some_iff, Thread.goto, Thread.return, StopCaller.resume, cases StopCaller]

/-- How a wait goes on. -/
theorem inWait_step (h : threadStep m t c o = some (s', v', new)) :
    (v'.pc.inWait = true → (m.thread t).pc.inWait = true ∧ v'.list = (m.thread t).list) ∧
    ((m.thread t).pc.inWait = true →
      v'.pc.inWait = true ∨
      (∃ took held, (m.thread t).pc = .waitUnlock false took held ∧ v'.list = (m.thread t).list ∧
        (v'.listener = true ∧ v'.pc = .listenLock ∨
          v'.listener = false ∧ v'.pc = .user ∧ v'.ret = d.radio.errStopped)) ∨
      ∃ held, (m.thread t).pc = .waitUnlock true true held) := by
  refine ⟨fun into => ?_, fun inside => ?_⟩
  · have before : (m.thread t).pc.inWait = true := by
      rcases Pc.inWait_iff.mp into with waiting | ⟨_, _, _, at_⟩
      · rcases waiting_from h waiting with waiting | ⟨held, at_⟩
        · exact Pc.inWait_iff.mpr (.inl waiting)
        · rw [at_]
          rfl
      · rw [(unlocks_from h at_).1]
        rfl
    refine ⟨before, (list_from h).resolve_right fun ⟨_, at_⟩ => ?_⟩
    simp only [threadStep, at_] at h
    cases h
    exact absurd into Bool.false_ne_true
  · cases at_ : (m.thread t).pc <;> rw [at_] at inside
    case waitFlags =>
      simp only [threadStep, at_, Option.ite_none_right_eq_some, Option.some.injEq,
        Prod.mk.injEq] at h
      exact .inl (by rw [← h.2.2.1]; rfl)
    case waitLock =>
      simp only [threadStep, at_] at h
      obtain ⟨_, _, same⟩ := Option.map_eq_some_iff.mp h
      cases same
      exact .inl rfl
    case waitClear | waitTake =>
      simp only [threadStep, at_, Option.some.injEq, Prod.mk.injEq] at h
      exact .inl (by rw [← h.2.1]; rfl)
    case waitUnlock running took held =>
      simp only [threadStep, at_] at h
      cases running <;> cases took <;> grind [Thread.goto, Thread.return, Pc.inWait_iff, Pc.waiting]
    all_goals exact absurd inside Bool.false_ne_true

/-- A thread outside the mutex does not touch the session. -/
theorem session_unlocked (h : threadStep m t c o = some (s', v', new))
    (out : (m.thread t).pc.locked = false) :
    s'.cont = m.sh.cont ∧ s'.ownerPid = m.sh.ownerPid ∧ s'.listen = m.sh.listen ∧ new = none := by
  refine ⟨?_, ?_, ?_⟩
  · have same := (threadStep_frame h).2.cont
    cases at_ : (m.thread t).pc <;> rw [at_] at same out <;>
      first | exact same | exact absurd out.symm Bool.false_ne_true
  · rcases owner_from h with same | ⟨l, at_, _⟩
    · exact same
    · rw [at_] at out
      cases out
  · rcases listen_from h with same | ⟨u, at_, _⟩ | ⟨at_, _⟩
    · exact same
    all_goals rw [at_] at out; cases out

/-! ### Preservation -/

variable {ended ended' alive' : T → Bool}

/-- The stop flag is set between critical sections, unless a session runs. -/
theorem settled_run (h : threadStep m t c o = some (s', v', new))
    {alive : T → Bool} (now : Bound m.pid ended alive m.sh t (m.thread t))
    (premise : s'.lock = none ∨ v'.pc.locked = true ∧ v'.pc.stopping = false)
    (cont : s'.cont = false) : s'.has contEvStop := by
  have owes (stopping : v'.pc.stopping = true) : False := by
    have inside : v'.pc.locked = true := by
      cases at_ : v'.pc <;> rw [at_] at stopping <;> first | rfl | cases stopping
    rcases premise with free | ⟨_, done⟩
    · rw [lock_own h now.lock inside] at free
      cases free
    · rw [stopping] at done
      cases done
  rcases cont_ends h cont with stopped | ⟨k, at_⟩
  case inr =>
    simp only [threadStep, at_, Option.some.injEq, Prod.mk.injEq] at h
    exact (owes (by rw [← h.2.1]; rfl)).elim
  by_cases pending : (m.thread t).pc.stopping = true
  · cases at_ : (m.thread t).pc <;> rw [at_] at pending
    case stopEnd =>
      simp only [threadStep, at_, Option.some.injEq, Prod.mk.injEq] at h
      exact (owes (by rw [← h.2.1]; rfl)).elim
    case stopSet =>
      have ev := (threadStep_frame h).2.ev
      rw [at_] at ev
      rw [Shared.has, ev]
      exact (eventFlagsSet_has _ _ _).mpr (.inr (by decide))
    all_goals cases pending
  · have before : m.sh.lock = none ∨ (m.thread t).pc.locked = true ∧
        (m.thread t).pc.stopping = false := by
      cases inside : (m.thread t).pc.locked with
      | true => exact .inr ⟨rfl, by simpa using pending⟩
      | false =>
        have frame := (threadStep_frame h).1
        rw [inside] at frame
        generalize v'.pc.locked = after, m.sh.lock = old, s'.lock = lock at frame premise ⊢
        cases frame with
        | outside =>
          rcases premise with free | ⟨inside, _⟩
          · exact .inl free
          · cases inside
        | takes => exact .inl rfl
    rcases stop_from h (now.settled before stopped) with stop | ⟨l, at_⟩
    · exact stop
    · have running := (now.armed (by rw [at_]; rfl)).1
      rw [stopped] at running
      cases running

theorem bound_own (h : threadStep m t c o = some (s', v', new))
    (alive : (m.thread t).alive = true)
    (mono : ∀ u, alive' u = true → (m.thread u).alive = true ∨ new = some u)
    (same : ended' t = ended t)
    (now : Bound m.pid ended (fun u => (m.thread u).alive) m.sh t (m.thread t)) :
    Bound m.pid ended' alive' s' t v' where
  lock := lock_own h now.lock
  settled := settled_run h now
  armed into := by
    rcases armed_from h into with before | ⟨l, at_⟩
    · obtain ⟨cont, owner⟩ := now.armed before
      constructor
      · by_contra stopped
        rcases cont_ends h (by simpa using stopped) with ended | ⟨k, at_⟩
        · rw [cont] at ended
          cases ended
        · rw [at_] at before
          cases before
      · rcases owner_from h with same | ⟨l, at_, _⟩
        · rw [same, owner]
        · rw [at_] at before
          cases before
    · have effect := (threadStep_frame h).2
      rw [at_] at effect
      exact ⟨effect.cont, effect.ownerPid⟩
  waits _ into cont := by
    rw [same]
    -- Neither a wait nor its end arms a session.
    have owner (at_ : ∀ l, (m.thread t).pc ≠ .startArm l) :
        m.sh.cont = true ∧ s'.ownerPid = m.sh.ownerPid := by
      constructor
      · rcases cont_from h cont with cont | ⟨l, here⟩
        · exact cont
        · exact absurd here (at_ l)
      · rcases owner_from h with same | ⟨l, here, _⟩
        · exact same
        · exact absurd here (at_ l)
    rcases waiting_from h into with before | ⟨held, at_⟩
    · obtain ⟨cont, owner⟩ := owner (by rintro l at_; rw [at_] at before; cases before)
      rw [owner]
      exact now.waits alive before cont
    · obtain ⟨cont, owner⟩ := owner (by rw [at_]; nofun)
      rw [owner]
      exact (now.unlocks true false held alive at_).2 rfl
  unlocks running took held _ into := by
    obtain ⟨at_, running, cont⟩ := unlocks_from h into
    refine ⟨running.trans cont.symm, fun runs => ?_⟩
    rw [same]
    have owner : s'.ownerPid = m.sh.ownerPid := by
      rcases owner_from h with same | ⟨l, here, _⟩
      · exact same
      · rw [at_] at here
        cases here
    rw [owner]
    exact now.waits alive (by rw [at_]; rfl) (running ▸ runs)
  list into := by
    obtain ⟨before, list⟩ := (inWait_step h).1 into
    rw [list, now.list before]
  cleared into u listen := by
    by_contra alive
    rcases listen_from h with ⟨same, none⟩ | ⟨_, _, _, _, _, out⟩ | ⟨at_, _⟩
    · have alive := (mono u (by simpa using alive)).resolve_right (by rw [none]; nofun)
      rw [same] at listen
      rcases cleared_from h into with before | ⟨l, _, dead⟩
      · rw [now.cleared before u listen] at alive
        cases alive
      · rw [listenerAlive, listen] at dead
        exact absurd alive (by simpa using dead)
    · rw [out] at into
      cases into
    · rcases cleared_from h into with before | ⟨l, here, _⟩
      · rw [at_] at before
        cases before
      · rw [at_] at here
        cases here
  listens alive' listener out := by
    have outside : (m.thread t).pc ≠ .listenUnlock := by
      intro at_
      simp only [threadStep, at_, Option.some.injEq, Prod.mk.injEq] at h
      rw [← h.2.1] at alive'
      cases alive'
    obtain ⟨mine, owner⟩ := now.listens alive ((threadStep_thread h).1 ▸ listener) outside
    -- A listener is never past the checks of a start.
    have busy (cleared : (m.thread t).pc.cleared = true) : False := by
      rw [now.cleared cleared t mine] at alive
      cases alive
    constructor
    · rcases listen_from h with ⟨same, _⟩ | ⟨_, at_, _⟩ | ⟨at_, _⟩
      · rw [same, mine]
      · exact (busy (by rw [at_]; rfl)).elim
      · simp only [threadStep, at_, Option.some.injEq, Prod.mk.injEq] at h
        exact absurd (by rw [← h.2.1]; rfl) out
    · intro cont
      rcases cont_from h cont with cont | ⟨l, at_⟩
      · rcases owner_from h with same | ⟨l, at_, _⟩
        · rw [same, owner cont]
        · exact (busy (by rw [at_]; rfl)).elim
      · exact (busy (by rw [at_]; rfl)).elim

theorem bound_other (h : threadStep m t c o = some (s', v', new)) {x : T} (other : x ≠ t)
    (serves : ∀ l, (m.thread t).pc = .startArm l → (m.thread x).alive = true →
      (m.thread x).pc.waiting = true → ended x = false ∧ m.pid x = m.pid t)
    (mono : ∀ u, alive' u = true → (m.thread u).alive = true ∨ new = some u)
    (same : ∀ x, ended' x = ended x ∨ ∃ k, (m.thread t).pc = .stopClear k)
    (now : Bound m.pid ended (fun u => (m.thread u).alive) m.sh t (m.thread t))
    (nowx : Bound m.pid ended (fun u => (m.thread u).alive) m.sh x (m.thread x)) :
    Bound m.pid ended' alive' s' x (m.thread x) := by
  -- While `x` holds the mutex `t` does not.
  have outside (inside : (m.thread x).pc.locked = true) : (m.thread t).pc.locked = false := by
    by_contra his
    have mine := nowx.lock inside
    rw [now.lock (by simpa using his)] at mine
    exact other (Option.some.inj mine).symm
  have unlocked (inside : (m.thread x).pc.locked = true) := session_unlocked h (outside inside)
  have still (inside : (m.thread x).pc.locked = true) : ended' x = ended x := by
    rcases same x with same | ⟨k, at_⟩
    · exact same
    · have out := outside inside
      rw [at_] at out
      cases out
  constructor
  case lock => exact fun inside => lock_other h now.lock other (nowx.lock inside)
  case settled =>
    rintro (free | ⟨inside, settled⟩) cont
    · exact settled_run h now (.inl free) cont
    · obtain ⟨sameCont, _⟩ := unlocked inside
      rw [sameCont] at cont
      rcases stop_from h (nowx.settled (.inr ⟨inside, settled⟩) cont) with stop | ⟨l, at_⟩
      · exact stop
      · have out := outside inside
        rw [at_] at out
        cases out
  case armed =>
    intro armed
    have inside : (m.thread x).pc.locked = true := by
      cases at_ : (m.thread x).pc <;> rw [at_] at armed <;> first | rfl | cases armed
    obtain ⟨cont, owner, _⟩ := unlocked inside
    rw [cont, owner]
    exact nowx.armed armed
  case waits =>
    intro alivex waiting cont
    have running : ∀ k, (m.thread t).pc ≠ .stopClear k := by
      intro k at_
      have effect := (threadStep_frame h).2.cont
      rw [at_, cont] at effect
      cases effect
    have still : ended' x = ended x := (same x).resolve_right fun ⟨k, at_⟩ => running k at_
    rw [still]
    rcases owner_from h with owner | ⟨l, at_, owner⟩
    · rcases cont_from h cont with before | ⟨l, at_⟩
      · rw [owner]
        exact nowx.waits alivex waiting before
      · obtain ⟨fresh, mine⟩ := serves l at_ alivex waiting
        have effect := (threadStep_frame h).2.ownerPid
        rw [at_] at effect
        exact ⟨mine.trans effect.symm, fresh⟩
    · obtain ⟨fresh, mine⟩ := serves l at_ alivex waiting
      exact ⟨mine.trans owner.symm, fresh⟩
  case unlocks =>
    intro running took held alivex at_
    have inside : (m.thread x).pc.locked = true := by rw [at_]; rfl
    obtain ⟨cont, owner, _⟩ := unlocked inside
    rw [cont, owner, still inside]
    exact nowx.unlocks running took held alivex at_
  case list => exact nowx.list
  case cleared =>
    intro cleared u listen
    have inside : (m.thread x).pc.locked = true := by
      cases at_ : (m.thread x).pc <;> rw [at_] at cleared <;> first | rfl | cases cleared
    obtain ⟨_, _, sameListen, none⟩ := unlocked inside
    rw [sameListen] at listen
    by_contra living
    have living := (mono u (by simpa using living)).resolve_right (by rw [none]; nofun)
    rw [nowx.cleared cleared u listen] at living
    cases living
  case listens =>
    intro alivex listener out
    obtain ⟨mine, owner⟩ := nowx.listens alivex listener out
    have busy (cleared : (m.thread t).pc.cleared = true) : False := by
      rw [now.cleared cleared x mine] at alivex
      cases alivex
    constructor
    · rcases listen_from h with ⟨same, _⟩ | ⟨_, at_, _⟩ | ⟨_, _, same⟩
      · rw [same, mine]
      · exact (busy (by rw [at_]; rfl)).elim
      · rw [same, if_neg, mine]
        rw [mine]
        exact fun eq => other (Option.some.inj eq)
    · intro cont
      rcases cont_from h cont with cont | ⟨l, at_⟩
      · rcases owner_from h with same | ⟨l, at_, _⟩
        · rw [same, owner cont]
        · exact (busy (by rw [at_]; rfl)).elim
      · exact (busy (by rw [at_]; rfl)).elim

omit [DecidableEq T] in
/-- A thread that is not touched, and of which less is asked. -/
theorem Bound.mono {pid : T → UInt32} {alive : T → Bool} {s s' : Shared d T} {v : Thread}
    (bound : Bound pid ended alive s t v) (env : Env s s')
    (lapse : ended' t = false ∨ ended' t = ended t)
    (mono : ∀ u, alive' u = true → alive u = true) : Bound pid ended' alive' s' t v := by
  have fresh (old : ended t = false) : ended' t = false := lapse.elim id fun same => same.trans old
  constructor
  case lock => exact fun inside => env.lock.trans (bound.lock inside)
  case settled =>
    intro premise cont
    rw [env.lock] at premise
    rw [env.cont] at cont
    rw [Shared.has, env.ev]
    exact bound.settled premise cont
  case armed =>
    intro armed
    rw [env.cont, env.ownerPid]
    exact bound.armed armed
  case waits =>
    intro alive waiting cont
    rw [env.cont] at cont
    rw [env.ownerPid]
    exact (bound.waits alive waiting cont).imp_right fresh
  case unlocks =>
    intro running took held alive at_
    rw [env.cont, env.ownerPid]
    obtain ⟨runs, owner⟩ := bound.unlocks running took held alive at_
    exact ⟨runs, fun running => (owner running).imp_right fresh⟩
  case list => exact bound.list
  case cleared =>
    intro cleared u listen
    rw [env.listen] at listen
    by_contra living
    have living := mono u (by simpa using living)
    rw [bound.cleared cleared u listen] at living
    cases living
  case listens =>
    intro alive listener out
    rw [env.listen, env.cont, env.ownerPid]
    exact bound.listens alive listener out

end

/-! ### Runs -/

namespace Watch

variable {w : Watch d T} {e : Event d T}

/-- Every thread meets the invariant. -/
def Ok (w : Watch d T) : Prop :=
  ∀ t, Bound w.sys.pid w.ended (fun u => (w.sys.thread u).alive) w.sys.sh t (w.sys.thread t)

theorem ended_run {t : T} {c : Core} {o : Outcome T} (x : T) :
    (w.step (.run t c o)).ended x = w.ended x ∨
      (w.sys.thread t).alive = true ∧ (w.sys.thread t).pc = .stopClear .stop ∧
        (w.sys.thread x).pc.waiting = true := by
  simp only [step, begins, stops]
  grind

/-- Where no thread moves, no session ends. -/
theorem ended_idle (x : T) (blocked : ∀ t c o, e = .run t c o →
    (w.sys.thread t).alive = true → threadStep w.sys t c o = none) :
    (w.step e).ended x = false ∨ (w.step e).ended x = w.ended x := by
  cases e with
  | call t call =>
    simp only [step, begins, stops]
    cases call <;> grind
  | run t c o =>
    refine .inr ((ended_run x).resolve_right fun ⟨alive, at_, _⟩ => ?_)
    have stuck := blocked t c o rfl alive
    simp only [threadStep, at_] at stuck
    cases stuck
  | report | passEnds | inquiryComplete | hciWorking | elapse | ends | procStarts | procEnds =>
    exact .inr rfl

theorem ok_step (serves : w.Serves e) (ok : w.Ok) : (w.step e).Ok := by
  intro t
  rw [show (w.step e).sys.pid = w.sys.pid from step_pid _ _]
  suffices carries : Carries w.sys e (Bound w.sys.pid w.ended fun u => (w.sys.thread u).alive)
      (Bound w.sys.pid (w.step e).ended fun u => ((w.step e).sys.thread u).alive) from
    carries.step ok t
  have mono {t c o s' v' new} (run : e = .run t c o)
      (h : threadStep w.sys t c o = some (s', v', new)) (u : T)
      (living : ((w.step e).sys.thread u).alive = true) :
      (w.sys.thread u).alive = true ∨ new = some u := by
    rcases step_alive living with alive | ⟨t', c', o', s, v, run', _, h'⟩
    · exact .inl alive
    · cases run.symm.trans run'
      rw [h] at h'
      cases h'
      exact .inr rfl
  have rest (quiet : ∀ t c o, e ≠ .run t c o) (u : T)
      (living : ((w.step e).sys.thread u).alive = true) : (w.sys.thread u).alive = true :=
    (step_alive living).resolve_right fun ⟨t, c, o, _, _, run, _⟩ => quiet t c o run
  have others {t c o s' v' new x} (run : e = .run t c o) (alive : (w.sys.thread t).alive = true)
      (h : threadStep w.sys t c o = some (s', v', new)) (ne : x ≠ t)
      (now : Bound w.sys.pid w.ended (fun u => (w.sys.thread u).alive) w.sys.sh t
        (w.sys.thread t))
      (nowx : Bound w.sys.pid w.ended (fun u => (w.sys.thread u).alive) w.sys.sh x
        (w.sys.thread x)) :
      Bound w.sys.pid (w.step e).ended (fun u => ((w.step e).sys.thread u).alive) s' x
        (w.sys.thread x) := by
    refine bound_other h ne ?_ (mono run h) ?_ now nowx
    · subst run
      exact fun l at_ alivex waiting => serves alive l at_ x alivex waiting
    · subst run
      exact fun x => (ended_run x).imp_right fun ⟨_, at_, _⟩ => ⟨_, at_⟩
  constructor
  case own =>
    rintro t c o s' v' new run alive h now
    refine bound_own h alive (mono run h) ?_ now
    subst run
    refine (ended_run t).resolve_right fun ⟨_, at_, waiting⟩ => ?_
    rw [at_] at waiting
    cases waiting
  case other =>
    rintro t c o s' v' new x ne run alive h now nowx
    exact others run alive h ne now nowx
  case born =>
    rintro t c o s' v' u run alive h now nowu
    obtain ⟨ne, _⟩ := threadStep_new h
    have bound := others run alive h ne now nowu
    constructor
    case lock | armed | waits | list | cleared => nofun
    case unlocks => nofun
    case settled => exact fun premise => bound.settled (premise.imp_right fun h => nomatch h.1)
    case listens =>
      -- The new listener is of the process that the session was just armed for.
      intro _ _ _
      rcases listen_from h with ⟨_, none⟩ | ⟨u', at_, new, listen, sameProc, _⟩ | ⟨_, none, _⟩
      · cases none
      · cases new
        refine ⟨listen, fun _ => ?_⟩
        have armed := (now.armed (by rw [at_]; rfl)).2
        rcases owner_from h with same | ⟨l, here, _⟩
        · rw [same, armed, sameProc]
        · rw [at_] at here
          cases here
      · cases none
  case call =>
    rintro t call rfl out now
    have bound := now.mono ⟨rfl, rfl, rfl, rfl, rfl, rfl, rfl⟩
      (ended_idle (e := .call t call) t nofun) (rest nofun)
    have unlocked := call.entry_unlocked d.radio
    constructor
    case lock => exact fun inside => absurd (unlocked ▸ inside) nofun
    case settled =>
      exact fun premise => bound.settled (premise.imp_right fun h => absurd (unlocked ▸ h.1) nofun)
    case armed => cases call <;> cases d.radio <;> nofun
    case unlocks => cases call <;> cases d.radio <;> nofun
    case cleared => cases call <;> cases d.radio <;> nofun
    case listens => exact fun alive listener _ => bound.listens alive listener (by rw [out]; nofun)
    case list => cases call <;> cases d.radio <;> first | exact fun _ => rfl | nofun
    case waits =>
      cases call with
      | wait =>
        intro alive _ cont
        refine ⟨?_, ?_⟩
        · cases listener : (w.sys.thread t).listener with
          | true => exact (bound.listens alive listener (by rw [out]; nofun)).2 cont
          | false => exact serves alive out listener cont
        · simp [step, begins, out]
      | start | stop | poll | scan => cases d.radio <;> nofun
  case ends =>
    rintro t rfl now
    have bound := now.mono ⟨rfl, rfl, rfl, rfl, rfl, rfl, rfl⟩ (.inr rfl) (rest nofun)
    exact
      { lock := bound.lock
        settled := bound.settled
        armed := bound.armed
        waits := nofun
        unlocks := nofun
        list := fun _ => rfl
        cleared := bound.cleared
        listens := nofun }
  case env =>
    intro s x quiet env now
    exact now.mono env (ended_idle x fun t c o run => absurd run (quiet t c o)) (rest quiet)
  case idle =>
    intro x blocked now
    refine now.mono ⟨rfl, rfl, rfl, rfl, rfl, rfl, rfl⟩ (ended_idle x blocked) fun u living => ?_
    rcases step_alive living with alive | ⟨t, c, o, s, v, run, alive, h⟩
    · exact alive
    · rw [blocked t c o run alive] at h
      cases h

theorem honest (ok : w.Ok) : w.Honest e where
  stopped := by
    rintro t c o rfl wait ended
    have none := (ok t).list wait
    simp only [step, System.step, System.runStep]
    split
    case isFalse => exact ⟨none, .inl wait⟩
    case isTrue alive =>
      split
      next => exact ⟨none, .inl wait⟩
      next s v new h =>
        rw [run_thread h]
        rcases (inWait_step h).2 wait with stays | ⟨_, _, _, list, returns⟩ | ⟨held, at_⟩
        · exact ⟨((inWait_step h).1 stays).2.trans none, .inl stays⟩
        · exact ⟨list.trans none, .inr returns⟩
        · have fresh := (((ok t).unlocks true true held alive at_).2 rfl).2
          rw [ended] at fresh
          cases fresh
  delivered := by
    rintro t c o i rfl none got
    simp only [step, System.step, System.runStep] at got
    split at got
    case isFalse => rw [none] at got; cases got
    case isTrue alive =>
      split at got
      next => rw [none] at got; cases got
      next s v new h =>
        rw [run_thread h] at got
        rcases (threadStep_thread h).2 with same | ⟨held, at_, _⟩
        · rw [same, none] at got
          cases got
        · obtain ⟨cont, owner⟩ := (ok t).unlocks true true held alive at_
          exact ⟨cont.symm, (owner rfl).1⟩

omit [DecidableEq T] in
theorem woken (ok : w.Ok) : w.Woken := by
  intro free t alive at_ ended
  refine (ok t).settled (.inl free) ?_
  by_contra cont
  have fresh := ((ok t).waits alive (by rw [at_]; rfl) (by simpa using cont)).2
  rw [ended] at fresh
  cases fresh

/-- A driver after its init, no wait under way. -/
def start (m : System d T) : Watch d T := ⟨m, fun _ => false⟩

omit [DecidableEq T] in
theorem ok_start {m : System d T} (initial : Initial m) : (start m).Ok := by
  intro t
  obtain ⟨out, list, listener⟩ := initial.threads t
  constructor
  case settled =>
    intro _ _
    rw [start, Shared.has, initial.ev]
    decide
  case listens =>
    intro _ is_
    rw [start, listener] at is_
    cases is_
  case waits =>
    rw [start, out]
    rintro _ ⟨⟩
  case unlocks =>
    rw [start, out]
    rintro _ _ _ _ ⟨⟩
  all_goals rw [start, out]; rintro ⟨⟩

end Watch

/-- A stopped session stays stopped for its subscriber: in every run whose starts and waits meet
the condition, a wait that was under way when `*_scan_stop` ended its session returns
`*_ERR_STOPPED`, never a window, and is not left blocked, and every window goes to a thread of the
process whose session runs. -/
theorem stopped_session_stays_stopped {m : System d T} (initial : Initial m)
    (es : List (Event d T)) (serves : Run.Along Watch.step Watch.Serves (Watch.start m) es) :
    Run.Along Watch.step Watch.Honest (Watch.start m) es ∧
      ∀ pre, pre <+: es → (Run.exec Watch.step (Watch.start m) pre).Woken := by
  constructor
  · exact serves.gives (I := Watch.Ok) (fun _ _ ok now => Watch.ok_step now ok)
      (fun _ _ ok _ => Watch.honest ok) (Watch.ok_start initial)
  · rintro pre ⟨rest, rfl⟩
    have before := ((Run.along_append _ _ _).mp serves).1
    exact Watch.woken (before.invariant (I := Watch.Ok) (fun _ _ ok now => Watch.ok_step now ok)
      (Watch.ok_start initial))

instance decidableArms [Fintype T] (w : Watch d T) (t : T) :
    Decidable ((w.sys.thread t).alive = true → ∀ l, (w.sys.thread t).pc = .startArm l →
      ∀ u, (w.sys.thread u).alive = true → (w.sys.thread u).pc.waiting = true →
        w.ended u = false ∧ w.sys.pid u = w.sys.pid t) := inferInstance

instance decidableWaits (w : Watch d T) (t : T) :
    Decidable ((w.sys.thread t).alive = true → (w.sys.thread t).pc = .user →
      (w.sys.thread t).listener = false → w.sys.sh.cont = true →
        w.sys.pid t = w.sys.sh.ownerPid) := inferInstance

instance decidableServes [Fintype T] (w : Watch d T) : ∀ e, Decidable (w.Serves e)
  | .run t _ _ => decidableArms w t
  | .call t .wait => decidableWaits w t
  | .call _ (.start _) | .call _ .stop | .call _ .poll | .call _ .scan | .report _ | .passEnds
  | .inquiryComplete | .hciWorking | .elapse _ | .ends _ | .procStarts _ | .procEnds _ =>
    isTrue trivial

/-- Thread 0 subscribes and waits, thread 1 stops the session. -/
def waitAndStop : List (Event wifi (Fin 3)) :=
  .call 0 (.start false) :: goes 0 12 ++ .call 0 .wait :: .call 1 .stop :: goes 1 7

/-- Thread 0 then learns that its session is over. -/
theorem wait_learns_of_stop :
    Run.Along Watch.step Watch.Honest
        (Watch.start (afterInit wifi .zero fun t : Fin 3 => if t = 0 then 7 else 8))
        (waitAndStop ++ goes 0 5) ∧
      ∀ pre, pre <+: waitAndStop ++ goes 0 5 →
        (Run.exec Watch.step (Watch.start (afterInit wifi .zero fun t : Fin 3 =>
          if t = 0 then 7 else 8)) pre).Woken :=
  stopped_session_stays_stopped (afterInit_initial _ _ _) _ (by decide +kernel)

/-- Before it runs again, thread 1 starts the next session and thread 2 publishes its window. -/
def nextSession : List (Event wifi (Fin 3)) :=
  .call 1 (.start false) :: goes 1 12 ++ .passEnds :: .call 2 .poll :: goes 2 14

/-- Thread 0 of process 7 gets the window of the session that process 8 has started since. -/
theorem stopped_wait_gets_next_window :
    Initial (afterInit wifi .zero fun t : Fin 3 => if t = 0 then 7 else 8) ∧
      (let w := Run.exec Watch.step
        (Watch.start (afterInit wifi .zero fun t : Fin 3 => if t = 0 then 7 else 8))
        (waitAndStop ++ nextSession ++ goes 0 4)
      let v := ((Run.exec Watch.step w (goes 0 1)).sys.thread 0)
      w.ended 0 = true ∧ (w.sys.thread 0).pc.inWait = true ∧ w.sys.pid 0 ≠ w.sys.sh.ownerPid ∧
        v.pc = .user ∧ v.ret = 0 ∧ v.list = some 0) ∧
      ¬ Run.Along Watch.step Watch.Honest
        (Watch.start (afterInit wifi .zero fun t : Fin 3 => if t = 0 then 7 else 8))
        (waitAndStop ++ nextSession ++ goes 0 4 ++ goes 0 1) := by
  refine ⟨afterInit_initial _ _ _, by decide +kernel, fun honest => ?_⟩
  have last := ((Run.along_append _ _ _).mp honest).2.1
  have none := (last.stopped 0 _ _ rfl (by decide +kernel) (by decide +kernel)).1
  exact absurd none (by decide +kernel)

end PicoOS.Scan
