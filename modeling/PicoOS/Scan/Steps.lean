import PicoOS.Scan.Driver

/-!
# What one step can do

Most points of the code leave the buffers, the session and the event flags
alone; the few that do not hold `g_cont_lock` or only set a flag. So each
invariant of the drivers needs a look at these points only.
-/
namespace PicoOS.Scan

/-- A thread that `task_create_thread` has just made. -/
def Thread.fresh : Thread := ⟨.user, true, true, none, 0⟩

variable {d : Driver} {T : Type} {m : System d T} {t : T} {c : Core} {o : Outcome T}
  {s' : Shared d T} {v' : Thread} {new : Option T}

/-! ### The mutex -/

/-- Between `kmutex_lock(&g_cont_lock)` and its unlock. -/
def Pc.locked : Pc → Bool
  | .startOwner _ | .startBusy _ | .startBegin _ | .startCheck _ | .startReset _ | .startDwell _
  | .startRadio _ | .startArm _ | .startClear _ | .startEnd _ | .startListen | .startFailed _
  | .stopBegin _ | .stopClear _ | .stopEnd _ | .stopSet _ | .stopTest
  | .oneShotBegin | .oneShotStop | .oneShotEnd
  | .waitClear | .waitTake | .waitUnlock _ _ _
  | .listenClear | .listenUnlock
  | .pollOwner | .pollNow | .pollBegin _ | .pollPass _ | .pollPublish _ _ _ | .pollRestart _ _
  | .pollEnd _ | .pollUnlock _
  | .unlock _ => true
  | _ => false

theorem asyncBegin_some {s s' : Shared d T} (h : asyncBegin s c = some s') :
    ∃ a, s' = { s with async := a } := by
  unfold asyncBegin at h
  split at h
  next => exact ⟨_, (Option.some.inj h).symm⟩
  next =>
    split at h
    next => exact ⟨_, (Option.some.inj h).symm⟩
    next => cases h

theorem asyncEnd_eq (s : Shared d T) : ∃ a, asyncEnd s = { s with async := a } := by
  unfold asyncEnd
  split
  next => exact ⟨_, rfl⟩
  next => exact ⟨_, rfl⟩

theorem kmutexLock_some {s s' : Shared d T} (h : kmutexLock s t = some s') :
    s.lock = none ∧ s' = { s with lock := some t } := by
  unfold kmutexLock at h
  split at h
  next free => exact ⟨Option.isNone_iff_eq_none.mp free, (Option.some.inj h).symm⟩
  next => cases h

theorem Call.entry_unlocked (call : Call) (r : Radio) : (call.entry r).locked = false := by
  cases call <;> cases r <;> rfl

/-! ### The event flags -/

/-- One of the flags in `mask` is set in `g_cont_ev`. -/
def Shared.has (s : Shared d T) (mask : UInt32) : Prop := s.ev &&& mask ≠ 0

theorem Shared.has_or (s : Shared d T) (a b : UInt32) : s.has (a ||| b) ↔ s.has a ∨ s.has b := by
  have split : s.ev &&& (a ||| b) = s.ev &&& a ||| s.ev &&& b := by
    apply UInt32.toBitVec_inj.mp
    ext i
    simp [Bool.and_or_distrib_left]
  rw [Shared.has, split, ne_eq, UInt32.or_eq_zero_iff, not_and_or]
  rfl

theorem eventFlagsSet_has (s : Shared d T) (mask b : UInt32) :
    (eventFlagsSet s mask).has b ↔ s.has b ∨ mask &&& b ≠ 0 := by
  have split : (s.ev ||| mask) &&& b = s.ev &&& b ||| mask &&& b := by
    apply UInt32.toBitVec_inj.mp
    ext i
    simp [Bool.and_or_distrib_right]
  rw [Shared.has, eventFlagsSet, split, ne_eq, UInt32.or_eq_zero_iff, not_and_or]
  rfl

/-- Clearing other flags leaves a flag set. -/
theorem eventFlagsClear_has (s : Shared d T) {mask b : UInt32} (other : ~~~mask &&& b = b) :
    (eventFlagsClear s mask).has b ↔ s.has b := by
  rw [Shared.has, eventFlagsClear, UInt32.and_assoc, other]
  rfl

/-! ### Quiet steps -/

/-- What a step leaves alone, up to the lock. -/
structure Quiet (s s' : Shared d T) : Prop where
  buf : s'.buf = s.buf
  ev : s'.ev = s.ev
  cont : s'.cont = s.cont
  ownerPid : s'.ownerPid = s.ownerPid

namespace Quiet

theorem refl (s : Shared d T) : Quiet s s := ⟨rfl, rfl, rfl, rfl⟩

theorem asyncBegin {s s' : Shared d T} (h : asyncBegin s c = some s') :
    Quiet s s' ∧ s'.lock = s.lock := by
  obtain ⟨a, rfl⟩ := asyncBegin_some h
  exact ⟨⟨rfl, rfl, rfl, rfl⟩, rfl⟩

theorem asyncEnd (s : Shared d T) : Quiet s (asyncEnd s) ∧ (Scan.asyncEnd s).lock = s.lock := by
  obtain ⟨a, h⟩ := asyncEnd_eq s
  rw [h]
  exact ⟨⟨rfl, rfl, rfl, rfl⟩, rfl⟩

theorem kmutexLock {s s' : Shared d T} (h : kmutexLock s t = some s') :
    Quiet s s' ∧ s.lock = none ∧ s'.lock = some t := by
  obtain ⟨free, rfl⟩ := kmutexLock_some h
  exact ⟨⟨rfl, rfl, rfl, rfl⟩, free, rfl⟩

theorem startDwell (s : Shared d T) (ok : UInt32 → Bool) :
    Quiet s (startDwell s ok) ∧ (Scan.startDwell s ok).lock = s.lock := by
  unfold Scan.startDwell
  split <;> exact ⟨⟨rfl, rfl, rfl, rfl⟩, rfl⟩

theorem startRadio (s : Shared d T) (rc : Int) :
    Quiet s (startRadio s rc).1 ∧ (Scan.startRadio s rc).1.lock = s.lock := by
  unfold Scan.startRadio
  split
  next => split_ifs <;> exact ⟨⟨rfl, rfl, rfl, rfl⟩, rfl⟩
  next => exact ⟨⟨rfl, rfl, rfl, rfl⟩, rfl⟩

theorem startFailed (s : Shared d T) (ok : UInt32 → Bool) :
    Quiet s (Scan.asyncEnd (startFailed s ok)) ∧
      (Scan.asyncEnd (Scan.startFailed s ok)).lock = s.lock := by
  obtain ⟨a, h⟩ := asyncEnd_eq (Scan.startFailed s ok)
  rw [h]
  exact ⟨⟨rfl, rfl, rfl, rfl⟩, rfl⟩

theorem oneShotStop (s : Shared d T) : Quiet s (oneShotStop s) ∧ (Scan.oneShotStop s).lock = s.lock := by
  unfold Scan.oneShotStop
  split <;> exact ⟨⟨rfl, rfl, rfl, rfl⟩, rfl⟩

theorem linkCheck (s : Shared d T) (up : Bool) :
    Quiet s (linkCheck s up) ∧ (Scan.linkCheck s up).lock = s.lock := by
  unfold Scan.linkCheck
  dsimp only
  split_ifs <;> exact ⟨⟨rfl, rfl, rfl, rfl⟩, rfl⟩

theorem pollPass (s : Shared d T) (now : UInt64) (rc : Int) :
    Quiet s (pollPass s now rc).1 ∧ (Scan.pollPass s now rc).1.lock = s.lock := by
  unfold Scan.pollPass
  split
  next => exact ⟨⟨rfl, rfl, rfl, rfl⟩, rfl⟩
  next => split_ifs <;> exact ⟨⟨rfl, rfl, rfl, rfl⟩, rfl⟩

theorem pollRestart (s : Shared d T) (active : Bool) (rc : Int) :
    Quiet s (pollRestart s active rc) ∧ (Scan.pollRestart s active rc).lock = s.lock := by
  unfold Scan.pollRestart
  split
  next => split_ifs <;> exact ⟨⟨rfl, rfl, rfl, rfl⟩, rfl⟩
  next => exact ⟨⟨rfl, rfl, rfl, rfl⟩, rfl⟩

theorem scanRadio (s : Shared d T) (rc : Int) :
    Quiet s (scanRadio s rc).1 ∧ (Scan.scanRadio s rc).1.lock = s.lock := by
  unfold Scan.scanRadio
  split
  next => split_ifs <;> exact ⟨⟨rfl, rfl, rfl, rfl⟩, rfl⟩
  next => exact ⟨⟨rfl, rfl, rfl, rfl⟩, rfl⟩

end Quiet

theorem startReset_lock (s : Shared d T) : (startReset s).lock = s.lock := by
  unfold startReset
  dsimp only
  split <;> rfl

theorem contStop_lock (s : Shared d T) (ok : UInt32 → Bool) : (contStop s ok).lock = s.lock := by
  unfold contStop
  dsimp only
  split
  next => split <;> rfl
  next => rfl

namespace Quiet

theorem startReset (s : Shared d T) : Quiet { s with buf := s.buf.start } (startReset s) := by
  unfold Scan.startReset
  dsimp only
  split <;> exact ⟨rfl, rfl, rfl, rfl⟩

theorem contStop (s : Shared d T) (ok : UInt32 → Bool) :
    Quiet { s with cont := false } (contStop s ok) := by
  unfold Scan.contStop
  dsimp only
  split
  next => split <;> exact ⟨rfl, rfl, rfl, rfl⟩
  next stopped => exact ⟨rfl, rfl, by simpa using stopped, rfl⟩

end Quiet

/-- What a step does with the mutex, by whether the thread holds it before and after. -/
inductive LockStep (t : T) : Bool → Bool → Option T → Option T → Prop where
  | outside (l : Option T) : LockStep t false false l l
  | takes : LockStep t false true none (some t)
  | inside (l : Option T) : LockStep t true true l l
  | releases (l : Option T) : LockStep t true false l none

/-- What a thread at `pc` does to the buffers, the session and the flags. -/
def System.effect (m : System d T) (t : T) : Pc → Shared d T
  | .startReset _ => { m.sh with buf := m.sh.buf.start }
  | .startArm _ => { m.sh with cont := true, ownerPid := m.pid t }
  | .startClear _ => eventFlagsClear m.sh (contEvReady ||| contEvStop)
  | .stopClear _ => { m.sh with cont := false }
  | .stopSet _ => eventFlagsSet m.sh contEvStop
  | .waitClear => eventFlagsClear m.sh contEvReady
  | .waitTake => { m.sh with buf := if m.sh.cont then m.sh.buf.take.1 else m.sh.buf }
  | .pollPublish now _ ended => if publishes m.sh now ended then pollPublish m.sh now else m.sh
  | .pollSet => eventFlagsSet m.sh contEvReady
  | _ => m.sh

theorem effect_publishes {m : System d T} {t : T} {now : UInt64} {active ended : Bool}
    (due : publishes m.sh now ended = true) :
    m.effect t (.pollPublish now active ended) = pollPublish m.sh now := if_pos due

theorem effect_passes {m : System d T} {t : T} {now : UInt64} {active ended : Bool}
    (due : publishes m.sh now ended ≠ true) : m.effect t (.pollPublish now active ended) = m.sh :=
  if_neg due

theorem effect_ev_pass {m : System d T} {t : T} {now : UInt64} {active ended : Bool} :
    (m.effect t (.pollPublish now active ended)).ev = m.sh.ev := by
  by_cases due : publishes m.sh now ended = true
  · rw [effect_publishes due, pollPublish]
  · rw [effect_passes due]

theorem effect_session_pass {m : System d T} {t : T} {now : UInt64} {active ended : Bool} :
    (m.effect t (.pollPublish now active ended)).cont = m.sh.cont ∧
      (m.effect t (.pollPublish now active ended)).ownerPid = m.sh.ownerPid := by
  by_cases due : publishes m.sh now ended = true
  · rw [effect_publishes due, pollPublish]
    exact ⟨rfl, rfl⟩
  · rw [effect_passes due]
    exact ⟨rfl, rfl⟩

theorem effect_takes {m : System d T} {t : T} (cont : m.sh.cont = true) :
    (m.effect t .waitTake).buf = m.sh.buf.take.1 := if_pos cont

theorem effect_ended {m : System d T} {t : T} (cont : m.sh.cont = false) :
    (m.effect t .waitTake).buf = m.sh.buf := if_neg (by rw [cont]; exact Bool.false_ne_true)

variable [DecidableEq T]

/-- A step keeps to the mutex, and has that effect. -/
theorem threadStep_frame (h : threadStep m t c o = some (s', v', new)) :
    LockStep t (m.thread t).pc.locked v'.pc.locked m.sh.lock s'.lock ∧
      Quiet (m.effect t (m.thread t).pc) s' := by
  -- One case for each kind of step: enter or leave a lock, or neither.
  have locks {pc : Pc} {v : Thread} (idle : m.effect t pc = m.sh) (out : pc.locked = false) (into : v.pc.locked = true)
      (done : (kmutexLock m.sh t).map (fun s => (s, v, none)) = some (s', v', new)) :
      LockStep t pc.locked v'.pc.locked m.sh.lock s'.lock ∧ Quiet (m.effect t pc) s' := by
    obtain ⟨s, got, same⟩ := Option.map_eq_some_iff.mp done
    cases same
    obtain ⟨quiet, free, mine⟩ := Quiet.kmutexLock got
    rw [out, into, free, mine, idle]
    exact ⟨.takes, quiet⟩
  have begins {pc : Pc} {v : Thread} (idle : m.effect t pc = m.sh) (stays : v.pc.locked = pc.locked)
      (done : (asyncBegin m.sh c).map (fun s => (s, v, none)) = some (s', v', new)) :
      LockStep t pc.locked v'.pc.locked m.sh.lock s'.lock ∧ Quiet (m.effect t pc) s' := by
    obtain ⟨s, got, same⟩ := Option.map_eq_some_iff.mp done
    cases same
    obtain ⟨quiet, lock⟩ := Quiet.asyncBegin got
    rw [stays, lock, idle]
    cases pc.locked with
    | true => exact ⟨.inside _, quiet⟩
    | false => exact ⟨.outside _, quiet⟩
  have stays {pc : Pc} {s : Shared d T} {v : Thread} {u : Option T}
      (stays : v.pc.locked = pc.locked) (lock : s.lock = m.sh.lock)
      (quiet : Quiet (m.effect t pc) s) (done : some (s, v, u) = some (s', v', new)) :
      LockStep t pc.locked v'.pc.locked m.sh.lock s'.lock ∧ Quiet (m.effect t pc) s' := by
    cases done
    rw [stays, lock]
    cases pc.locked with
    | true => exact ⟨.inside _, quiet⟩
    | false => exact ⟨.outside _, quiet⟩
  have leaves {pc : Pc} {v : Thread} (idle : m.effect t pc = m.sh) (inside : pc.locked = true) (out : v.pc.locked = false)
      (done : some ({ m.sh with lock := none }, v, none) = some (s', v', new)) :
      LockStep t pc.locked v'.pc.locked m.sh.lock s'.lock ∧ Quiet (m.effect t pc) s' := by
    cases done
    rw [inside, out, idle]
    exact ⟨.releases _, rfl, rfl, rfl, rfl⟩
  have ends {pc : Pc} {v : Thread} (idle : m.effect t pc = m.sh) (same : v.pc.locked = pc.locked)
      (done : some (asyncEnd m.sh, v, none) = some (s', v', new)) :=
    stays same (Quiet.asyncEnd m.sh).2 (idle ▸ (Quiet.asyncEnd m.sh).1) done
  have moves {pc : Pc} {v : Thread} {u : Option T} (idle : m.effect t pc = m.sh) (same : v.pc.locked = pc.locked)
      (done : some (m.sh, v, u) = some (s', v', new)) :=
    stays same rfl (idle ▸ .refl m.sh) done
  cases at_ : (m.thread t).pc <;> simp only [threadStep, at_] at h
  case user => cases h
  case startLock | stopLock | waitLock | listenLock | pollLock => exact locks rfl rfl rfl h
  case startBegin | stopBegin | oneShotBegin | linkBegin | pollBegin | scanBegin =>
    exact begins rfl rfl h
  case startOwner | startBusy | stopTest | pollOwner | pollNow =>
    refine moves rfl ?_ h
    simp only [Thread.goto]
    split <;> rfl
  case startCheck =>
    split at h
    next => exact ends rfl rfl h
    next => exact moves rfl rfl h
  case startReset => exact stays rfl (startReset_lock _) (.startReset _) h
  case startDwell =>
    exact stays rfl (Quiet.startDwell _ _).2 (Quiet.startDwell _ _).1 h
  case startRadio =>
    refine stays ?_ (Quiet.startRadio m.sh o.rc).2 (Quiet.startRadio m.sh o.rc).1 h
    simp only [Thread.goto]
    split <;> rfl
  case startFailed =>
    exact stays rfl (Quiet.startFailed _ _).2 (Quiet.startFailed _ _).1 h
  case startArm | startClear | waitClear | pollSet =>
    exact stays (by rfl) (by rfl) (by constructor <;> rfl) h
  case stopSet k =>
    refine stays ?_ (by rfl) (by constructor <;> rfl) h
    cases k <;> rfl
  case stopClear => exact stays rfl (contStop_lock _ _) (.contStop _ _) h
  case waitTake =>
    refine stays (by rfl) (by rfl) ⟨?_, by rfl, by rfl, by rfl⟩ h
    show _ = if m.sh.cont then m.sh.buf.take.1 else m.sh.buf
    split <;> rfl
  case pollPublish =>
    split at h
    next due =>
      refine stays (by rfl) (by rfl) ?_ h
      rw [effect_publishes due]
      exact .refl _
    next stays => exact moves (if_neg stays) rfl h
  case startEnd =>
    refine ends rfl ?_ h
    simp only [Thread.goto]
    split <;> rfl
  case startListen =>
    split at h
    next =>
      split at h
      next => exact stays (by rfl) (by rfl) (by constructor <;> rfl) h
      next => cases h
    next => exact moves rfl rfl h
  case stopEnd | oneShotEnd | linkEnd | pollEnd | scanEnd => exact ends rfl rfl h
  case oneShotStop => exact stays rfl (Quiet.oneShotStop _).2 (Quiet.oneShotStop _).1 h
  case waitFlags =>
    split at h
    next => exact moves rfl rfl h
    next => cases h
  case waitUnlock =>
    split at h
    next =>
      split at h
      next => exact leaves rfl rfl rfl h
      next => exact leaves rfl rfl rfl h
    next =>
      split at h
      next => exact leaves rfl rfl rfl h
      next => exact leaves rfl rfl rfl h
  case listenClear => exact stays (by rfl) (by rfl) (by constructor <;> rfl) h
  case listenUnlock | unlock => exact leaves rfl rfl rfl h
  case linkCheck =>
    exact stays rfl (Quiet.linkCheck _ _).2 (Quiet.linkCheck _ _).1 h
  case pollCheck =>
    split at h
    next => exact moves rfl rfl h
    next => exact moves rfl rfl h
  case pollPass => exact stays rfl (Quiet.pollPass _ _ _).2 (Quiet.pollPass _ _ _).1 h
  case pollRestart =>
    exact stays rfl (Quiet.pollRestart _ _ _).2 (Quiet.pollRestart _ _ _).1 h
  case pollUnlock =>
    split at h
    next => exact leaves rfl rfl rfl h
    next => exact leaves rfl rfl rfl h
  case scanCheck =>
    refine moves rfl ?_ h
    simp only [Thread.goto]
    split <;> rfl
  case scanReset => exact stays (by rfl) (by rfl) (by constructor <;> rfl) h
  case scanRadio => exact stays rfl (Quiet.scanRadio _ _).2 (Quiet.scanRadio _ _).1 h

/-- What a step does to the roles. -/
theorem threadStep_sb (h : threadStep m t c o = some (s', v', new)) :
    s'.buf.sb = m.sh.buf.sb ∨
      (∃ l, (m.thread t).pc = .startReset l ∧ s'.buf.sb = scanbufInit) ∨
      ((m.thread t).pc = .waitTake ∧ m.sh.cont = true ∧
        s'.buf.sb = (scanbufTake m.sh.buf.sb).1) ∨
      ∃ now active ended, (m.thread t).pc = .pollPublish now active ended ∧
        publishes m.sh now ended = true ∧ s'.buf.sb = scanbufPublish m.sh.buf.sb := by
  have buf := (threadStep_frame h).2.buf
  cases at_ : (m.thread t).pc <;> rw [at_] at buf
  case startReset l => exact .inr (.inl ⟨l, rfl, by rw [buf]; rfl⟩)
  case waitTake =>
    cases cont : m.sh.cont with
    | true =>
      rw [effect_takes cont] at buf
      exact .inr (.inr (.inl ⟨rfl, rfl, by rw [buf]; rfl⟩))
    | false =>
      rw [effect_ended cont] at buf
      exact .inl (by rw [buf])
  case pollPublish now active ended =>
    by_cases due : publishes m.sh now ended = true
    · rw [effect_publishes due] at buf
      exact .inr (.inr (.inr ⟨now, active, ended, rfl, due, by rw [buf]; rfl⟩))
    · rw [effect_passes due] at buf
      exact .inl (by rw [buf])
  all_goals exact .inl (congrArg Buffers.sb buf)

/-- Where the roles change, the thread holds the mutex. -/
theorem sb_locked (h : threadStep m t c o = some (s', v', new))
    (unlocked : (m.thread t).pc.locked = false) : s'.buf.sb = m.sh.buf.sb := by
  rcases threadStep_sb h with same | ⟨_, at_, _⟩ | ⟨at_, _⟩ | ⟨_, _, _, at_, _⟩
  · exact same
  all_goals rw [at_] at unlocked; cases unlocked

/-- A session runs only once armed. -/
theorem cont_from (h : threadStep m t c o = some (s', v', new)) (cont : s'.cont = true) :
    m.sh.cont = true ∨ ∃ l, (m.thread t).pc = .startArm l := by
  have same := (threadStep_frame h).2.cont
  cases at_ : (m.thread t).pc <;> rw [at_] at same
  case startArm l => exact .inr ⟨l, rfl⟩
  case stopClear => rw [same] at cont; cases cont
  case pollPublish now active ended =>
    by_cases due : publishes m.sh now ended = true
    · rw [effect_publishes due] at same
      exact .inl (same.symm.trans cont)
    · rw [effect_passes due] at same
      exact .inl (same.symm.trans cont)
  all_goals exact .inl (same.symm.trans cont)

/-- A pass fills the lists only once they are reset, or in a session. -/
theorem pass_from (h : threadStep m t c o = some (s', v', new)) (pass : s'.passCont = true) :
    m.sh.passCont = true ∨ m.sh.cont = true ∨ ∃ l, (m.thread t).pc = .startReset l := by
  cases at_ : (m.thread t).pc <;> simp only [threadStep, at_] at h <;>
    grind [Option.map_eq_some_iff, asyncBegin, asyncEnd, kmutexLock, startDwell, startRadio,
      startFailed, startArm, contStop, oneShotStop, linkCheck, pollPass, pollPublish, pollRestart,
      scanReset, scanRadio, eventFlagsSet, eventFlagsClear]

/-- Who is the listener changes where a start makes one and where it goes. -/
theorem listen_from (h : threadStep m t c o = some (s', v', new)) :
    (s'.listen = m.sh.listen ∧ new = none) ∨
      (∃ u, (m.thread t).pc = .startListen ∧ new = some u ∧ s'.listen = some u ∧
        m.pid u = m.pid t ∧ v'.pc = .unlock 0) ∨
      ((m.thread t).pc = .listenClear ∧ new = none ∧
        s'.listen = if m.sh.listen = some t then none else m.sh.listen) := by
  cases at_ : (m.thread t).pc <;> simp only [threadStep, at_] at h <;>
    grind [Option.map_eq_some_iff, asyncBegin, asyncEnd, kmutexLock, startReset, startDwell,
      startRadio, startFailed, startArm, contStop, oneShotStop, linkCheck, pollPass, pollPublish,
      pollRestart, scanReset, scanRadio, eventFlagsSet, eventFlagsClear, Thread.goto]

/-- A thread between the lock and the unlock owns the mutex: the one that steps. -/
theorem lock_own (h : threadStep m t c o = some (s', v', new))
    (own : (m.thread t).pc.locked = true → m.sh.lock = some t) (inside : v'.pc.locked = true) :
    s'.lock = some t := by
  have frame := (threadStep_frame h).1
  rw [inside] at frame
  generalize (m.thread t).pc.locked = before at frame own
  generalize m.sh.lock = old, s'.lock = new at frame own ⊢
  cases frame with
  | takes => rfl
  | inside => exact own rfl

/-- And any other one. -/
theorem lock_other (h : threadStep m t c o = some (s', v', new))
    (own : (m.thread t).pc.locked = true → m.sh.lock = some t) {x : T} (other : x ≠ t)
    (mine : m.sh.lock = some x) : s'.lock = some x := by
  have frame := (threadStep_frame h).1
  generalize (m.thread t).pc.locked = before, v'.pc.locked = after at frame own
  generalize s'.lock = new at frame ⊢
  rw [mine] at frame own
  cases frame with
  | outside => rfl
  | inside => rfl
  | releases => exact absurd (Option.some.inj (own rfl)) other

/-- A new thread is one that has done nothing in the driver. -/
theorem threadStep_new {u : T} (h : threadStep m t c o = some (s', v', some u)) :
    u ≠ t ∧ (m.thread u).alive = false ∧ (m.thread u).pc = .user := by
  cases at_ : (m.thread t).pc <;> simp only [threadStep, at_] at h <;>
    grind [Option.map_eq_some_iff]

/-- A step of a thread leaves its identity alone, and its list except where a wait returns one. -/
theorem threadStep_thread (h : threadStep m t c o = some (s', v', new)) :
    v'.listener = (m.thread t).listener ∧
      (v'.list = (m.thread t).list ∨
        ∃ held, (m.thread t).pc = .waitUnlock true true held ∧ v'.list = some held) := by
  cases at_ : (m.thread t).pc <;> simp only [threadStep, at_] at h <;>
    grind [Option.map_eq_some_iff, Thread.goto, Thread.return]

/-! ### Steps of the system -/

/-- What the radio, time and processes leave alone. -/
structure Env (s s' : Shared d T) : Prop where
  sb : s'.buf.sb = s.buf.sb
  lock : s'.lock = s.lock
  ev : s'.ev = s.ev
  cont : s'.cont = s.cont
  passCont : s'.passCont = s.passCont
  ownerPid : s'.ownerPid = s.ownerPid
  listen : s'.listen = s.listen

/-- What a system step is: nothing, the step of one thread, perhaps with a new thread, a call, the
end of a thread, or an event outside the threads. -/
inductive Turn (m : System d T) : Event d T → System d T → Prop where
  | idle (e : Event d T)
      (blocked : ∀ t c o, e = .run t c o → (m.thread t).alive = true → threadStep m t c o = none) :
      Turn m e m
  | run (t : T) (c : Core) (o : Outcome T) {s : Shared d T} {v : Thread} {new : Option T}
      (alive : (m.thread t).alive = true) (h : threadStep m t c o = some (s, v, new)) :
      Turn m (.run t c o) (({ m with sh := s }.setThread t v).spawn new)
  | call (t : T) (call : Call) (alive : (m.thread t).alive = true) (out : (m.thread t).pc = .user) :
      Turn m (.call t call) (m.setThread t { m.thread t with
        pc := call.entry d.radio
        list := if call = .wait then none else (m.thread t).list })
  | ends (t : T) : Turn m (.ends t) (m.setThread t { m.thread t with alive := false, list := none })
  | env (e : Event d T) {s : Shared d T} (quiet : ∀ t c o, e ≠ .run t c o) (h : Env m.sh s) :
      Turn m e { m with sh := s }

theorem step_turn (m : System d T) (e : Event d T) : Turn m e (m.step e) := by
  cases e with
  | call t call =>
    simp only [System.step, System.callStep]
    split
    next free =>
      simp only [Bool.and_eq_true, decide_eq_true_eq] at free
      exact .call t call free.1 free.2
    next => exact .idle _ nofun
  | run t c o =>
    simp only [System.step, System.runStep]
    split
    next alive =>
      cases h : threadStep m t c o with
      | none => exact .idle _ fun _ _ _ same _ => by cases same; exact h
      | some next => exact .run t c o alive h
    next dead => exact .idle _ fun _ _ _ same alive => by cases same; exact absurd alive dead
  | report r =>
    simp only [System.step, System.report]
    split_ifs
    · cases d.store (m.sh.buf.lists m.sh.buf.sb.fill) r with
      | none => exact .idle _ nofun
      | some w => exact .env _ nofun ⟨rfl, rfl, rfl, rfl, rfl, rfl, rfl⟩
    · cases d.store m.sh.scan r with
      | none => exact .idle _ nofun
      | some w => exact .env _ nofun ⟨rfl, rfl, rfl, rfl, rfl, rfl, rfl⟩
    · exact .idle _ nofun
  | passEnds => exact .env _ nofun ⟨rfl, rfl, rfl, rfl, rfl, rfl, rfl⟩
  | inquiryComplete =>
    simp only [System.step, System.inquiryComplete]
    split
    next =>
      split
      next => exact .env _ nofun ⟨rfl, rfl, rfl, rfl, rfl, rfl, rfl⟩
      next => exact .env _ nofun ⟨rfl, rfl, rfl, rfl, rfl, rfl, rfl⟩
    next => exact .idle _ nofun
  | hciWorking => exact .env _ nofun ⟨rfl, rfl, rfl, rfl, rfl, rfl, rfl⟩
  | elapse us => exact .env _ nofun ⟨rfl, rfl, rfl, rfl, rfl, rfl, rfl⟩
  | ends t => exact .ends t
  | procStarts pid => exact .env _ nofun ⟨rfl, rfl, rfl, rfl, rfl, rfl, rfl⟩
  | procEnds pid => exact .env _ nofun ⟨rfl, rfl, rfl, rfl, rfl, rfl, rfl⟩

@[simp] theorem System.setThread_sh (m : System d T) (t : T) (v : Thread) :
    (m.setThread t v).sh = m.sh := rfl

@[simp] theorem System.setThread_pid (m : System d T) (t : T) (v : Thread) :
    (m.setThread t v).pid = m.pid := rfl

@[simp] theorem System.spawn_sh (m : System d T) (new : Option T) : (m.spawn new).sh = m.sh := by
  cases new <;> rfl

@[simp] theorem System.spawn_pid (m : System d T) (new : Option T) : (m.spawn new).pid = m.pid := by
  cases new <;> rfl

/-- After a step of `t`. -/
theorem run_thread (h : threadStep m t c o = some (s', v', new)) :
    (({ m with sh := s' } : System d T).setThread t v' |>.spawn new).thread t = v' := by
  cases new with
  | none => simp [System.spawn, System.setThread]
  | some u => simp [System.spawn, System.setThread, (threadStep_new h).1.symm]

/-- After a step of `t` the other threads are where they were, a new one included. -/
theorem run_pc (h : threadStep m t c o = some (s', v', new)) (x : T) :
    ((({ m with sh := s' } : System d T).setThread t v').spawn new |>.thread x).pc =
      if x = t then v'.pc else (m.thread x).pc := by
  cases new with
  | none => by_cases own : x = t <;> simp [System.spawn, System.setThread, own]
  | some u =>
    obtain ⟨other, _, out⟩ := threadStep_new h
    by_cases born : x = u
    · subst born
      simp [System.spawn, System.setThread, other, out]
    · by_cases own : x = t <;> simp [System.spawn, System.setThread, own, born, other.symm]

/-- Only a new thread comes alive. -/
theorem step_alive {e : Event d T} {u : T} (alive : ((m.step e).thread u).alive = true) :
    (m.thread u).alive = true ∨
      ∃ t c o s v, e = .run t c o ∧ (m.thread t).alive = true ∧
        threadStep m t c o = some (s, v, some u) := by
  have turn := step_turn m e
  generalize m.step e = m' at turn alive
  cases turn with
  | idle => exact .inl alive
  | run t c o here h =>
    rename_i s v new
    have before (now : ((({ m with sh := s } : System d T).setThread t v).thread u).alive = true) :
        (m.thread u).alive = true := by
      by_cases own : u = t
      · exact own ▸ here
      · simpa [System.setThread, own] using now
    cases new with
    | none => exact .inl (before alive)
    | some x =>
      by_cases born : u = x
      · exact .inr ⟨t, c, o, s, v, rfl, here, born ▸ h⟩
      · exact .inl (before (by simpa [System.spawn, System.setThread, born] using alive))
  | call t call here =>
    by_cases own : u = t
    · exact .inl (own ▸ here)
    · exact .inl (by simpa [System.setThread, own] using alive)
  | ends t =>
    by_cases own : u = t
    · subst own
      simp [System.setThread] at alive
    · exact .inl (by simpa [System.setThread, own] using alive)
  | env => exact .inl alive

theorem step_pid (m : System d T) (e : Event d T) : (m.step e).pid = m.pid := by
  have turn := step_turn m e
  generalize m.step e = m' at turn ⊢
  cases turn with
  | idle | call | ends | env => rfl
  | run => simp

/-- A step that turns a session on. -/
theorem cont_step {e : Event d T} (cont : (m.step e).sh.cont = true) : m.sh.cont = true ∨
    ∃ t c o l, e = .run t c o ∧ (m.thread t).alive = true ∧ (m.thread t).pc = .startArm l := by
  have turn := step_turn m e
  generalize m.step e = m' at turn cont
  cases turn with
  | idle => exact .inl cont
  | run t c o alive h =>
    rw [System.spawn_sh, System.setThread_sh] at cont
    rcases cont_from h cont with before | ⟨l, arms⟩
    · exact .inl before
    · exact .inr ⟨t, c, o, l, rfl, alive, arms⟩
  | call | ends => exact .inl cont
  | env _ _ h => exact .inl (h.cont ▸ cont)

/-- Where a live thread has got to: it has not moved, or this was its step, or it is new or has
just been called. -/
theorem thread_step {e : Event d T} {x : T} (alive : ((m.step e).thread x).alive = true) :
    (m.thread x).alive = true ∧ ((m.step e).thread x).pc = (m.thread x).pc ∨
      (∃ c o v new, e = .run x c o ∧ (m.thread x).alive = true ∧
        threadStep m x c o = some ((m.step e).sh, v, new) ∧ ((m.step e).thread x).pc = v.pc) ∨
      ((m.step e).thread x).pc = .user ∨ ∃ call : Call, ((m.step e).thread x).pc = call.entry d.radio := by
  have before := step_alive alive
  have turn := step_turn m e
  generalize m.step e = m' at turn alive ⊢
  cases turn with
  | idle => exact .inl ⟨alive, rfl⟩
  | run t c o here h =>
    rw [run_pc h, System.spawn_sh, System.setThread_sh]
    by_cases own : x = t
    · subst own
      rw [if_pos rfl]
      exact .inr (.inl ⟨c, o, _, _, rfl, here, h, rfl⟩)
    · rw [if_neg own]
      rcases before with old | ⟨_, _, _, _, _, same, _, born⟩
      · exact .inl ⟨old, rfl⟩
      · cases same
        exact .inr (.inr (.inl (threadStep_new born).2.2))
  | call t call here =>
    by_cases own : x = t
    · subst own
      exact .inr (.inr (.inr ⟨call, by simp [System.setThread]⟩))
    · exact .inl ⟨by simpa [System.setThread, own] using alive, by simp [System.setThread, own]⟩
  | ends t =>
    by_cases own : x = t
    · subst own
      simp [System.setThread] at alive
    · exact .inl ⟨by simpa [System.setThread, own] using alive, by simp [System.setThread, own]⟩
  | env => exact .inl ⟨alive, rfl⟩

/-- To carry a fact about the shared state and one thread over a step: `J` before it, `J'` after. -/
structure Carries (m : System d T) (e : Event d T) (J J' : Shared d T → T → Thread → Prop) :
    Prop where
  /-- The thread whose step it is. -/
  own : ∀ t c o {s' v' new}, e = .run t c o → (m.thread t).alive = true →
    threadStep m t c o = some (s', v', new) → J m.sh t (m.thread t) → J' s' t v'
  /-- Any other thread. -/
  other : ∀ t c o {s' v' new} x, x ≠ t → e = .run t c o → (m.thread t).alive = true →
    threadStep m t c o = some (s', v', new) → J m.sh t (m.thread t) → J m.sh x (m.thread x) →
    J' s' x (m.thread x)
  /-- A new thread. -/
  born : ∀ t c o {s' v' u}, e = .run t c o → (m.thread t).alive = true →
    threadStep m t c o = some (s', v', some u) → J m.sh t (m.thread t) → J m.sh u (m.thread u) → J' s' u .fresh
  call : ∀ t call, e = .call t call → (m.thread t).pc = .user → J m.sh t (m.thread t) →
    J' m.sh t { m.thread t with
      pc := call.entry d.radio
      list := if call = .wait then none else (m.thread t).list }
  ends : ∀ t, e = .ends t → J m.sh t (m.thread t) →
    J' m.sh t { m.thread t with alive := false, list := none }
  /-- An event that does not touch the thread. -/
  env : ∀ s x, (∀ t c o, e ≠ .run t c o) → Env m.sh s → J m.sh x (m.thread x) →
    J' s x (m.thread x)
  idle : ∀ x, (∀ t c o, e = .run t c o → (m.thread t).alive = true → threadStep m t c o = none) →
    J m.sh x (m.thread x) → J' m.sh x (m.thread x)

theorem Carries.step {e : Event d T} {J J' : Shared d T → T → Thread → Prop}
    (carries : Carries m e J J') (now : ∀ x, J m.sh x (m.thread x)) (x : T) :
    J' (m.step e).sh x ((m.step e).thread x) := by
  have turn := step_turn m e
  generalize m.step e = m' at turn ⊢
  cases turn with
  | idle _ blocked => exact carries.idle x blocked (now x)
  | run t c o alive h =>
    rename_i s v new
    have rest : J' s x ((({ m with sh := s } : System d T).setThread t v).thread x) := by
      by_cases own : x = t
      · subst own
        simpa [System.setThread] using carries.own x c o rfl alive h (now x)
      · simpa [System.setThread, own] using carries.other t c o x own rfl alive h (now t) (now x)
    cases new with
    | none => exact rest
    | some u =>
      by_cases born : x = u
      · subst born
        simpa [System.spawn, System.setThread, Thread.fresh] using carries.born t c o rfl alive h (now t) (now x)
      · simpa [System.spawn, System.setThread, born] using rest
  | call t call alive out =>
    by_cases own : x = t
    · subst own
      simpa [System.setThread] using carries.call x call rfl out (now x)
    · simpa [System.setThread, own] using
        carries.env m.sh x nofun ⟨rfl, rfl, rfl, rfl, rfl, rfl, rfl⟩ (now x)
  | ends t =>
    by_cases own : x = t
    · subst own
      simpa [System.setThread] using carries.ends x rfl (now x)
    · simpa [System.setThread, own] using
        carries.env m.sh x nofun ⟨rfl, rfl, rfl, rfl, rfl, rfl, rfl⟩ (now x)
  | env e quiet h => exact carries.env _ x quiet h (now x)

end PicoOS.Scan
