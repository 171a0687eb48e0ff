import PicoOS.Scan.Steps
import PicoOS.Scan.Wifi

/-!
# Whose inquiry ends a one-shot scan

BTstack has one inquiry outstanding at a time. It refuses another one until it
has delivered the completion, which comes later than a stop. `packet_handler`
cannot tell whose completion it gets, and `bt_scan` returns 0 whatever
`gap_inquiry_start` says, so a one-shot scan is ended by its own inquiry only
where that start succeeds.
-/
namespace PicoOS.Scan

/-- Who started an inquiry: the `bt_scan` with this number, or continuous scanning. -/
inductive Inquiry where
  | oneShot (n : Nat)
  | cont
  deriving DecidableEq

/-- The driver on top of BTstack. -/
structure Stack (Item T : Type) where
  sys : System (bluetooth Item) T
  /-- The inquiry whose completion has yet to be delivered. -/
  outstanding : Option Inquiry
  /-- How many calls of `bt_scan` have got to `gap_inquiry_start`. -/
  calls : Nat
  /-- The last of them, while `g_scan_done` has not become true since. -/
  awaited : Option Nat

variable {Item T : Type} [DecidableEq T]

namespace Stack

def start (m : System (bluetooth Item) T) : Stack Item T := ⟨m, none, 0, none⟩

/-- BTstack refuses `gap_inquiry_start` while an inquiry is outstanding. -/
def answer (w : Stack Item T) (o : Outcome T) : Outcome T :=
  { o with rc := if w.outstanding.isSome && o.rc = 0 then -1 else o.rc }

/-- It delivers a completion for each inquiry it has started, and no other. -/
def sysStep (w : Stack Item T) : Event (bluetooth Item) T → System (bluetooth Item) T
  | .run t c o => w.sys.step (.run t c (w.answer o))
  | .inquiryComplete => if w.outstanding.isSome then w.sys.step .inquiryComplete else w.sys
  | e => w.sys.step e

def delivers (w : Stack Item T) : Event (bluetooth Item) T → Bool
  | .inquiryComplete => w.outstanding.isSome && w.sys.sh.async.isNone
  | _ => false

/-- The inquiry that a step starts. -/
def starts (w : Stack Item T) : Event (bluetooth Item) T → Option Inquiry
  | .run t _ o =>
    if (w.sys.thread t).alive && (w.answer o).rc = 0 then
      match (w.sys.thread t).pc with
      | .scanRadio => some (.oneShot w.calls)
      | .startRadio _ => some .cont
      | .pollPass now =>
        if !w.sys.sh.inqActive && Radio.inquiryPeriodUs ≤ now - w.sys.sh.inqStartUs then some .cont
        else none
      | _ => none
    else none
  | _ => none

/-- A `bt_scan` calls `gap_inquiry_start`. -/
def scans (w : Stack Item T) : Event (bluetooth Item) T → Bool
  | .run t _ _ => (w.sys.thread t).alive && (w.sys.thread t).pc = .scanRadio
  | _ => false

/-- A `bt_scan` clears `g_scan_done`. -/
def resets (w : Stack Item T) : Event (bluetooth Item) T → Bool
  | .run t _ _ => (w.sys.thread t).alive && (w.sys.thread t).pc = .scanReset
  | _ => false

def step (w : Stack Item T) (e : Event (bluetooth Item) T) : Stack Item T where
  sys := w.sysStep e
  outstanding := if w.delivers e then none else (w.starts e).or w.outstanding
  calls := if w.scans e then w.calls + 1 else w.calls
  awaited :=
    if (w.sysStep e).sh.scanDone || w.resets e then none
    else if w.scans e then some w.calls
    else w.awaited

/-- `bt_scan` goes on to return 0 only with an inquiry of its own, and `g_scan_done` becomes true
through the completion of that one or in `bt_scan_stop`. -/
structure Own (w : Stack Item T) (e : Event (bluetooth Item) T) : Prop where
  started : ∀ t c o, e = .run t c o → (w.sys.thread t).pc = .scanRadio →
    ((w.step e).sys.thread t).pc = .scanEnd 0 → (w.step e).outstanding = some (.oneShot w.calls)
  done : ∀ n, w.awaited = some n → (w.step e).sys.sh.scanDone = true →
    e = .inquiryComplete ∧ w.outstanding = some (.oneShot n) ∨
      ∃ t c o, e = .run t c o ∧ (w.sys.thread t).pc = .oneShotStop

/-- `bt_scan` starts its inquiry when BTstack accepts it and no session runs, and a session is
armed only while no one-shot scan is awaited. -/
def alone (w : Stack Item T) : Event (bluetooth Item) T → Bool
  | .run t _ o =>
    if (w.sys.thread t).alive then
      match (w.sys.thread t).pc with
      | .scanRadio => w.outstanding.isNone && o.rc = 0 && !w.sys.sh.cont
      | .startArm _ => w.awaited.isNone
      | _ => true
    else true
  | _ => true

end Stack

/-! ### What a step can do -/

/-- In the part of the WiFi poll that looks at the link. -/
def Pc.link : Pc → Bool
  | .linkBegin | .linkCheck | .linkEnd => true
  | _ => false

section
variable {d : Driver} {m : System d T} {t : T} {c : Core} {o : Outcome T} {s' : Shared d T}
  {v' : Thread} {new : Option T}

/-- A thread gets to the link check only from the entry of the WiFi poll. -/
theorem link_from (h : threadStep m t c o = some (s', v', new)) (into : v'.pc.link = true) :
    (m.thread t).pc.link = true := by
  cases at_ : (m.thread t).pc <;> simp only [threadStep, at_] at h <;>
    grind [Option.map_eq_some_iff, Pc.link, Thread.goto, Thread.return, StopCaller.resume,
      cases StopCaller]

/-- `g_scan_done` is set in two places. -/
theorem scanDone_from (h : threadStep m t c o = some (s', v', new)) (done : s'.scanDone = true) :
    m.sh.scanDone = true ∨ (m.thread t).pc = .oneShotStop ∨ (m.thread t).pc = .linkCheck := by
  cases at_ : (m.thread t).pc <;> simp only [threadStep, at_] at h <;>
    grind [Option.map_eq_some_iff, asyncBegin, asyncEnd, kmutexLock, startReset, startDwell,
      startRadio, startFailed, startArm, contStop, pollPass, pollPublish, pollRestart,
      scanReset, scanRadio, eventFlagsSet, eventFlagsClear]

end

/-! ### Steps of the system -/

section
variable {d : Driver} {m : System d T} {e : Event d T}

/-- A step that sets `g_scan_done`. -/
theorem scanDone_step (done : (m.step e).sh.scanDone = true) : m.sh.scanDone = true ∨
    e = .inquiryComplete ∨ ∃ t c o, e = .run t c o ∧
      ((m.thread t).pc = .oneShotStop ∨ (m.thread t).pc = .linkCheck) := by
  cases e with
  | inquiryComplete => exact .inr (.inl rfl)
  | run t c o =>
    simp only [System.step, System.runStep] at done
    split at done
    next =>
      cases h : threadStep m t c o with
      | none =>
        rw [h] at done
        exact .inl done
      | some r =>
        rw [h, System.spawn_sh, System.setThread_sh] at done
        rcases scanDone_from h done with before | at_
        · exact .inl before
        · exact .inr (.inr ⟨t, c, o, rfl, at_⟩)
    next => exact .inl done
  | call t call =>
    simp only [System.step, System.callStep] at done
    split at done <;> exact .inl done
  | report r =>
    simp only [System.step, System.report] at done
    split_ifs at done
    · cases stored : d.store (m.sh.buf.lists m.sh.buf.sb.fill) r <;> rw [stored] at done <;>
        exact .inl done
    · cases stored : d.store m.sh.scan r <;> rw [stored] at done <;> exact .inl done
    · exact .inl done
  | _ => exact .inl done

/-- Only the WiFi driver looks at the link. -/
theorem link_step (radio : d.radio = .bt) (out : ∀ t, (m.thread t).pc.link = false) (t : T) :
    ((m.step e).thread t).pc.link = false := by
  have turn := step_turn m e
  generalize m.step e = m' at turn ⊢
  cases turn with
  | idle => exact out t
  | run u c o alive h =>
    rw [run_pc h]
    split
    · by_contra into
      have before := link_from h (by simpa using into)
      rw [out u] at before
      cases before
    · exact out t
  | call u call =>
    by_cases own : t = u
    · subst own
      rw [radio]
      cases call <;> simp [System.setThread, Call.entry, Pc.link]
    · simpa [System.setThread, own] using out t
  | ends u =>
    by_cases own : t = u
    · subst own
      simpa [System.setThread] using out t
    · simpa [System.setThread, own] using out t
  | env => exact out t

end

/-! ### The invariant -/

namespace Stack

variable {w : Stack Item T} {e : Event (bluetooth Item) T}

structure Ok (w : Stack Item T) : Prop where
  link : ∀ t, (w.sys.thread t).pc.link = false
  awaited : ∀ n, w.awaited = some n →
    w.outstanding = some (.oneShot n) ∧ w.sys.sh.cont = false ∧ w.sys.sh.scanDone = false

/-- What every step of the driver on such an event gives, its step on top of BTstack gives. -/
theorem sysStep_cases {P : System (bluetooth Item) T → Prop} (w : Stack Item T)
    (e : Event (bluetooth Item) T) (same : P w.sys)
    (run : ∀ t c o, e = .run t c o → P (w.sys.step (.run t c (w.answer o))))
    (other : (∀ t c o, e ≠ .run t c o) → P (w.sys.step e)) : P (w.sysStep e) := by
  cases e with
  | run t c o => exact run t c o rfl
  | inquiryComplete =>
    simp only [sysStep]
    split
    · exact other nofun
    · exact same
  | _ => exact other nofun

theorem cont_sysStep (cont : (w.sysStep e).sh.cont = true) : w.sys.sh.cont = true ∨
    ∃ t c o l, e = .run t c o ∧ (w.sys.thread t).alive = true ∧
      (w.sys.thread t).pc = .startArm l := by
  revert cont
  refine sysStep_cases (P := fun m => m.sh.cont = true → _) w e ?_ ?_ ?_
  · exact .inl
  · rintro t c o rfl cont
    rcases cont_step cont with before | ⟨_, _, _, l, same, alive, arms⟩
    · exact .inl before
    · cases same
      exact .inr ⟨t, c, o, l, rfl, alive, arms⟩
  · exact fun _ => cont_step

theorem scanDone_sysStep (done : (w.sysStep e).sh.scanDone = true) : w.sys.sh.scanDone = true ∨
    e = .inquiryComplete ∨ ∃ t c o, e = .run t c o ∧
      ((w.sys.thread t).pc = .oneShotStop ∨ (w.sys.thread t).pc = .linkCheck) := by
  revert done
  refine sysStep_cases (P := fun m => m.sh.scanDone = true → _) w e ?_ ?_ ?_
  · exact .inl
  · rintro t c o rfl done
    rcases scanDone_step done with before | never | ⟨_, _, _, same, at_⟩
    · exact .inl before
    · cases never
    · cases same
      exact .inr (.inr ⟨t, c, o, rfl, at_⟩)
  · exact fun _ => scanDone_step

omit [DecidableEq T] in
/-- BTstack starts nothing while an inquiry is outstanding. -/
theorem starts_none (busy : w.outstanding.isSome = true) : w.starts e = none := by
  cases e with
  | run t c o =>
    have refused : (w.answer o).rc ≠ 0 := by
      simp only [answer, busy, Bool.true_and]
      split
      · decide
      next accepted => simpa using accepted
    simp only [starts, refused, decide_false, Bool.and_false, Bool.false_eq_true, if_false]
  | _ => rfl

/-- A completion that reaches the handler outside a session sets `g_scan_done`. -/
theorem delivers_done (delivers : w.delivers e = true) (stopped : w.sys.sh.cont = false) :
    (w.sysStep e).sh.scanDone = true := by
  cases e with
  | inquiryComplete =>
    simp only [Stack.delivers, Bool.and_eq_true] at delivers
    have free : (bluetooth Item).radio = .bt := rfl
    simp [sysStep, delivers.1, System.step, System.inquiryComplete, free, delivers.2, stopped]
  | _ => cases delivers

/-- The inquiry of a `bt_scan` whose start succeeds is the one that is outstanding. -/
theorem scans_outstanding (scans : w.scans e = true) (alone : w.alone e = true) :
    (w.step e).outstanding = some (.oneShot w.calls) := by
  cases e with
  | run t c o =>
    simp only [Stack.scans, Bool.and_eq_true, decide_eq_true_eq] at scans
    simp only [Stack.alone, scans, if_true, Bool.and_eq_true, decide_eq_true_eq,
      Option.isNone_iff_eq_none] at alone
    simp [Stack.step, delivers, starts, scans, answer, alone.1.1, alone.1.2]
  | _ => cases scans

theorem Ok.step (ok : w.Ok) (alone : w.alone e = true) : (w.step e).Ok where
  link := by
    apply sysStep_cases (P := fun m => ∀ t, (m.thread t).pc.link = false) w e ok.link
    · exact fun _ _ _ _ => link_step rfl ok.link
    · exact fun _ => link_step rfl ok.link
  awaited n awaited := by
    simp only [Stack.step] at awaited
    split_ifs at awaited with ended scans
    all_goals
      have undone : (w.step e).sys.sh.scanDone = false := by
        simp only [Bool.or_eq_true, not_or, Bool.not_eq_true] at ended
        exact ended.1
    · -- the call whose inquiry has just been started
      cases awaited
      refine ⟨scans_outstanding scans alone, ?_, undone⟩
      by_contra cont
      rw [Bool.not_eq_false] at cont
      rcases cont_sysStep cont with before | ⟨t, c, o, l, rfl, alive, arms⟩
      · cases e with
        | run t c o =>
          simp only [Stack.scans, Bool.and_eq_true, decide_eq_true_eq] at scans
          simp [Stack.alone, scans, before] at alone
        | _ => cases scans
      · simp [Stack.scans, arms] at scans
    · -- the call that was awaited before
      obtain ⟨mine, stopped, -⟩ := ok.awaited n awaited
      have waits : w.delivers e = false := by
        by_contra delivers
        have ended := delivers_done (by simpa using delivers) stopped
        exact absurd (undone.symm.trans ended) (by decide)
      refine ⟨?_, ?_, undone⟩
      · simp only [Stack.step, waits, starts_none (w := w) (e := e) (by rw [mine]; rfl)]
        exact mine
      · by_contra cont
        rw [Bool.not_eq_false] at cont
        rcases cont_sysStep cont with before | ⟨t, c, o, l, rfl, alive, arms⟩
        · rw [stopped] at before
          cases before
        · simp [Stack.alone, alive, arms, awaited] at alone

theorem Ok.own (ok : w.Ok) (alone : w.alone e = true) : w.Own e where
  started t c o run at_ returns := by
    subst run
    apply scans_outstanding _ alone
    simp only [Stack.scans, at_, decide_true, Bool.and_true]
    -- a dead thread stays where it is
    by_contra dead
    simp only [Stack.step, sysStep, System.step, System.runStep, dead, if_false] at returns
    rw [at_] at returns
    cases returns
  done n awaited done := by
    obtain ⟨mine, stopped, undone⟩ := ok.awaited n awaited
    rcases scanDone_sysStep done with before | complete | ⟨t, c, o, run, stops | link⟩
    · rw [undone] at before
      cases before
    · exact .inl ⟨complete, mine⟩
    · exact .inr ⟨t, c, o, run, stops⟩
    · have out := ok.link t
      rw [link] at out
      cases out

omit [DecidableEq T] in
theorem ok_start {m : System (bluetooth Item) T} (initial : Initial m) : (start m).Ok where
  link t := by
    rw [start, (initial.threads t).1]
    rfl
  awaited _ none := by cases none

end Stack

/-- In every run in which `bt_scan` starts its inquiry where BTstack accepts it and no session runs,
and no session is armed while a one-shot scan is awaited, each `bt_scan` that returns 0 has an
inquiry of its own, and only its completion or `bt_scan_stop` ends the scan. -/
theorem one_shot_ends_by_own_inquiry {m : System (bluetooth Item) T} (initial : Initial m)
    (es : List (Event (bluetooth Item) T))
    (alone : Run.Along Stack.step (fun w e => w.alone e = true) (Stack.start m) es) :
    Run.Along Stack.step Stack.Own (Stack.start m) es :=
  Run.Along.gives (fun _ _ ok now => Stack.Ok.step ok now) (fun _ _ ok now => Stack.Ok.own ok now)
    (Stack.ok_start initial) alone

/-- A one-shot scan that its inquiry ends, a session that is stopped, and once the completion of its
inquiry is there, the next one-shot scan. -/
theorem scans_after_sessions :
    Run.Along Stack.step Stack.Own (Stack.start (afterInit (bluetooth Unit) () fun _ : Fin 2 => 7))
      (.call 0 .scan :: goes 0 5 ++ .inquiryComplete :: .call 1 (.start false) :: goes 1 12 ++
        .call 1 .stop :: goes 1 7 ++ .inquiryComplete :: .call 0 .scan :: goes 0 5 ++
        [.inquiryComplete]) :=
  one_shot_ends_by_own_inquiry (afterInit_initial _ _ _) _ (by decide +kernel)

/-- A session is started and stopped, and a one-shot scan called before the completion of the
session's inquiry is there. -/
def stoppedSession : List (Event (bluetooth Unit) (Fin 2)) :=
  .call 1 (.start false) :: goes 1 12 ++ .call 1 .stop :: goes 1 7 ++ .call 0 .scan :: goes 0 5

/-- It returns 0 without an inquiry, and the completion of the session's inquiry ends it. -/
theorem late_completion_ends_scan :
    Initial (afterInit (bluetooth Unit) () fun _ : Fin 2 => 7) ∧
      (let w := Run.exec Stack.step
        (Stack.start (afterInit (bluetooth Unit) () fun _ : Fin 2 => 7)) stoppedSession
      (w.sys.thread 0).pc = .user ∧ (w.sys.thread 0).ret = 0 ∧ w.calls = 1 ∧
        w.outstanding = some .cont ∧ w.sys.sh.scanDone = false ∧
        (w.step .inquiryComplete).sys.sh.scanDone = true) ∧
      ¬ Run.Along Stack.step Stack.Own
        (Stack.start (afterInit (bluetooth Unit) () fun _ : Fin 2 => 7))
        (stoppedSession ++ [.inquiryComplete]) := by
  refine ⟨afterInit_initial _ _ _, by decide +kernel, fun own => ?_⟩
  have last := ((Run.along_append _ _ _).mp own).2.1
  rcases last.done 0 (by decide +kernel) (by decide +kernel) with ⟨-, mine⟩ | ⟨t, c, o, run, -⟩
  · exact absurd mine (by decide +kernel)
  · cases run

end PicoOS.Scan
