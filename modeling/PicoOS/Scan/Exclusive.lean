import PicoOS.Scan.Steps
import PicoOS.Scan.Wifi

/-!
# One-shot and continuous WiFi scans

`wifi_scan` and `wifi_scan_start` look at each other's flags under the async
context lock, which is owned by a core: a second thread of that core can come
between the check and the start. Where no check passes while another thread is
between its own check and the start, the two kinds of scan exclude each other
and the callback writes the list of the kind that runs. Where no two threads are
inside `wifi_scan` in this way either, there is never more than one scan.
-/
namespace PicoOS.Scan

variable {T : Type} [DecidableEq T]

/-- In a `wifi_scan` that has passed its check and not started its scan. -/
def Pc.scanning : Pc → Bool
  | .scanReset | .scanRadio => true
  | _ => false

/-- In a `wifi_scan_start` that has passed its check and not armed its session. -/
def Pc.opening : Pc → Bool
  | .startReset _ | .startDwell _ | .startRadio _ | .startArm _ => true
  | _ => false

/-- One that has also turned the callback to the lists. -/
def Pc.opened : Pc → Bool
  | .startDwell _ | .startRadio _ | .startArm _ => true
  | _ => false

/-- The driver, and how many of the scans that a `wifi_scan` has started are under way. -/
structure Scans (T : Type) where
  sys : System wifi T
  oneShots : Nat

namespace Scans

def start (m : System wifi T) : Scans T := ⟨m, 0⟩

def step (w : Scans T) (e : Event wifi T) : Scans T where
  sys := w.sys.step e
  oneShots :=
    match e with
    | .run t _ o =>
      if (w.sys.thread t).alive && (w.sys.thread t).pc = .scanRadio && o.rc = 0 then w.oneShots + 1
      else w.oneShots
    | .passEnds => 0
    | _ => w.oneShots

/-- A one-shot scan and a session run at once. -/
def Overlap (w : Scans T) : Prop := 0 < w.oneShots ∧ w.sys.sh.cont = true

/-- `scan_result_cb` leaves `g_scan` alone in a session, and the lists in a one-shot scan. -/
structure Separate (w : Scans T) (e : Event wifi T) : Prop where
  scan : ∀ r, e = .report r → w.sys.sh.cont = true → (w.step e).sys.sh.scan = w.sys.sh.scan
  lists : ∀ r, e = .report r → 0 < w.oneShots → (w.step e).sys.sh.buf = w.sys.sh.buf

/-- A check passes only where no live thread is between the other one's check and start. -/
def OneAtATime (w : Scans T) : Event wifi T → Prop
  | .run t _ _ =>
    (w.sys.thread t).alive = true →
      ((w.sys.thread t).pc = .scanCheck → scanCheck w.sys.sh = 0 →
        ∀ u, (w.sys.thread u).alive = true → (w.sys.thread u).pc.opening = false) ∧
      ∀ l, (w.sys.thread t).pc = .startCheck l → startCheck w.sys.sh = 0 →
        ∀ u, (w.sys.thread u).alive = true → (w.sys.thread u).pc.scanning = false
  | _ => True

/-- A check of `wifi_scan` passes only where no live thread is between its check and start in
another `wifi_scan`. -/
def OneScan (w : Scans T) : Event wifi T → Prop
  | .run t _ _ =>
    (w.sys.thread t).alive = true → (w.sys.thread t).pc = .scanCheck → scanCheck w.sys.sh = 0 →
      ∀ u, (w.sys.thread u).alive = true → (w.sys.thread u).pc.scanning = false
  | _ => True

end Scans

/-! ### What a step can do -/

section
variable {d : Driver} {m : System d T} {t : T} {c : Core} {o : Outcome T} {s' : Shared d T}
  {v' : Thread} {new : Option T}

theorem scanning_from (h : threadStep m t c o = some (s', v', new))
    (into : v'.pc.scanning = true) : (m.thread t).pc = .scanReset ∨
      (m.thread t).pc = .scanCheck ∧ scanCheck m.sh = 0 ∧ v'.pc = .scanReset := by
  cases at_ : (m.thread t).pc <;> simp only [threadStep, at_] at h <;>
    grind [Option.map_eq_some_iff, Thread.goto, Thread.return, Pc.scanning, StopCaller.resume,
      cases StopCaller]

theorem opening_from (h : threadStep m t c o = some (s', v', new))
    (into : v'.pc.opening = true) : (m.thread t).pc.opening = true ∨
      (∃ l, (m.thread t).pc = .startCheck l) ∧ startCheck m.sh = 0 := by
  cases at_ : (m.thread t).pc <;> simp only [threadStep, at_] at h <;>
    grind [Option.map_eq_some_iff, Thread.goto, Thread.return, Pc.opening, StopCaller.resume,
      cases StopCaller]

theorem opened_from (h : threadStep m t c o = some (s', v', new))
    (into : v'.pc.opened = true) : (m.thread t).pc.opened = true ∨
      ∃ l, (m.thread t).pc = .startReset l := by
  cases at_ : (m.thread t).pc <;> simp only [threadStep, at_] at h <;>
    grind [Option.map_eq_some_iff, Thread.goto, Thread.return, Pc.opened, StopCaller.resume,
      cases StopCaller]

/-- The callback is turned away from the lists only by a one-shot scan. -/
theorem passOff_from (h : threadStep m t c o = some (s', v', new)) (pass : m.sh.passCont = true) :
    s'.passCont = true ∨ (m.thread t).pc = .scanReset := by
  cases at_ : (m.thread t).pc <;> simp only [threadStep, at_] at h <;>
    grind [Option.map_eq_some_iff, asyncBegin, asyncEnd, kmutexLock, startReset, startDwell,
      startRadio, startFailed, startArm, contStop, oneShotStop, linkCheck, pollPass, pollPublish,
      pollRestart, scanRadio, eventFlagsSet, eventFlagsClear]

/-- No thread ends a scan of the radio. -/
theorem active_from (h : threadStep m t c o = some (s', v', new)) (active : m.sh.active = true) :
    s'.active = true := by
  cases at_ : (m.thread t).pc <;> simp only [threadStep, at_] at h <;>
    grind [Option.map_eq_some_iff, asyncBegin, asyncEnd, kmutexLock, startReset, startDwell,
      startRadio, startFailed, startArm, contStop, oneShotStop, linkCheck, pollPass, pollPublish,
      pollRestart, scanReset, scanRadio, eventFlagsSet, eventFlagsClear]

end

/-! ### Steps of the system -/

section
variable {d : Driver} {m : System d T} {e : Event d T} {x : T}

theorem passOn_step (pass : (m.step e).sh.passCont = true) :
    m.sh.passCont = true ∨ m.sh.cont = true ∨ ∃ t c o l, e = .run t c o ∧
      (m.thread t).alive = true ∧ (m.thread t).pc = .startReset l := by
  have turn := step_turn m e
  generalize m.step e = m' at turn pass
  cases turn with
  | idle => exact .inl pass
  | run t c o alive h =>
    rw [System.spawn_sh, System.setThread_sh] at pass
    rcases pass_from h pass with before | cont | ⟨l, at_⟩
    · exact .inl before
    · exact .inr (.inl cont)
    · exact .inr (.inr ⟨t, c, o, l, rfl, alive, at_⟩)
  | call | ends => exact .inl pass
  | env _ _ h => exact .inl (h.passCont ▸ pass)

theorem passOff_step (pass : m.sh.passCont = true) : (m.step e).sh.passCont = true ∨
    ∃ t c o, e = .run t c o ∧ (m.thread t).alive = true ∧ (m.thread t).pc = .scanReset := by
  have turn := step_turn m e
  generalize m.step e = m' at turn ⊢
  cases turn with
  | idle => exact .inl pass
  | run t c o alive h =>
    rw [System.spawn_sh, System.setThread_sh]
    rcases passOff_from h pass with after | at_
    · exact .inl after
    · exact .inr ⟨t, c, o, rfl, alive, at_⟩
  | call | ends => exact .inl pass
  | env _ _ h => exact .inl (h.passCont.trans pass)

theorem active_step (active : m.sh.active = true) :
    (m.step e).sh.active = true ∨ e = .passEnds := by
  cases e with
  | passEnds => exact .inr rfl
  | run t c o =>
    simp only [System.step, System.runStep]
    split
    next =>
      cases h : threadStep m t c o with
      | none => exact .inl active
      | some r =>
        rw [System.spawn_sh, System.setThread_sh]
        exact .inl (active_from h active)
    next => exact .inl active
  | call t call =>
    simp only [System.step, System.callStep]
    split <;> exact .inl active
  | report r =>
    simp only [System.step, System.report]
    split_ifs
    · cases d.store (m.sh.buf.lists m.sh.buf.sb.fill) r <;> exact .inl active
    · cases d.store m.sh.scan r <;> exact .inl active
    · exact .inl active
  | inquiryComplete =>
    simp only [System.step, System.inquiryComplete]
    split_ifs <;> exact .inl active
  | _ => exact .inl active

/-- A thread gets past the check of `*_scan` there only. -/
theorem scanning_step (alive : ((m.step e).thread x).alive = true)
    (into : ((m.step e).thread x).pc.scanning = true) :
    (m.thread x).alive = true ∧ (m.thread x).pc.scanning = true ∨
      ∃ c o, e = .run x c o ∧ (m.thread x).alive = true ∧ (m.thread x).pc = .scanCheck ∧
        scanCheck m.sh = 0 := by
  rcases thread_step alive with
    ⟨here, same⟩ | ⟨c, o, v, new, run, here, h, same⟩ | out | ⟨call, out⟩
  · exact .inl ⟨here, same ▸ into⟩
  · rcases scanning_from h (same ▸ into) with at_ | ⟨at_, passes, -⟩
    · exact .inl ⟨here, by rw [at_]; rfl⟩
    · exact .inr ⟨c, o, run, here, at_, passes⟩
  · rw [out] at into
    cases into
  · rw [out] at into
    cases call <;> cases radio : d.radio <;> rw [radio] at into <;> cases into

theorem opening_step (alive : ((m.step e).thread x).alive = true)
    (into : ((m.step e).thread x).pc.opening = true) :
    (m.thread x).alive = true ∧ (m.thread x).pc.opening = true ∨
      ∃ c o l, e = .run x c o ∧ (m.thread x).alive = true ∧ (m.thread x).pc = .startCheck l ∧
        startCheck m.sh = 0 := by
  rcases thread_step alive with
    ⟨here, same⟩ | ⟨c, o, v, new, run, here, h, same⟩ | out | ⟨call, out⟩
  · exact .inl ⟨here, same ▸ into⟩
  · rcases opening_from h (same ▸ into) with before | ⟨⟨l, at_⟩, passes⟩
    · exact .inl ⟨here, before⟩
    · exact .inr ⟨c, o, l, run, here, at_, passes⟩
  · rw [out] at into
    cases into
  · rw [out] at into
    cases call <;> cases radio : d.radio <;> rw [radio] at into <;> cases into

/-- Before it starts its scan, a `*_scan` turns the callback to `g_scan`. -/
theorem radio_step (alive : ((m.step e).thread x).alive = true)
    (at_ : ((m.step e).thread x).pc = .scanRadio) :
    (m.thread x).alive = true ∧ (m.thread x).pc = .scanRadio ∨
      (m.step e).sh.passCont = false := by
  rcases thread_step alive with
    ⟨here, same⟩ | ⟨c, o, v, new, run, here, h, same⟩ | out | ⟨call, out⟩
  · exact .inl ⟨here, same.symm.trans at_⟩
  · rw [same] at at_
    rcases scanning_from h (by rw [at_]; rfl) with reset | ⟨-, -, other⟩
    · simp only [threadStep, reset, Option.some.injEq, Prod.mk.injEq] at h
      exact .inr (by rw [← h.1]; rfl)
    · rw [at_] at other
      cases other
  · rw [out] at at_
    cases at_
  · rw [out] at at_
    cases call <;> cases radio : d.radio <;> rw [radio] at at_ <;> cases at_

/-- And a `*_scan_start` to the lists. -/
theorem opened_step (alive : ((m.step e).thread x).alive = true)
    (into : ((m.step e).thread x).pc.opened = true) :
    (m.thread x).alive = true ∧ (m.thread x).pc.opened = true ∨
      (m.step e).sh.passCont = true := by
  rcases thread_step alive with
    ⟨here, same⟩ | ⟨c, o, v, new, run, here, h, same⟩ | out | ⟨call, out⟩
  · exact .inl ⟨here, same ▸ into⟩
  · rcases opened_from h (same ▸ into) with before | ⟨l, reset⟩
    · exact .inl ⟨here, before⟩
    · simp only [threadStep, reset, Option.some.injEq, Prod.mk.injEq] at h
      rw [← h.1, startReset]
      cases d.radio <;> exact .inr rfl
  · rw [out] at into
    cases into
  · rw [out] at into
    cases call <;> cases radio : d.radio <;> rw [radio] at into <;> cases into

end

/-! ### The invariant -/

namespace Scans

variable {w : Scans T} {e : Event wifi T}

structure Ok (w : Scans T) : Prop where
  session : w.sys.sh.cont = true → w.sys.sh.passCont = true ∧ w.oneShots = 0
  oneShot : 0 < w.oneShots → w.sys.sh.active = true ∧ w.sys.sh.passCont = false
  scanning : ∀ t, (w.sys.thread t).alive = true → (w.sys.thread t).pc.scanning = true →
    w.sys.sh.cont = false
  radio : ∀ t, (w.sys.thread t).alive = true → (w.sys.thread t).pc = .scanRadio →
    w.sys.sh.passCont = false
  opening : ∀ t, (w.sys.thread t).alive = true → (w.sys.thread t).pc.opening = true →
    w.oneShots = 0
  opened : ∀ t, (w.sys.thread t).alive = true → (w.sys.thread t).pc.opened = true →
    w.sys.sh.passCont = true
  apart : ∀ t u, (w.sys.thread t).alive = true → (w.sys.thread u).alive = true →
    (w.sys.thread t).pc.scanning = true → (w.sys.thread u).pc.opening = false

/-- A one-shot scan that is under way has been, or is started in this step. -/
theorem oneShot_step (under : 0 < (w.step e).oneShots) : 0 < w.oneShots ∧ e ≠ .passEnds ∨
    ∃ t c o, e = .run t c o ∧ (w.sys.thread t).alive = true ∧ (w.sys.thread t).pc = .scanRadio ∧
      o.rc = 0 := by
  cases e with
  | run t c o =>
    simp only [Scans.step] at under
    split at under
    next starts =>
      simp only [Bool.and_eq_true, decide_eq_true_eq] at starts
      exact .inr ⟨t, c, o, rfl, starts.1.1, starts.1.2, starts.2⟩
    · exact .inl ⟨under, nofun⟩
  | passEnds => exact absurd under (Nat.lt_irrefl 0)
  | _ => exact .inl ⟨under, nofun⟩

/-- While a live thread is in `wifi_scan`, nothing turns the callback to the lists. -/
theorem Ok.pass_off (ok : w.Ok) {t : T} (alive : (w.sys.thread t).alive = true)
    (scanning : (w.sys.thread t).pc.scanning = true) (off : w.sys.sh.passCont = false) :
    (w.sys.step e).sh.passCont = false := by
  by_contra on
  rw [Bool.not_eq_false] at on
  rcases passOn_step on with before | cont | ⟨u, _, _, l, _, live, at_⟩
  · rw [off] at before
    cases before
  · rw [ok.scanning t alive scanning] at cont
    cases cont
  · have never := ok.apart t u alive live scanning
    rw [at_] at never
    cases never

/-- While no live thread is in `wifi_scan`, the callback stays with the lists and no one-shot scan
is started. -/
theorem pass_on (pass : w.sys.sh.passCont = true)
    (holds : ∀ t, (w.sys.thread t).alive = true → (w.sys.thread t).pc.scanning = false) :
    (w.sys.step e).sh.passCont = true ∧ (0 < (w.step e).oneShots → 0 < w.oneShots) := by
  refine ⟨?_, fun under => ?_⟩
  · rcases passOff_step pass with after | ⟨t, _, _, _, alive, at_⟩
    · exact after
    · have never := holds t alive
      rw [at_] at never
      cases never
  · rcases oneShot_step under with ⟨before, -⟩ | ⟨t, _, _, _, alive, at_, _⟩
    · exact before
    · have never := holds t alive
      rw [at_] at never
      cases never

theorem opening_of_opened {pc : Pc} (opened : pc.opened = true) : pc.opening = true := by
  cases pc <;> first | rfl | cases opened

omit [DecidableEq T] in
/-- A check of `wifi_scan_start` passes only without a one-shot scan. -/
theorem Ok.check_free (ok : w.Ok) (passes : startCheck w.sys.sh = 0) : w.oneShots = 0 := by
  by_contra under
  obtain ⟨active, off⟩ := ok.oneShot (Nat.pos_of_ne_zero under)
  simp [startCheck, wifi, active, off, Radio.errBusy] at passes

omit [DecidableEq T] in
/-- No live thread is in `wifi_scan` in a session. -/
theorem Ok.quiet_session (ok : w.Ok) (cont : w.sys.sh.cont = true) {t : T}
    (alive : (w.sys.thread t).alive = true) : (w.sys.thread t).pc.scanning = false := by
  by_contra scanning
  rw [ok.scanning t alive (by simpa using scanning)] at cont
  cases cont

omit [DecidableEq T] in
/-- Nor while another one is in `wifi_scan_start`. -/
theorem Ok.quiet_opening (ok : w.Ok) {t u : T} (alive : (w.sys.thread t).alive = true)
    (opening : (w.sys.thread t).pc.opening = true) (live : (w.sys.thread u).alive = true) :
    (w.sys.thread u).pc.scanning = false := by
  by_contra scanning
  rw [ok.apart u t live alive (by simpa using scanning)] at opening
  cases opening

theorem Ok.step (ok : w.Ok) (now : w.OneAtATime e) : (w.step e).Ok where
  session cont := by
    rcases cont_step cont with before | ⟨t, c, o, l, rfl, alive, at_⟩
    · obtain ⟨pass, free⟩ := ok.session before
      obtain ⟨stays, same⟩ := pass_on (e := e) pass fun t alive => ok.quiet_session before alive
      exact ⟨stays, by omega⟩
    · -- armed by `t`, which has turned the callback before
      have opening : (w.sys.thread t).pc.opening = true := by rw [at_]; rfl
      have free := ok.opening t alive opening
      obtain ⟨stays, same⟩ := pass_on (e := .run t c o) (ok.opened t alive (by rw [at_]; rfl))
        fun u live => ok.quiet_opening alive opening live
      exact ⟨stays, by omega⟩
  oneShot under := by
    rcases oneShot_step under with ⟨before, goes⟩ | ⟨t, c, o, rfl, alive, at_, accepted⟩
    · obtain ⟨active, off⟩ := ok.oneShot before
      refine ⟨(active_step active).resolve_right goes, ?_⟩
      -- the callback is turned back by a session or a `wifi_scan_start` only
      by_contra on
      rw [Bool.not_eq_false] at on
      rcases passOn_step on with pass | cont | ⟨u, _, _, l, _, live, at_⟩
      · rw [off] at pass
        cases pass
      · have := (ok.session cont).2
        omega
      · have := ok.opening u live (by rw [at_]; rfl)
        omega
    · -- started by `t` just now
      refine ⟨?_, ok.pass_off alive (by rw [at_]; rfl) (ok.radio t alive at_)⟩
      simp [Scans.step, System.step, System.runStep, alive, threadStep, at_, scanRadio, wifi,
        accepted, System.spawn]
  scanning t alive into := by
    by_contra cont
    rw [Bool.not_eq_false] at cont
    rcases scanning_step alive into with ⟨live, scanning⟩ | ⟨c, o, rfl, live, at_, passes⟩
    · -- `t` was past its check, so that no session was on and none is armed
      rcases cont_step cont with before | ⟨u, _, _, l, _, armed, at_⟩
      · rw [ok.quiet_session before live] at scanning
        cases scanning
      · rw [ok.quiet_opening armed (by rw [at_]; rfl) live] at scanning
        cases scanning
    · -- the check itself refuses in a session
      rcases cont_step cont with before | ⟨_, _, _, l, same, _, arms⟩
      · simp [scanCheck, wifi, before, Radio.errBusy] at passes
      · cases same
        rw [at_] at arms
        cases arms
  radio t alive at_ := by
    rcases radio_step alive at_ with ⟨live, before⟩ | off
    · exact ok.pass_off live (by rw [before]; rfl) (ok.radio t live before)
    · exact off
  opening t alive into := by
    by_contra under
    rcases oneShot_step (Nat.pos_of_ne_zero under) with ⟨before, -⟩ | ⟨u, c, o, rfl, live, at_, -⟩
    · rcases opening_step alive into with ⟨live, opening⟩ | ⟨_, _, _, _, _, _, passes⟩
      · have := ok.opening t live opening
        omega
      · have := ok.check_free passes
        omega
    · -- `u` has started a scan, so that `t` was not in `wifi_scan_start` and did not get into it
      rcases opening_step alive into with ⟨here, opening⟩ | ⟨_, _, _, same, _, check, _⟩
      · have never := ok.quiet_opening here opening live
        rw [at_] at never
        cases never
      · cases same
        rw [at_] at check
        cases check
  opened t alive into := by
    rcases opened_step alive into with ⟨live, opened⟩ | on
    · rcases passOff_step (ok.opened t live opened) with on | ⟨u, _, _, _, here, at_⟩
      · exact on
      · have never := ok.quiet_opening live (opening_of_opened opened) here
        rw [at_] at never
        cases never
    · exact on
  apart t u alive alive' scanning := by
    by_contra opening
    rw [Bool.not_eq_false] at opening
    -- at most one of the two gets past its check in this step, and the condition looks at the other
    rcases scanning_step alive scanning with ⟨live, before⟩ | ⟨c, o, rfl, live, at_, passes⟩ <;>
      rcases opening_step alive' opening with
        ⟨live', before'⟩ | ⟨c', o', l, run, live', at', passes'⟩
    · rw [ok.apart t u live live' before] at before'
      cases before'
    · subst run
      rw [(now live').2 l at' passes' t live] at before
      cases before
    · rw [(now live).1 at_ passes u live'] at before'
      cases before'
    · cases run
      rw [at_] at at'
      cases at'

/-- The callback writes the list of the kind of scan that runs. -/
theorem Ok.separate (ok : w.Ok) : w.Separate e where
  scan r report cont := by
    subst report
    simp only [Scans.step, System.step, System.report, (ok.session cont).1, if_true]
    split
    · cases wifi.store (w.sys.sh.buf.lists w.sys.sh.buf.sb.fill) r <;> rfl
    · rfl
  lists r report under := by
    subst report
    simp only [Scans.step, System.step, System.report, (ok.oneShot under).2, Bool.false_eq_true,
      if_false]
    split
    · cases wifi.store w.sys.sh.scan r <;> rfl
    · rfl

omit [DecidableEq T] in
theorem Ok.no_overlap (ok : w.Ok) : ¬ w.Overlap := by
  rintro ⟨under, cont⟩
  have none := (ok.session cont).2
  omega

omit [DecidableEq T] in
theorem ok_start {m : System wifi T} (initial : Initial m) : (start m).Ok where
  session cont := by simp [start, initial.cont] at cont
  oneShot under := absurd under (Nat.lt_irrefl 0)
  scanning t _ at_ := by simp [start, (initial.threads t).1, Pc.scanning] at at_
  radio t _ at_ := by simp [start, (initial.threads t).1] at at_
  opening t _ at_ := by simp [start, (initial.threads t).1, Pc.opening] at at_
  opened t _ at_ := by simp [start, (initial.threads t).1, Pc.opened] at at_
  apart t _ _ _ at_ := by simp [start, (initial.threads t).1, Pc.scanning] at at_

/-! ### One scan after the other -/

/-- At most one one-shot scan, and none while a thread is about to start one. -/
structure Alone (w : Scans T) : Prop where
  atMost : w.oneShots ≤ 1
  scanning : ∀ t, (w.sys.thread t).alive = true → (w.sys.thread t).pc.scanning = true →
    w.oneShots = 0
  unique : ∀ t u, (w.sys.thread t).alive = true → (w.sys.thread u).alive = true →
    (w.sys.thread t).pc.scanning = true → (w.sys.thread u).pc.scanning = true → t = u

/-- A scan more is one that a thread has just started, and this thread is past the start then. -/
theorem oneShots_step (w : Scans T) (e : Event wifi T) : (w.step e).oneShots ≤ w.oneShots ∨
    ∃ t, (w.sys.thread t).alive = true ∧ (w.sys.thread t).pc.scanning = true ∧
      (w.step e).oneShots = w.oneShots + 1 ∧
      (((w.step e).sys.thread t).alive = true → ((w.step e).sys.thread t).pc.scanning = false) := by
  cases e with
  | run t c o =>
    simp only [Scans.step]
    split
    next starts =>
      simp only [Bool.and_eq_true, decide_eq_true_eq] at starts
      obtain ⟨⟨alive, at_⟩, -⟩ := starts
      refine .inr ⟨t, alive, by rw [at_]; rfl, rfl, fun _ => ?_⟩
      simp [System.step, System.runStep, alive, threadStep, at_, System.spawn, Thread.goto,
        System.setThread, Pc.scanning]
    · exact .inl (Nat.le_refl _)
  | passEnds => exact .inl (Nat.zero_le _)
  | _ => exact .inl (Nat.le_refl _)

omit [DecidableEq T] in
/-- A check of `wifi_scan` passes only without a one-shot scan. -/
theorem Ok.scan_free (ok : w.Ok) (passes : scanCheck w.sys.sh = 0) : w.oneShots = 0 := by
  by_contra under
  have active := (ok.oneShot (Nat.pos_of_ne_zero under)).1
  simp [scanCheck, wifi, active, Radio.errBusy] at passes

theorem Alone.step (ok : w.Ok) (alone : w.Alone) (now : w.OneScan e) : (w.step e).Alone where
  atMost := by
    rcases oneShots_step w e with fewer | ⟨t, alive, scanning, more, -⟩
    · exact fewer.trans alone.atMost
    · have none := alone.scanning t alive scanning
      omega
  scanning t alive into := by
    have none : w.oneShots = 0 := by
      rcases scanning_step alive into with ⟨live, before⟩ | ⟨_, _, _, _, _, passes⟩
      · exact alone.scanning t live before
      · exact ok.scan_free passes
    rcases oneShots_step w e with fewer | ⟨u, live, at_, -, gone⟩
    · omega
    · -- the thread that starts the scan would be `t` itself
      rcases scanning_step alive into with ⟨here, before⟩ | ⟨_, _, rfl, here, check, passes⟩
      · cases alone.unique u t live here at_ before
        rw [gone alive] at into
        cases into
      · have never := now here check passes u live
        rw [at_] at never
        cases never
  unique t u alive alive' scanning scanning' := by
    rcases scanning_step alive scanning with ⟨live, before⟩ | ⟨c, o, rfl, live, at_, passes⟩ <;>
      rcases scanning_step alive' scanning' with
        ⟨live', before'⟩ | ⟨c', o', run, live', at', passes'⟩
    · exact alone.unique t u live live' before before'
    · subst run
      rw [now live' at' passes' t live] at before
      cases before
    · rw [now live at_ passes u live'] at before'
      cases before'
    · cases run
      rfl

omit [DecidableEq T] in
theorem alone_start {m : System wifi T} (initial : Initial m) : (start m).Alone where
  atMost := Nat.zero_le _
  scanning _ _ _ := rfl
  unique t _ _ _ at_ := by simp [start, (initial.threads t).1, Pc.scanning] at at_

end Scans

/-- In every run in which no check passes while another thread is between its own check and its
start, no one-shot scan runs in a session, and the callback never writes the list of the other kind
of scan. -/
theorem scans_exclude_each_other {m : System wifi T} (initial : Initial m)
    (es : List (Event wifi T))
    (oneAtATime : Run.Along Scans.step Scans.OneAtATime (Scans.start m) es) :
    Run.Along Scans.step Scans.Separate (Scans.start m) es ∧
      ∀ pre, pre <+: es → ¬ (Run.exec Scans.step (Scans.start m) pre).Overlap := by
  refine ⟨Run.Along.gives (fun _ _ ok now => Scans.Ok.step ok now)
    (fun _ _ ok _ => Scans.Ok.separate ok) (Scans.ok_start initial) oneAtATime, ?_⟩
  rintro pre ⟨rest, rfl⟩
  have before := ((Run.along_append _ _ _).mp oneAtATime).1
  exact (before.invariant (fun _ _ ok now => Scans.Ok.step ok now)
    (Scans.ok_start initial)).no_overlap

/-- And where a `wifi_scan` does not pass its check while another one is between its check and its
start either, there is at most one one-shot scan at any time, and none in a session. -/
theorem one_scan_at_a_time {m : System wifi T} (initial : Initial m) (es : List (Event wifi T))
    (oneAtATime : Run.Along Scans.step (fun w e => w.OneAtATime e ∧ w.OneScan e) (Scans.start m) es) :
    ∀ pre, pre <+: es →
      let w := Run.exec Scans.step (Scans.start m) pre
      w.oneShots ≤ 1 ∧ (w.sys.sh.cont = true → w.oneShots = 0) := by
  rintro pre ⟨rest, rfl⟩
  have before := ((Run.along_append _ _ _).mp oneAtATime).1
  have kept := before.invariant (I := fun w => w.Ok ∧ w.Alone)
    (fun _ _ both now => ⟨both.1.step now.1, both.2.step both.1 now.2⟩)
    ⟨Scans.ok_start initial, Scans.alone_start initial⟩
  exact ⟨kept.2.atMost, fun cont => (kept.1.session cont).2⟩

instance decidableChecks [Fintype T] (w : Scans T) (t : T) :
    Decidable ((w.sys.thread t).alive = true →
      ((w.sys.thread t).pc = .scanCheck → scanCheck w.sys.sh = 0 →
        ∀ u, (w.sys.thread u).alive = true → (w.sys.thread u).pc.opening = false) ∧
      ∀ l, (w.sys.thread t).pc = .startCheck l → startCheck w.sys.sh = 0 →
        ∀ u, (w.sys.thread u).alive = true → (w.sys.thread u).pc.scanning = false) := inferInstance

instance decidableOneAtATime [Fintype T] (w : Scans T) : ∀ e, Decidable (w.OneAtATime e)
  | .run t _ _ => decidableChecks w t
  | .call _ _ | .report _ | .passEnds | .inquiryComplete | .hciWorking | .elapse _ | .ends _
  | .procStarts _ | .procEnds _ => isTrue trivial

instance decidableScanCheck [Fintype T] (w : Scans T) (t : T) :
    Decidable ((w.sys.thread t).alive = true → (w.sys.thread t).pc = .scanCheck →
      scanCheck w.sys.sh = 0 →
        ∀ u, (w.sys.thread u).alive = true → (w.sys.thread u).pc.scanning = false) := inferInstance

instance decidableOneScan [Fintype T] (w : Scans T) : ∀ e, Decidable (w.OneScan e)
  | .run t _ _ => decidableScanCheck w t
  | .call _ _ | .report _ | .passEnds | .inquiryComplete | .hciWorking | .elapse _ | .ends _
  | .procStarts _ | .procEnds _ => isTrue trivial

/-- Thread 1 starts a session while a one-shot scan of thread 0 runs, and again after the poll that
finds the scan over. -/
def startTwice : List (Event wifi (Fin 2)) :=
  .call 0 .scan :: goes 0 5 ++ .call 1 (.start false) :: goes 1 6 ++ .passEnds :: .call 0 .poll ::
    goes 0 4 ++ .call 1 (.start false) :: goes 1 12

theorem session_waits_for_scan :
    Run.Along Scans.step Scans.Separate (Scans.start (afterInit wifi .zero fun _ => 7)) startTwice ∧
      ∀ pre, pre <+: startTwice →
        ¬ (Run.exec Scans.step (Scans.start (afterInit wifi .zero fun _ => 7)) pre).Overlap :=
  scans_exclude_each_other (afterInit_initial _ _ _) _ (by decide +kernel)

/-- Thread 1 calls `wifi_scan` during a scan of thread 0 and after it. -/
def scanTwice : List (Event wifi (Fin 2)) :=
  .call 0 .scan :: goes 0 5 ++ .call 1 .scan :: goes 1 3 ++ .passEnds :: .call 1 .scan :: goes 1 5

theorem second_scan_refused :
    let w := Run.exec Scans.step (Scans.start (afterInit wifi .zero fun _ => 7)) scanTwice
    w.oneShots ≤ 1 ∧ (w.sys.sh.cont = true → w.oneShots = 0) :=
  one_scan_at_a_time (afterInit_initial _ _ _) scanTwice (by decide +kernel) scanTwice
    (List.prefix_refl _)

/-- Without the condition they overlap: a `wifi_scan` passes its check, a second thread of the same
core starts a session whose first pass ends, and the scan goes on. Both calls return 0. -/
theorem scan_starts_in_session :
    let w := Run.exec Scans.step (Scans.start (afterInit wifi .zero fun _ : Fin 2 => 7))
      (.call 0 .scan :: goes 0 2 ++ .call 1 (.start false) :: goes 1 12 ++ .passEnds :: goes 0 3)
    w.Overlap ∧ ∀ t, (w.sys.thread t).pc = .user ∧ (w.sys.thread t).ret = 0 := by
  refine ⟨⟨by decide +kernel, by decide +kernel⟩, by decide +kernel⟩

end PicoOS.Scan
