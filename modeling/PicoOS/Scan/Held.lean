import PicoOS.Scan.Steps
import PicoOS.Scan.Wifi

/-!
# Who writes a list that a subscriber holds

The callback writes `fill`, a publish writes `fill` and `ready`, and a start
resets all three lists, whoever holds one. A list stays private as long as no
start gets that far while a list is held, and as long as it is still `held`
when a window is published: a second thread that waits rotates it away.
-/
namespace PicoOS.Scan

variable {d : Driver} {T : Type} [DecidableEq T]

/-- The lists that a step writes. -/
def written (m : System d T) (e : Event d T) (i : UInt8) : Bool :=
  match e with
  | .run t _ _ =>
    (m.thread t).alive &&
      match (m.thread t).pc with
      | .startReset _ => i < 3
      | .pollPublish now _ ended =>
        publishes m.sh now ended && (i = m.sh.buf.sb.fill || i = m.sh.buf.sb.ready)
      | _ => false
  | .report r =>
    m.sh.async.isNone && m.sh.passCont && (d.store (m.sh.buf.lists m.sh.buf.sb.fill) r).isSome &&
      i = m.sh.buf.sb.fill
  | _ => false

/-- No list that a thread holds is written. -/
def Untouched (m : System d T) (e : Event d T) : Prop :=
  ∀ t i, (m.thread t).list = some i → written m e i = false

/-- A start resets the lists only when nobody holds one, and a window is published only when the
lists still held have the role `held`. -/
def KeepsHeld (m : System d T) : Event d T → Prop
  | .run t _ _ =>
    (m.thread t).alive = true →
      match (m.thread t).pc with
      | .startReset _ => ∀ u, (m.thread u).list = none
      | .pollPublish now _ ended =>
        publishes m.sh now ended = true →
          ∀ u i, (m.thread u).list = some i → i = m.sh.buf.sb.held
      | _ => True
  | _ => True

/-! ### What is not written stays -/

theorem Buffers.publish_lists {α : Type} (b : Buffers α) (ms : UInt32) {i : UInt8}
    (fill : i ≠ b.sb.fill) (ready : i ≠ b.sb.ready) : (b.publish ms).lists i = b.lists i := by
  simp [publish, setList, scanbufPublish, Function.update_of_ne, fill, ready]

/-- A step of a thread leaves the lists that it does not write as they were. -/
theorem threadStep_lists {m : System d T} {t : T} {c : Core} {o : Outcome T} {s' : Shared d T}
    {v' : Thread} {new : Option T} (alive : (m.thread t).alive = true)
    (h : threadStep m t c o = some (s', v', new)) {i : UInt8}
    (clean : written m (.run t c o) i = false) : s'.buf.lists i = m.sh.buf.lists i := by
  have buf := (threadStep_frame h).2.buf
  simp only [written, alive, Bool.true_and] at clean
  cases at_ : (m.thread t).pc <;> rw [at_] at clean buf
  case startReset =>
    rw [buf]
    show m.sh.buf.start.lists i = m.sh.buf.lists i
    simpa [Buffers.start] using fun small => absurd small (by simpa using clean)
  case waitTake =>
    cases cont : m.sh.cont with
    | true => rw [buf, effect_takes cont, Buffers.take]
    | false => rw [buf, effect_ended cont]
  case pollPublish now active ended =>
    by_cases due : publishes m.sh now ended = true
    · simp only [due, Bool.true_and, Bool.or_eq_false_iff, decide_eq_false_iff_not] at clean
      rw [buf, effect_publishes due]
      exact Buffers.publish_lists m.sh.buf _ clean.1 clean.2
    · rw [buf, effect_passes due]
  all_goals exact congrFun (congrArg Buffers.lists buf) i

theorem unwritten_unchanged {m : System d T} {e : Event d T} {i : UInt8}
    (clean : written m e i = false) : (m.step e).sh.buf.lists i = m.sh.buf.lists i := by
  cases e with
  | run t c o =>
    simp only [System.step, System.runStep]
    split
    next alive =>
      split
      next => rfl
      next s v new h => rw [System.spawn_sh]; exact threadStep_lists alive h clean
    next => rfl
  | report r =>
    simp only [System.step, System.report]
    split_ifs with idle cont
    · -- what the report is stored in is another buffer, the one being filled
      cases w : d.store (m.sh.buf.lists m.sh.buf.sb.fill) r with
      | none => rfl
      | some w' =>
        have other : i ≠ m.sh.buf.sb.fill := by simpa [written, idle, cont, w] using clean
        simp [Buffers.write, Buffers.setList, other]
    · cases d.store m.sh.scan r <;> rfl
    · rfl
  | call t call =>
    simp only [System.step, System.callStep]
    split <;> rfl
  | inquiryComplete =>
    simp only [System.step, System.inquiryComplete]
    split
    next => split <;> rfl
    next => rfl
  | passEnds | hciWorking | elapse | ends | procStarts | procEnds => rfl

/-- While a thread holds a list and no step touches it, its contents stay. -/
theorem untouched_contents {m : System d T} {es : List (Event d T)}
    (clean : Run.Along System.step Untouched m es) {t : T} {i : UInt8}
    (held : ∀ pre, pre <+: es → ((Run.exec System.step m pre).thread t).list = some i) :
    (Run.exec System.step m es).sh.buf.lists i = m.sh.buf.lists i := by
  induction es generalizing m with
  | nil => rfl
  | cons e es ih =>
    have now : (m.thread t).list = some i := held [] List.nil_prefix
    have later := ih clean.2 fun pre h => held (e :: pre) (List.cons_prefix_cons.mpr ⟨rfl, h⟩)
    rw [Run.exec_cons, later, unwritten_unchanged (clean.1 t i now)]

/-! ### The invariant -/

/-- In `*_scan_start` after the reset, the session not yet running. -/
def Pc.reset : Pc → Bool
  | .startDwell _ | .startRadio _ | .startArm _ => true
  | _ => false

/-- What holds of the shared state and of each thread. -/
structure Kept (s : Shared d T) (t : T) (v : Thread) : Prop where
  lock : v.pc.locked = true → s.lock = some t
  reset : v.pc.reset = true → s.buf.sb.Distinct
  runs : s.cont = true ∨ s.passCont = true → s.buf.sb.Distinct
  takes : ∀ held, v.pc = .waitUnlock true true held → s.buf.sb.Distinct ∧ held = s.buf.sb.held
  list : ∀ i, v.list = some i → s.buf.sb.Distinct ∧ i < 3 ∧ i ≠ s.buf.sb.fill

section
variable {m : System d T} {t : T} {c : Core} {o : Outcome T} {s' : Shared d T} {v' : Thread}
  {new : Option T}

theorem reset_from (h : threadStep m t c o = some (s', v', new)) (into : v'.pc.reset = true) :
    (m.thread t).pc.reset = true ∨ ∃ l, (m.thread t).pc = .startReset l := by
  cases at_ : (m.thread t).pc <;> simp only [threadStep, at_] at h <;>
    grind [Option.map_eq_some_iff, Thread.goto, Thread.return, Pc.reset, StopCaller.resume,
      cases StopCaller]

/-- The roles stay apart. -/
theorem distinct_step (h : threadStep m t c o = some (s', v', new))
    (apart : m.sh.buf.sb.Distinct) : s'.buf.sb.Distinct := by
  rcases threadStep_sb h with same | ⟨_, _, init⟩ | ⟨_, _, took⟩ | ⟨_, _, _, _, _, published⟩
  · rw [same]; exact apart
  · rw [init]; exact .init
  · rw [took]; exact apart.take
  · rw [published]; exact apart.publish

/-- A session, and passes that fill its lists, start over roles that are apart. -/
theorem runs_from (h : threadStep m t c o = some (s', v', new))
    (runs : s'.cont = true ∨ s'.passCont = true) :
    m.sh.cont = true ∨ m.sh.passCont = true ∨ (m.thread t).pc.reset = true ∨
      ∃ l, (m.thread t).pc = .startReset l := by
  rcases runs with cont | pass
  · rcases cont_from h cont with cont | ⟨l, at_⟩
    · exact .inl cont
    · exact .inr (.inr (.inl (by rw [at_]; rfl)))
  · rcases pass_from h pass with pass | cont | reset
    · exact .inr (.inl pass)
    · exact .inl cont
    · exact .inr (.inr (.inr reset))

/-- A wait that returns a list has taken it, and holds the mutex since. -/
theorem takes_from (h : threadStep m t c o = some (s', v', new)) {held : UInt8}
    (into : v'.pc = .waitUnlock true true held) :
    (m.thread t).pc = .waitTake ∧ m.sh.cont = true ∧ held = s'.buf.sb.held := by
  cases at_ : (m.thread t).pc <;> simp only [threadStep, at_] at h <;>
    grind [Option.map_eq_some_iff, Thread.goto, Thread.return, StopCaller.resume, cases StopCaller]

theorem distinct_reset (h : threadStep m t c o = some (s', v', new)) {l : Bool}
    (at_ : (m.thread t).pc = .startReset l) : s'.buf.sb.Distinct := by
  have buf := (threadStep_frame h).2.buf
  rw [at_] at buf
  rw [buf]
  exact .init

/-- What is known of a list that a thread holds stays true where the step meets the condition. -/
theorem list_kept (meets : KeepsHeld m (.run t c o)) (alive : (m.thread t).alive = true)
    (h : threadStep m t c o = some (s', v', new)) {u : T} {i : UInt8}
    (has : (m.thread u).list = some i)
    (old : m.sh.buf.sb.Distinct ∧ i < 3 ∧ i ≠ m.sh.buf.sb.fill) :
    s'.buf.sb.Distinct ∧ i < 3 ∧ i ≠ s'.buf.sb.fill := by
  refine ⟨distinct_step h old.1, old.2.1, ?_⟩
  have meets := meets alive
  rcases threadStep_sb h with same | ⟨l, at_, _⟩ | ⟨_, _, took⟩ | ⟨now, _, _, at_, due, published⟩
  · rw [same]; exact old.2.2
  · rw [at_] at meets
    have none := meets u
    rw [has] at none
    cases none
  · rw [took]
    unfold scanbufTake
    split <;> exact old.2.2
  · rw [at_] at meets
    have held : i = m.sh.buf.sb.held := meets due u i has
    rw [published, held]
    exact old.1.readyHeld.symm

theorem kept_own (meets : KeepsHeld m (.run t c o)) (alive : (m.thread t).alive = true)
    (h : threadStep m t c o = some (s', v', new)) (kept : Kept m.sh t (m.thread t)) :
    Kept s' t v' where
  lock := lock_own h kept.lock
  reset into := by
    rcases reset_from h into with before | ⟨l, at_⟩
    · exact distinct_step h (kept.reset before)
    · exact distinct_reset h at_
  runs runs := by
    rcases runs_from h runs with cont | pass | reset | ⟨l, at_⟩
    · exact distinct_step h (kept.runs (.inl cont))
    · exact distinct_step h (kept.runs (.inr pass))
    · exact distinct_step h (kept.reset reset)
    · exact distinct_reset h at_
  takes held into := by
    obtain ⟨_, cont, same⟩ := takes_from h into
    exact ⟨distinct_step h (kept.runs (.inl cont)), same⟩
  list i has := by
    rcases (threadStep_thread h).2 with same | ⟨held, at_, got⟩
    · exact list_kept meets alive h (same ▸ has) (kept.list i (same ▸ has))
    · -- The wait returns: the list has the role `held`.
      obtain ⟨apart, now⟩ := kept.takes held at_
      obtain rfl : held = i := Option.some.inj (got.symm.trans has)
      have buf := (threadStep_frame h).2.buf
      rw [at_] at buf
      have same : s'.buf.sb = m.sh.buf.sb := congrArg Buffers.sb buf
      rw [same, now]
      exact ⟨apart, apart.bounds.2.2, apart.fillHeld.symm⟩

/-- Another thread sees no change of the roles while it holds the mutex. -/
theorem kept_other (meets : KeepsHeld m (.run t c o)) (alive : (m.thread t).alive = true)
    (h : threadStep m t c o = some (s', v', new)) {x : T} (other : x ≠ t)
    (kept : Kept m.sh t (m.thread t)) (keptx : Kept m.sh x (m.thread x)) :
    Kept s' x (m.thread x) where
  lock inside := lock_other h kept.lock other (keptx.lock inside)
  reset inside := distinct_step h (keptx.reset inside)
  runs runs := by
    rcases runs_from h runs with cont | pass | reset | ⟨l, at_⟩
    · exact distinct_step h (kept.runs (.inl cont))
    · exact distinct_step h (kept.runs (.inr pass))
    · exact distinct_step h (kept.reset reset)
    · exact distinct_reset h at_
  takes held at_ := by
    obtain ⟨apart, same⟩ := keptx.takes held at_
    have mine : m.sh.lock = some x := keptx.lock (by rw [at_]; rfl)
    have outside : (m.thread t).pc.locked = false := by
      by_contra inside
      have his := kept.lock (by simpa using inside)
      exact other (Option.some.inj (mine.symm.trans his))
    rw [sb_locked h outside]
    exact ⟨apart, same⟩
  list i has := list_kept meets alive h has (keptx.list i has)

omit [DecidableEq T] in
theorem Kept.env {s s' : Shared d T} {v : Thread} (kept : Kept s t v) (env : Env s s') :
    Kept s' t v where
  lock inside := env.lock.trans (kept.lock inside)
  reset inside := env.sb ▸ kept.reset inside
  runs runs := by
    rw [env.cont, env.passCont] at runs
    exact env.sb ▸ kept.runs runs
  takes held at_ := env.sb ▸ kept.takes held at_
  list i has := env.sb ▸ kept.list i has

omit [DecidableEq T] in
/-- Outside the mutex only the list matters. -/
theorem Kept.outside {s : Shared d T} {v w : Thread} (kept : Kept s t v)
    (out : w.pc.locked = false) (list : ∀ i, w.list = some i → v.list = some i) : Kept s t w where
  lock inside := by rw [out] at inside; cases inside
  reset inside := by
    cases at_ : w.pc <;> rw [at_] at out inside <;> cases inside <;> cases out
  runs := kept.runs
  takes held at_ := by rw [at_] at out; cases out
  list i has := kept.list i (list i has)

/-- One step of the system. -/
theorem kept_step {e : Event d T} (meets : KeepsHeld m e) (kept : ∀ t, Kept m.sh t (m.thread t)) :
    ∀ t, Kept (m.step e).sh t ((m.step e).thread t) := by
  refine Carries.step (J := Kept) ?_ kept
  constructor
  case own =>
    rintro t c o s' v' new rfl alive h now
    exact kept_own meets alive h now
  case other =>
    rintro t c o s' v' new x ne rfl alive h now nowx
    exact kept_other meets alive h ne now nowx
  case born =>
    rintro t c o s' v' u rfl alive h now nowu
    obtain ⟨other, _⟩ := threadStep_new h
    exact (kept_other meets alive h other now nowu).outside rfl nofun
  case call =>
    rintro t call rfl out now
    refine now.outside (call.entry_unlocked _) fun i has => ?_
    split at has
    next => cases has
    next => exact has
  case ends =>
    rintro t - now
    exact { now with list := nofun }
  case env => exact fun s x _ env now => now.env env
  case idle => exact fun x _ now => now

omit [DecidableEq T] in
theorem Kept.initial (start : Initial m) (t : T) : Kept m.sh t (m.thread t) := by
  obtain ⟨out, list, _⟩ := start.threads t
  constructor
  case lock => rw [out]; nofun
  case reset => rw [out]; nofun
  case runs => rw [start.cont, start.passCont]; simp
  case takes => rw [out]; nofun
  case list => rw [list]; nofun

omit [DecidableEq T] in
/-- A list is held by none of the two written roles, or it is `held`. -/
theorem third_role {b : Scanbuf} (apart : b.Distinct) {i : UInt8} (bound : i < 3) :
    (i ≠ b.fill ∧ i ≠ b.ready) ↔ i = b.held := by
  obtain ⟨fillReady, readyHeld, fillHeld, fill, ready, held⟩ := apart
  simp only [UInt8.lt_iff_toNat_lt, ne_eq, ← UInt8.toNat_inj, UInt8.reduceToNat] at *
  omega

omit [DecidableEq T] in
/-- At one step: the lists held are those that the step must leave, so it meets the condition
exactly if it touches none. -/
theorem untouched_iff (kept : ∀ t, Kept m.sh t (m.thread t)) (e : Event d T) :
    Untouched m e ↔ KeepsHeld m e := by
  cases e with
  | run t c o =>
    cases alive : (m.thread t).alive with
    | false => simp [Untouched, KeepsHeld, written, alive]
    | true =>
      simp only [Untouched, KeepsHeld, written, alive, Bool.true_and, forall_true_left]
      split
      next =>
        simp only [decide_eq_false_iff_not]
        constructor
        · intro clean u
          cases has : (m.thread u).list with
          | none => rfl
          | some i => exact absurd ((kept u).list i has).2.1 (clean u i has)
        · intro none u i has
          rw [none u] at has
          cases has
      next now _ ended _ =>
        cases publishes m.sh now ended with
        | false => simp
        | true =>
          simp only [Bool.true_and, Bool.or_eq_false_iff, decide_eq_false_iff_not, forall_true_left]
          refine forall₃_congr fun u i has => ?_
          obtain ⟨apart, bound, _⟩ := (kept u).list i has
          exact third_role apart bound
      next => simp
  | report r =>
    -- The callback writes `fill`, and no held list has that role.
    refine iff_of_true (fun u i has => ?_) trivial
    simp [written, ((kept u).list i has).2.2]
  | call | passEnds | inquiryComplete | hciWorking | elapse | ends | procStarts | procEnds =>
    exact iff_of_true (fun _ _ _ => rfl) trivial

end

/-- Held lists are private: over every run, no step writes a list that a thread holds if and only
if each start and each publish of the run meets the condition. -/
theorem held_list_private (m : System d T) (start : Initial m) (es : List (Event d T)) :
    Run.Along System.step Untouched m es ↔ Run.Along System.step KeepsHeld m es :=
  Run.along_congr (I := fun m => ∀ t, Kept m.sh t (m.thread t))
    (fun _ _ kept meets => kept_step meets kept) (fun _ e kept => untouched_iff kept e)
    (Kept.initial start) es

/-! ### A start over a held list -/

/-- Thread 0 subscribes and gets a window with one network in it, published by thread 2. -/
def subscribe (r : BssInfo) : List (Event wifi (Fin 3)) :=
  .call 0 (.start false) :: goes 0 12 ++
    .report r :: .passEnds :: .call 2 .poll :: goes 2 14 ++
    .call 0 .wait :: goes 0 5

instance decidableKeepsHeld [Fintype T] (m : System d T) : ∀ e, Decidable (KeepsHeld m e)
  | .run t _ _ =>
    have here (pc : Pc) : Decidable (match pc with
        | .startReset _ => ∀ u, (m.thread u).list = none
        | .pollPublish now _ ended =>
          publishes m.sh now ended = true →
            ∀ u i, (m.thread u).list = some i → i = m.sh.buf.sb.held
        | _ => True) := by
      cases pc with
      | startReset _ => exact inferInstanceAs (Decidable (∀ u, (m.thread u).list = none))
      | pollPublish now _ ended =>
        exact inferInstanceAs (Decidable (publishes m.sh now ended = true →
          ∀ u, ∀ i ∈ (m.thread u).list, i = m.sh.buf.sb.held))
      | _ => exact isTrue trivial
    inferInstanceAs (Decidable ((m.thread t).alive = true → _))
  | .call _ _ | .report _ | .passEnds | .inquiryComplete | .hciWorking | .elapse _ | .ends _
  | .procStarts _ | .procEnds _ => isTrue trivial

/-- Thread 1 stops the session and starts the next, up to the reset. -/
def restart : List (Event wifi (Fin 3)) :=
  .call 1 .stop :: goes 1 7 ++ .call 1 (.start false) :: goes 1 5

/-- An access point. -/
def accessPoint : BssInfo :=
  ⟨0, fun _ => 1, 100, 0, 0, fun _ => 0, 0, fun _ => 0, 6, 0, -40, 0, 0, 0, 0⟩

/-- A second window is published while thread 0 reads its list, which nobody writes. -/
theorem subscriber_list_private :
    Run.Along System.step Untouched (afterInit wifi .zero fun _ : Fin 3 => 7)
      (subscribe accessPoint ++ .report accessPoint :: .passEnds :: .call 2 .poll :: goes 2 14) :=
  (held_list_private _ (afterInit_initial _ _ _) _).mpr (by decide +kernel)

/-- The start of thread 1 empties the list that thread 0 is reading. -/
theorem start_resets_held_list :
    Initial (afterInit wifi .zero (fun _ : Fin 3 => 7)) ∧
      (let m := Run.exec System.step (afterInit wifi .zero fun _ => 7)
        (subscribe accessPoint ++ restart)
      let m' := Run.exec System.step m (goes 1 1)
      (m.thread 0).list = some 0 ∧ (m.sh.buf.lists 0).count = 1 ∧
        (m'.thread 0).list = some 0 ∧ (m'.sh.buf.lists 0).count = 0) ∧
      ¬ Run.Along System.step Untouched (afterInit wifi .zero fun _ => 7)
        (subscribe accessPoint ++ restart ++ goes 1 1) := by
  refine ⟨afterInit_initial _ _ _, by decide +kernel, fun untouched => ?_⟩
  have last := ((Run.along_append _ _ _).mp untouched).2.1 0 0 (by decide +kernel)
  exact absurd last (by decide +kernel)

end PicoOS.Scan
