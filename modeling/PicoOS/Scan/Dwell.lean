import PicoOS.Scan.Stopped

/-!
# The firmware's dwell times

`dwell_fast` saves the firmware's dwell times before it changes them, and
`dwell_restore` puts them back on each way out of a session. It does not look
whether the firmware took them, so they are back as long as it does.
-/
namespace PicoOS.Scan

/-! ### Saving and restoring -/

/-- Each value is saved or still there. -/
def Saved (orig : UInt32 → UInt32) (gs : List Dwell) (fw : Firmware) : Prop :=
  ∀ g ∈ gs, if g.valid then g.saved = orig g.get else fw.dwell g.get = orig g.get

/-- Nothing is saved, and each value is there. -/
def Settled (orig : UInt32 → UInt32) (gs : List Dwell) (fw : Firmware) : Prop :=
  ∀ g ∈ gs, g.valid = false ∧ fw.dwell g.get = orig g.get

/-- The firmware takes each saved value, or has it already. -/
def Takes (ok : UInt32 → Bool) (gs : List Dwell) (fw : Firmware) : Prop :=
  ∀ g ∈ gs, g.valid = true → ok (g.get + 1) = true ∨ fw.dwell g.get = g.saved

instance decidableTakes (ok : UInt32 → Bool) (gs : List Dwell) (fw : Firmware) :
    Decidable (Takes ok gs fw) :=
  inferInstanceAs (Decidable (∀ g ∈ gs, g.valid = true → ok (g.get + 1) = true ∨
    fw.dwell g.get = g.saved))

section

variable {orig : UInt32 → UInt32} {ok : UInt32 → Bool} {gs : List Dwell} {fw : Firmware}

theorem Settled.saved (h : Settled orig gs fw) : Saved orig gs fw := by
  intro g member
  rw [(h g member).1]
  exact (h g member).2

theorem Firmware.set_other (fw : Firmware) (ok : UInt32 → Bool) {get key : UInt32} (val : UInt32)
    (other : key ≠ get) : (fw.set ok get val).dwell key = fw.dwell key := by
  unfold Firmware.set
  split
  next => exact Function.update_of_ne other ..
  next => rfl

theorem dwellFast_gets (ok : UInt32 → Bool) (gs : List Dwell) (fw : Firmware) :
    (dwellFast ok gs fw).1.map Dwell.get = gs.map Dwell.get := by
  induction gs generalizing fw with
  | nil => rfl
  | cons g gs ih => simp only [dwellFast, List.map_cons, ih]

theorem dwellFast_other (ok : UInt32 → Bool) {gs : List Dwell} (fw : Firmware) {key : UInt32}
    (other : key ∉ gs.map Dwell.get) : (dwellFast ok gs fw).2.dwell key = fw.dwell key := by
  induction gs generalizing fw with
  | nil => rfl
  | cons g gs ih =>
    simp only [List.map_cons, List.mem_cons, not_or] at other
    simp only [dwellFast]
    rw [ih _ other.2]
    split
    next => exact fw.set_other ok _ other.1
    next => rfl

/-- What `dwell_fast` finds it saves, or leaves. -/
theorem dwellFast_saved (distinct : (gs.map Dwell.get).Nodup)
    (h : ∀ g ∈ gs, fw.dwell g.get = orig g.get) :
    Saved orig (dwellFast ok gs fw).1 (dwellFast ok gs fw).2 := by
  induction gs generalizing fw with
  | nil => exact fun g member => by cases member
  | cons g gs ih =>
    obtain ⟨new, distinct⟩ := List.nodup_cons.mp distinct
    have here := h g List.mem_cons_self
    intro x member
    simp only [dwellFast] at member ⊢
    rcases List.mem_cons.mp member with rfl | later
    · -- A value that cannot be read is not changed either.
      cases got : ok g.get with
      | true => simpa using here
      | false =>
        simp only [Bool.false_eq_true, if_false]
        rw [dwellFast_other ok fw new]
        exact here
    · refine ih distinct (fun y inside => ?_) x later
      have other : y.get ≠ g.get := fun same => new (same ▸ List.mem_map_of_mem inside)
      have still := h y (List.mem_cons_of_mem _ inside)
      split
      next => rw [fw.set_other ok _ other, still]
      next => exact still

theorem dwellRestore_gets (ok : UInt32 → Bool) (gs : List Dwell) (fw : Firmware) :
    (dwellRestore ok gs fw).1.map Dwell.get = gs.map Dwell.get := by
  induction gs generalizing fw with
  | nil => rfl
  | cons g gs ih => simp only [dwellRestore, List.map_cons, ih]

theorem dwellRestore_other (ok : UInt32 → Bool) {gs : List Dwell} (fw : Firmware) {key : UInt32}
    (other : key ∉ gs.map Dwell.get) : (dwellRestore ok gs fw).2.dwell key = fw.dwell key := by
  induction gs generalizing fw with
  | nil => rfl
  | cons g gs ih =>
    simp only [List.map_cons, List.mem_cons, not_or] at other
    simp only [dwellRestore]
    rw [ih _ other.2]
    split
    next => exact fw.set_other ok _ other.1
    next => rfl

/-- What is saved is put back, where the firmware takes it. -/
theorem dwellRestore_settled (distinct : (gs.map Dwell.get).Nodup) (h : Saved orig gs fw)
    (takes : Takes ok gs fw) : Settled orig (dwellRestore ok gs fw).1 (dwellRestore ok gs fw).2 := by
  induction gs generalizing fw with
  | nil => exact fun g member => by cases member
  | cons g gs ih =>
    obtain ⟨new, distinct⟩ := List.nodup_cons.mp distinct
    have saved := h g List.mem_cons_self
    intro x member
    simp only [dwellRestore] at member ⊢
    rcases List.mem_cons.mp member with rfl | later
    · refine ⟨rfl, ?_⟩
      rw [dwellRestore_other ok _ new]
      cases valid : g.valid with
      | false => simpa [valid] using saved
      | true =>
        have value : g.saved = orig g.get := by simpa [valid] using saved
        rcases takes g List.mem_cons_self valid with taken | there
        · simp [Firmware.set, taken, value]
        · simp only [Firmware.set, if_true]
          split
          next => simp [value]
          next => rw [there, value]
    · -- The other values are read and written under other keys.
      have same {y : Dwell} (inside : y ∈ gs) :
          (if g.valid then fw.set ok g.get g.saved else fw).dwell y.get = fw.dwell y.get := by
        have other : y.get ≠ g.get := fun same => new (same ▸ List.mem_map_of_mem inside)
        split
        next => exact fw.set_other ok _ other
        next => rfl
      refine ih distinct (fun y inside => ?_) (fun y inside valid => ?_) x later
      · rw [same inside]
        exact h y (List.mem_cons_of_mem _ inside)
      · rw [same inside]
        exact takes y (List.mem_cons_of_mem _ inside) valid

end

/-! ### What a step does to them -/

/-- In a start that has yet to arm its session. -/
def Pc.starting : Pc → Bool
  | .startBegin _ | .startCheck _ | .startReset _ | .startDwell _ | .startRadio _ | .startArm _
  | .startFailed _ => true
  | _ => false

/-- In a start that has changed the dwell times, but not armed its session. -/
def Pc.fast : Pc → Bool
  | .startRadio _ | .startArm _ | .startFailed _ => true
  | _ => false

theorem Pc.starting_of_fast {pc : Pc} (fast : pc.fast = true) : pc.starting = true := by
  cases pc <;> first | rfl | cases fast

theorem Pc.locked_of_starting {pc : Pc} (starting : pc.starting = true) : pc.locked = true := by
  cases pc <;> first | rfl | cases starting

/-- At a `dwell_restore`. -/
def Pc.restoring (pc : Pc) (cont : Bool) : Bool :=
  match pc with
  | .startFailed _ => true
  | .stopClear _ => cont
  | _ => false

namespace System

variable {d : Driver} {T : Type}

/-- A step that restores the dwell times: the firmware takes them. -/
def Restores (m : System d T) : Event d T → Prop
  | .run t _ o =>
    (m.thread t).alive = true → (m.thread t).pc.restoring m.sh.cont = true →
      Takes o.ioctl m.sh.dwell m.sh.fw
  | _ => True

instance decidableRestores (m : System d T) : ∀ e, Decidable (m.Restores e)
  | .run t _ o => inferInstanceAs (Decidable ((m.thread t).alive = true →
      (m.thread t).pc.restoring m.sh.cont = true → Takes o.ioctl m.sh.dwell m.sh.fw))
  | .call _ _ | .report _ | .passEnds | .inquiryComplete | .hciWorking | .elapse _ | .ends _
  | .procStarts _ | .procEnds _ => isTrue trivial

end System

section

variable {d : Driver} {T : Type} [DecidableEq T] {m : System d T} {t : T} {c : Core} {o : Outcome T}
  {s' : Shared d T} {v' : Thread} {new : Option T}

/-- The dwell times change at three points only. -/
theorem dwell_same (h : threadStep m t c o = some (s', v', new))
    (start : ∀ l, (m.thread t).pc ≠ .startDwell l)
    (restore : (m.thread t).pc.restoring m.sh.cont = false) :
    s'.dwell = m.sh.dwell ∧ s'.fw = m.sh.fw := by
  cases at_ : (m.thread t).pc <;> simp only [threadStep, at_] at h <;>
    grind [Option.map_eq_some_iff, asyncBegin, asyncEnd, kmutexLock, startReset, startRadio,
      startArm, contStop, oneShotStop, linkCheck, pollPass, pollPublish, pollRestart, scanReset,
      scanRadio, eventFlagsSet, eventFlagsClear, Pc.restoring]

theorem dwell_fast (radio : d.radio = .wifi) (h : threadStep m t c o = some (s', v', new)) {l : Bool}
    (at_ : (m.thread t).pc = .startDwell l) :
    s'.dwell = (dwellFast o.ioctl m.sh.dwell m.sh.fw).1 ∧
      s'.fw = (dwellFast o.ioctl m.sh.dwell m.sh.fw).2 ∧ v'.pc = .startRadio l := by
  simp only [threadStep, at_, startDwell, radio, Option.some.injEq, Prod.mk.injEq] at h
  obtain ⟨rfl, rfl, _⟩ := h
  exact ⟨rfl, rfl, rfl⟩

theorem dwell_restore (radio : d.radio = .wifi) (h : threadStep m t c o = some (s', v', new))
    (restore : (m.thread t).pc.restoring m.sh.cont = true) :
    s'.dwell = (dwellRestore o.ioctl m.sh.dwell m.sh.fw).1 ∧
      s'.fw = (dwellRestore o.ioctl m.sh.dwell m.sh.fw).2 ∧
      (s'.cont = true → m.sh.cont = true ∧ ∃ rc, (m.thread t).pc = .startFailed rc) := by
  cases at_ : (m.thread t).pc <;> rw [at_] at restore <;> try cases restore
  case startFailed rc =>
    simp only [threadStep, at_, Option.some.injEq, Prod.mk.injEq] at h
    obtain ⟨rfl, _, _⟩ := h
    obtain ⟨a, same⟩ := asyncEnd_eq (startFailed m.sh o.ioctl)
    rw [same]
    exact ⟨rfl, rfl, fun cont => ⟨cont, rc, rfl⟩⟩
  case stopClear k =>
    have cont : m.sh.cont = true := restore
    simp only [threadStep, at_, contStop, cont, radio, if_true, Option.some.injEq,
      Prod.mk.injEq] at h
    obtain ⟨rfl, _, _⟩ := h
    exact ⟨rfl, rfl, fun cont => absurd cont Bool.false_ne_true⟩

theorem starting_from (h : threadStep m t c o = some (s', v', new)) (into : v'.pc.starting = true) :
    (m.thread t).pc.starting = true ∧ (∀ l, (m.thread t).pc ≠ .startArm l) ∨
      (∃ l, (m.thread t).pc = .startBusy l) ∧ m.sh.cont = false := by
  cases at_ : (m.thread t).pc <;> simp only [threadStep, at_] at h <;>
    grind [Option.map_eq_some_iff, Thread.goto, Thread.return, Pc.starting, StopCaller.resume,
      cases StopCaller]

theorem fast_from (h : threadStep m t c o = some (s', v', new)) (into : v'.pc.fast = true) :
    (∃ l, (m.thread t).pc = .startRadio l) ∨ ∃ l, (m.thread t).pc = .startDwell l := by
  cases at_ : (m.thread t).pc <;> simp only [threadStep, at_] at h <;>
    grind [Option.map_eq_some_iff, Thread.goto, Thread.return, Pc.fast, StopCaller.resume,
      cases StopCaller]

/-- A start that has changed them arms its session, or restores them. -/
theorem fast_goes (h : threadStep m t c o = some (s', v', new))
    (fast : (m.thread t).pc.fast = true) :
    v'.pc.fast = true ∨ s'.cont = true ∨ ∃ rc, (m.thread t).pc = .startFailed rc := by
  cases at_ : (m.thread t).pc <;> rw [at_] at fast <;> try cases fast
  case startRadio l =>
    simp only [threadStep, at_, Option.some.injEq, Prod.mk.injEq] at h
    obtain ⟨_, rfl, _⟩ := h
    refine .inl ?_
    simp only [Thread.goto]
    split <;> rfl
  case startArm l =>
    simp only [threadStep, at_, Option.some.injEq, Prod.mk.injEq] at h
    obtain ⟨rfl, _, _⟩ := h
    exact .inr (.inl rfl)
  case startFailed rc => exact .inr (.inr ⟨rc, rfl⟩)

end

/-! ### The invariant -/

theorem dwellTable_invalid : ∀ g ∈ dwellTable, g.valid = false := by decide

variable {d : Driver} {T : Type}

/-- What holds of the dwell times and of each thread, `orig` being the firmware's own. -/
structure Dwells (orig : UInt32 → UInt32) (s : Shared d T) (x : T) (v : Thread) : Prop where
  gets : s.dwell.map Dwell.get = dwellTable.map Dwell.get
  own : v.pc.locked = true ↔ s.lock = some x
  ended : v.pc.starting = true → s.cont = false
  fast : v.pc.fast = true → Saved orig s.dwell s.fw
  session : s.cont = true → Saved orig s.dwell s.fw
  settled : s.cont = false → s.lock = none ∨ v.pc.locked = true ∧ v.pc.fast = false →
    Settled orig s.dwell s.fw

theorem Dwells.distinct {orig : UInt32 → UInt32} {s : Shared d T} {x : T} {v : Thread}
    (now : Dwells orig s x v) : (s.dwell.map Dwell.get).Nodup := by
  rw [now.gets]
  decide

section

variable [DecidableEq T] {m : System d T} {t : T} {c : Core} {o : Outcome T} {s' : Shared d T}
  {v' : Thread} {new : Option T} {orig : UInt32 → UInt32}

/-- Who holds the mutex is who is between its lock and its unlock. -/
theorem lock_iff (h : threadStep m t c o = some (s', v', new))
    (now : (m.thread t).pc.locked = true ↔ m.sh.lock = some t) :
    v'.pc.locked = true ↔ s'.lock = some t := by
  have frame := (threadStep_frame h).1
  generalize (m.thread t).pc.locked = before, v'.pc.locked = after at frame now ⊢
  generalize m.sh.lock = old, s'.lock = lock at frame now ⊢
  cases frame with
  | outside | inside => exact now
  | takes => simp
  | releases => simp

theorem lock_iff_other (h : threadStep m t c o = some (s', v', new))
    (own : (m.thread t).pc.locked = true ↔ m.sh.lock = some t) {x : T} (other : x ≠ t) :
    s'.lock = some x ↔ m.sh.lock = some x := by
  refine ⟨fun mine => ?_, lock_other h own.mp other⟩
  have frame := (threadStep_frame h).1
  generalize (m.thread t).pc.locked = before, v'.pc.locked = after at frame own
  generalize m.sh.lock = old, s'.lock = lock at frame mine ⊢
  cases frame with
  | outside | inside => exact mine
  | takes => exact absurd (Option.some.inj mine).symm other
  | releases => cases mine

theorem unlocked_same (h : threadStep m t c o = some (s', v', new))
    (out : (m.thread t).pc.locked = false) : s'.dwell = m.sh.dwell ∧ s'.fw = m.sh.fw := by
  refine dwell_same h (fun l at_ => ?_) ?_
  · rw [at_] at out
    cases out
  · cases at_ : (m.thread t).pc <;> rw [at_] at out <;> first | rfl | cases out

theorem dwells_fast (radio : d.radio = .wifi) (h : threadStep m t c o = some (s', v', new))
    (now : Dwells orig m.sh t (m.thread t)) {l : Bool} (at_ : (m.thread t).pc = .startDwell l) :
    Dwells orig s' t v' := by
  obtain ⟨dwell, fw, goes⟩ := dwell_fast radio h at_
  -- `dwell_fast` runs before the session is armed, so every value is still the firmware's own.
  have cont : s'.cont = false := by
    by_contra running
    rcases cont_from h (by simpa using running) with before | ⟨l', here⟩
    · rw [now.ended (by rw [at_]; rfl)] at before
      cases before
    · rw [at_] at here
      cases here
  have saved : Saved orig s'.dwell s'.fw := by
    rw [dwell, fw]
    refine dwellFast_saved now.distinct fun g member => ?_
    exact (now.settled (now.ended (by rw [at_]; rfl)) (.inr (by rw [at_]; exact ⟨rfl, rfl⟩))
      g member).2
  have own := lock_iff h now.own
  refine ⟨?_, own, fun _ => cont, fun _ => saved, fun _ => saved, fun _ premise => ?_⟩
  · rw [dwell, dwellFast_gets, now.gets]
  · rw [goes] at premise own
    rw [own.mp rfl] at premise
    rcases premise with free | ⟨_, slow⟩
    · cases free
    · cases slow

theorem dwells_restore (radio : d.radio = .wifi) (h : threadStep m t c o = some (s', v', new))
    (now : Dwells orig m.sh t (m.thread t))
    (restore : (m.thread t).pc.restoring m.sh.cont = true)
    (takes : Takes o.ioctl m.sh.dwell m.sh.fw) : Dwells orig s' t v' := by
  obtain ⟨dwell, fw, cont⟩ := dwell_restore radio h restore
  have saved : Saved orig m.sh.dwell m.sh.fw := by
    cases at_ : (m.thread t).pc <;> rw [at_] at restore <;> try cases restore
    case startFailed => exact now.fast (by rw [at_]; rfl)
    case stopClear => exact now.session restore
  have settled : Settled orig s'.dwell s'.fw := by
    rw [dwell, fw]
    exact dwellRestore_settled now.distinct saved takes
  refine ⟨?_, lock_iff h now.own, fun starting => ?_, fun _ => settled.saved,
    fun _ => settled.saved, fun _ _ => settled⟩
  · rw [dwell, dwellRestore_gets, now.gets]
  · by_contra running
    obtain ⟨before, rc, at_⟩ := cont (by simpa using running)
    rw [now.ended (by rw [at_]; rfl)] at before
    cases before

theorem dwells_rest (h : threadStep m t c o = some (s', v', new))
    (now : Dwells orig m.sh t (m.thread t)) (start : ∀ l, (m.thread t).pc ≠ .startDwell l)
    (restore : (m.thread t).pc.restoring m.sh.cont = false) : Dwells orig s' t v' := by
  obtain ⟨dwell, fw⟩ := dwell_same h start restore
  have own := lock_iff h now.own
  refine ⟨dwell ▸ now.gets, own, fun starting => ?_, fun fast => ?_, fun cont => ?_,
    fun cont premise => ?_⟩
  · -- Only `startArm` begins a session, and it leaves the start.
    by_contra running
    rcases starting_from h starting with ⟨before, out⟩ | ⟨⟨l, at_⟩, ended⟩
    · rcases cont_from h (by simpa using running) with cont | ⟨l, at_⟩
      · rw [now.ended before] at cont
        cases cont
      · exact out l at_
    · rcases cont_from h (by simpa using running) with cont | ⟨l', here⟩
      · rw [ended] at cont
        cases cont
      · rw [at_] at here
        cases here
  · rw [dwell, fw]
    rcases fast_from h fast with ⟨l, at_⟩ | ⟨l, at_⟩
    · exact now.fast (by rw [at_]; rfl)
    · exact absurd at_ (start l)
  · rw [dwell, fw]
    rcases cont_from h cont with before | ⟨l, at_⟩
    · exact now.session before
    · exact now.fast (by rw [at_]; rfl)
  · rw [dwell, fw]
    have ended : m.sh.cont = false := by
      rcases cont_ends h cont with before | ⟨k, at_⟩
      · exact before
      · rw [at_] at restore
        exact restore
    refine now.settled ended ?_
    cases inside : (m.thread t).pc.locked with
    | true =>
      -- A start that is past `dwell_fast` does not leave the mutex like this.
      refine .inr ⟨rfl, ?_⟩
      by_contra fast
      rcases fast_goes h (by simpa using fast) with still | running | ⟨rc, at_⟩
      · rcases premise with free | ⟨_, slow⟩
        · rw [own.mp (Pc.locked_of_starting (Pc.starting_of_fast still))] at free
          cases free
        · rw [still] at slow
          cases slow
      · rw [cont] at running
        cases running
      · rw [at_] at restore
        cases restore
    | false =>
      refine .inl ?_
      have frame := (threadStep_frame h).1
      rw [inside] at frame
      generalize v'.pc.locked = after, m.sh.lock = old, s'.lock = lock at frame premise ⊢
      cases frame with
      | outside => exact premise.resolve_right fun ⟨impossible, _⟩ => nomatch impossible
      | takes => rfl

theorem dwells_own (radio : d.radio = .wifi) (h : threadStep m t c o = some (s', v', new))
    (now : Dwells orig m.sh t (m.thread t))
    (takes : (m.thread t).pc.restoring m.sh.cont = true → Takes o.ioctl m.sh.dwell m.sh.fw) :
    Dwells orig s' t v' := by
  by_cases start : ∃ l, (m.thread t).pc = .startDwell l
  · obtain ⟨l, at_⟩ := start
    exact dwells_fast radio h now at_
  · cases restore : (m.thread t).pc.restoring m.sh.cont with
    | true => exact dwells_restore radio h now restore (takes restore)
    | false => exact dwells_rest h now (not_exists.mp start) restore

theorem dwells_other (h : threadStep m t c o = some (s', v', new))
    (now : Dwells orig m.sh t (m.thread t)) (next : Dwells orig s' t v') {x : T} (other : x ≠ t)
    (nowx : Dwells orig m.sh x (m.thread x)) : Dwells orig s' x (m.thread x) := by
  have own : (m.thread x).pc.locked = true ↔ s'.lock = some x :=
    nowx.own.trans (lock_iff_other h now.own other).symm
  cases inside : (m.thread x).pc.locked with
  | true =>
    -- The other thread is outside the mutex, so it touches none of this.
    have outside : (m.thread t).pc.locked = false := by
      by_contra his
      have mine := nowx.own.mp inside
      rw [now.own.mp (by simpa using his)] at mine
      exact other (Option.some.inj mine).symm
    obtain ⟨dwell, fw⟩ := unlocked_same h outside
    obtain ⟨cont, _⟩ := session_unlocked h outside
    refine ⟨next.gets, own, ?_, ?_, next.session, ?_⟩
    · rw [cont]
      exact nowx.ended
    · rw [dwell, fw]
      exact nowx.fast
    · rw [dwell, fw, cont, own.mp inside]
      intro ended premise
      exact nowx.settled ended (premise.imp_left nofun)
  | false =>
    have slow (starting : (m.thread x).pc.starting = true) : False := by
      rw [Pc.locked_of_starting starting] at inside
      cases inside
    refine ⟨next.gets, own, fun starting => (slow starting).elim,
      fun fast => (slow (Pc.starting_of_fast fast)).elim, next.session, fun ended premise => ?_⟩
    refine next.settled ended (.inl (premise.resolve_right fun ⟨locked, _⟩ => ?_))
    rw [inside] at locked
    cases locked

omit [DecidableEq T] in
/-- A thread that is outside the mutex before and after. -/
theorem Dwells.outside {x : T} {v w : Thread} {s : Shared d T} (now : Dwells orig s x v)
    (before : v.pc.locked = false) (after : w.pc.locked = false) : Dwells orig s x w := by
  have slow (starting : w.pc.starting = true) : False := by
    rw [Pc.locked_of_starting starting] at after
    cases after
  refine ⟨now.gets, ?_, fun starting => (slow starting).elim,
    fun fast => (slow (Pc.starting_of_fast fast)).elim, now.session, fun ended premise => ?_⟩
  · rw [← now.own, before, after]
  · refine now.settled ended (.inl (premise.resolve_right fun ⟨locked, _⟩ => ?_))
    rw [after] at locked
    cases locked

omit [DecidableEq T] in
theorem Dwells.env {x : T} {v : Thread} {s s' : Shared d T} (now : Dwells orig s x v)
    (env : Env s s') (dwell : s'.dwell = s.dwell) (fw : s'.fw = s.fw) : Dwells orig s' x v := by
  obtain ⟨gets, own, ended, fast, session, settled⟩ := now
  rw [← dwell] at gets
  rw [← env.lock] at own
  rw [← env.cont] at ended
  rw [← dwell, ← fw] at fast
  rw [← dwell, ← fw, ← env.cont] at session
  rw [← dwell, ← fw, ← env.cont, ← env.lock] at settled
  exact ⟨gets, own, ended, fast, session, settled⟩

/-- Only a thread of the module changes the dwell times. -/
theorem step_dwell (e : Event d T) (quiet : ∀ t c o, e ≠ .run t c o) :
    (m.step e).sh.dwell = m.sh.dwell ∧ (m.step e).sh.fw = m.sh.fw := by
  cases e with
  | run t c o => exact absurd rfl (quiet t c o)
  | call t call =>
    simp only [System.step, System.callStep]
    split <;> exact ⟨rfl, rfl⟩
  | report r =>
    simp only [System.step, System.report]
    split_ifs
    · cases d.store (m.sh.buf.lists m.sh.buf.sb.fill) r <;> exact ⟨rfl, rfl⟩
    · cases d.store m.sh.scan r <;> exact ⟨rfl, rfl⟩
    · exact ⟨rfl, rfl⟩
  | inquiryComplete =>
    simp only [System.step, System.inquiryComplete]
    split
    next => split <;> exact ⟨rfl, rfl⟩
    next => exact ⟨rfl, rfl⟩
  | passEnds | hciWorking | elapse | ends | procStarts | procEnds => exact ⟨rfl, rfl⟩

theorem dwells_step (radio : d.radio = .wifi) {e : Event d T} (restores : m.Restores e)
    (now : ∀ x, Dwells orig m.sh x (m.thread x)) (x : T) :
    Dwells orig (m.step e).sh x ((m.step e).thread x) := by
  suffices carries : Carries m e (Dwells orig) fun s x v =>
      s.dwell = (m.step e).sh.dwell → s.fw = (m.step e).sh.fw → Dwells orig s x v from
    carries.step now x rfl rfl
  have own {t c o s' v' new} (run : e = .run t c o) (alive : (m.thread t).alive = true)
      (h : threadStep m t c o = some (s', v', new)) : Dwells orig s' t v' := by
    subst run
    exact dwells_own radio h (now t) (restores alive)
  constructor
  case own => exact fun t c o s' v' new run alive h _ _ _ => own run alive h
  case other =>
    exact fun t c o s' v' new x ne run alive h nowt nowx _ _ =>
      dwells_other h nowt (own run alive h) ne nowx
  case born =>
    intro t c o s' v' u run alive h nowt nowu _ _
    obtain ⟨ne, _, out⟩ := threadStep_new h
    exact (dwells_other h nowt (own run alive h) ne nowu).outside (by rw [out]; rfl) rfl
  case call =>
    intro t call _ out now _ _
    exact now.outside (by rw [out]; rfl) (call.entry_unlocked d.radio)
  case ends =>
    exact fun t _ now _ _ =>
      ⟨now.gets, now.own, now.ended, now.fast, now.session, now.settled⟩
  case env =>
    intro s x quiet env now dwell fw
    obtain ⟨sameDwell, sameFw⟩ := step_dwell (m := m) e quiet
    exact now.env env (dwell.trans sameDwell) (fw.trans sameFw)
  case idle => exact fun x _ now _ _ => now

omit [DecidableEq T] in
theorem dwells_initial (initial : Initial m) (table : m.sh.dwell = dwellTable) (x : T) :
    Dwells m.sh.fw.dwell m.sh x (m.thread x) := by
  have out : (m.thread x).pc = .user := (initial.threads x).1
  refine ⟨by rw [table], ?_, fun starting => ?_, fun fast => ?_, fun cont => ?_,
    fun _ _ g member => ⟨?_, rfl⟩⟩
  · rw [out, initial.lock]
    exact ⟨nofun, nofun⟩
  · rw [out] at starting
    cases starting
  · rw [out] at fast
    cases fast
  · rw [initial.cont] at cont
    cases cont
  · rw [table] at member
    exact dwellTable_invalid g member

omit [DecidableEq T] in
/-- In no state has a save lost the firmware's own value. -/
theorem saved_always (now : ∀ x, Dwells orig m.sh x (m.thread x)) [Nonempty T] :
    Saved orig m.sh.dwell m.sh.fw := by
  have any := Classical.arbitrary T
  cases cont : m.sh.cont with
  | true => exact (now any).session cont
  | false =>
    cases lock : m.sh.lock with
    | none => exact ((now any).settled cont (.inl lock)).saved
    | some x =>
      cases fast : (m.thread x).pc.fast with
      | true => exact (now x).fast fast
      | false => exact ((now x).settled cont (.inr ⟨(now x).own.mpr lock, fast⟩)).saved

omit [DecidableEq T] in
theorem settled_outside (now : ∀ x, Dwells orig m.sh x (m.thread x)) [Nonempty T]
    (cont : m.sh.cont = false) (out : ∀ x, (m.thread x).pc.locked = false) :
    Settled orig m.sh.dwell m.sh.fw := by
  refine (now (Classical.arbitrary T)).settled cont (.inl ?_)
  cases lock : m.sh.lock with
  | none => rfl
  | some x =>
    have inside := (now x).own.mpr lock
    rw [out x] at inside
    cases inside

end

/-! ### Runs -/

/-- What is asked of the dwell times of the firmware, which were `orig`. -/
structure DwellOk {T : Type} (orig : UInt32 → UInt32) (m : System wifi T) : Prop where
  /-- With no session and no call in progress, the firmware has its own values. -/
  restored : m.sh.cont = false → (∀ t, (m.thread t).pc.locked = false) →
    ∀ g ∈ dwellTable, m.sh.fw.dwell g.get = orig g.get
  /-- What is saved is what the firmware had. -/
  saved : ∀ g ∈ m.sh.dwell, g.valid = true → g.saved = orig g.get

theorem dwellOk_of_dwells {T : Type} [Nonempty T] {orig : UInt32 → UInt32} {m : System wifi T}
    (now : ∀ x, Dwells orig m.sh x (m.thread x)) : DwellOk orig m where
  restored cont out g member := by
    -- The table names the same ioctls throughout.
    obtain ⟨h, inside, same⟩ : ∃ h ∈ m.sh.dwell, h.get = g.get := by
      rw [← List.mem_map, (now (Classical.arbitrary T)).gets]
      exact List.mem_map_of_mem member
    rw [← same]
    exact (settled_outside now cont out h inside).2
  saved g member valid := by simpa [valid] using saved_always now g member

/-- Scans leave the firmware's dwell times as they were, in every run where the firmware takes what
`dwell_restore` puts back. -/
theorem dwell_times_restored {T : Type} [DecidableEq T] {m : System wifi T} (initial : Initial m)
    (table : m.sh.dwell = dwellTable) (es : List (Event wifi T))
    (restores : Run.Along System.step System.Restores m es) :
    ∀ pre, pre <+: es → DwellOk m.sh.fw.dwell (Run.exec System.step m pre) := by
  rintro pre ⟨rest, rfl⟩
  have before := ((Run.along_append _ _ _).mp restores).1
  cases isEmpty_or_nonempty T with
  | inl none =>
    have same : (Run.exec System.step m pre).sh.dwell = m.sh.dwell ∧
        (Run.exec System.step m pre).sh.fw = m.sh.fw := by
      refine Run.exec_invariant (I := fun m' : System wifi T =>
        m'.sh.dwell = m.sh.dwell ∧ m'.sh.fw = m.sh.fw) (fun m' e now => ?_) ⟨rfl, rfl⟩ pre
      obtain ⟨dwell, fw⟩ := step_dwell (m := m') e fun t => none.elim t
      exact ⟨dwell.trans now.1, fw.trans now.2⟩
    refine ⟨fun _ _ g _ => by rw [same.2], fun g member valid => ?_⟩
    rw [same.1, table] at member
    rw [dwellTable_invalid g member] at valid
    cases valid
  | inr some =>
    refine dwellOk_of_dwells (before.invariant (I := fun m' : System wifi T =>
      ∀ x, Dwells m.sh.fw.dwell m'.sh x (m'.thread x)) ?_ (dwells_initial initial table))
    exact fun _ _ now restores => dwells_step rfl restores now

/-- Thread 0 starts a session and stops it. -/
def startAndStop (ioctl : UInt32 → Bool) : List (Event wifi (Fin 3)) :=
  .call 0 (.start false) :: goes 0 12 ++ .call 0 .stop ::
    List.replicate 7 (.run 0 0 ⟨0, ioctl, true, none⟩)

/-- A firmware that takes every value. -/
theorem start_and_stop_restores :
    (Run.exec System.step (afterInit wifi .zero fun _ : Fin 3 => 7)
      (startAndStop fun _ => true)).sh.fw.dwell 184 = 0 ∧
      ∀ pre, pre <+: startAndStop (fun _ => true) →
        DwellOk (fun _ => 0) (Run.exec System.step
          (afterInit wifi .zero fun _ : Fin 3 => 7) pre) :=
  ⟨by decide +kernel,
    dwell_times_restored (afterInit_initial _ _ _) rfl _ (by decide +kernel)⟩

/-- One that refuses to set the active dwell time back keeps the fast one, and the module has
forgotten its own. -/
theorem refused_restore_is_lost :
    Initial (afterInit wifi .zero fun _ : Fin 3 => 7) ∧
      (let m := Run.exec System.step (afterInit wifi .zero fun _ : Fin 3 => 7)
        (startAndStop fun n => n ≠ 185)
      m.sh.cont = false ∧ (∀ t, (m.thread t).pc = .user) ∧ m.sh.fw.dwell 184 = 25 ∧
        ∀ g ∈ m.sh.dwell, g.valid = false) ∧
      ¬ ∀ pre, pre <+: startAndStop (fun n => n ≠ 185) →
        DwellOk (fun _ => 0) (Run.exec System.step
          (afterInit wifi .zero fun _ : Fin 3 => 7) pre) := by
  refine ⟨afterInit_initial _ _ _, by decide +kernel, fun ok => ?_⟩
  have last := (ok _ (List.prefix_refl _)).restored (by decide +kernel) (by decide +kernel)
    ⟨184, 25, 0, false⟩ (by decide)
  exact absurd last (by decide +kernel)

end PicoOS.Scan
