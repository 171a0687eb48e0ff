import PicoOS.Kernel.Prims

/-!
# Mutual exclusion

A mutex is free or names its owner, and only the section of `kmutex_lock` that
finds it free claims it. Wake-ups are hints: a thread that was woken tests
again. So whatever wakes, preempts or kills threads in between, two of them
never hold one mutex.
-/
namespace PicoOS.Kernel

/-- `kmutex_init`. -/
def kmutexInit : Kmutex := { ownerTid := noOwner, count := 0 }

/-- The thread that claims a mutex in this step, and returns from `kmutex_lock`. -/
def Machine.claims (m : Machine) (e : Event) : Option (Slot × Addr) :=
  match m.acts e with
  | some (x, a) =>
    match x.pc, a.pc with
    | .test (.kmutexLock mutex) _, .user => some (x.self, mutex)
    | _, _ => none
  | none => none

/-- The thread that frees a mutex in this step, in `kmutex_unlock`. -/
def Machine.frees (m : Machine) (e : Event) : Option (Slot × Addr) :=
  match m.acts e with
  | some (x, _) =>
    match x.pc with
    | .post (.kmutexUnlock mutex) => some (x.self, mutex)
    | _ => none
  | none => none

/-- In `kmutex_lock`. -/
def Pc.locks : Pc → Option Addr
  | .test (.kmutexLock mutex) _ | .blocking (.kmutexLock mutex) | .yielding (.kmutexLock mutex)
  | .yielded (.kmutexLock mutex) => some mutex
  | _ => none

/-- The machine, with the mutexes that each thread has locked and not unlocked, and for each mutex
the holder that was killed and freed before it could unlock. -/
structure Locks where
  sys : Machine
  holds : Slot → Addr → Bool
  lost : Addr → Option (Slot × UInt32)

namespace Locks

def step (l : Locks) (e : Event) : Locks where
  sys := l.sys.step e
  holds t a :=
    if l.sys.recasts e = some t then false
    else if l.sys.claims e = some (t, a) then true
    else if l.sys.frees e = some (t, a) then false
    else l.holds t a
  lost a :=
    match l.sys.recasts e with
    | some t => if l.holds t a then some (t, l.sys.k.tid t) else l.lost a
    | none => if (l.sys.frees e).any fun f => f.2 = a then none else l.lost a

/-- No thread has the tid 0xFFFFFFFF, and the mutex is unlocked by its holder only, be it one whose
TCB is gone. -/
def Legal (a : Addr) (l : Locks) (e : Event) : Prop :=
  (∀ t, l.sys.k.tid t ≠ noOwner) ∧
    ∀ t, l.sys.frees e = some (t, a) → l.holds t a = true ∨ (l.lost a).any (fun h => h.1 = t) = true

/-- What holds of a mutex in every state. -/
structure Exclusive (a : Addr) (l : Locks) : Prop where
  one : ∀ t u, l.holds t a = true → l.holds u a = true → t = u
  owner : ∀ t, l.holds t a = true → (l.sys.k.mutexes a).ownerTid = l.sys.k.tid t
  killed : ∀ t tid, l.lost a = some (t, tid) →
    (l.sys.k.mutexes a).ownerTid = tid ∧ tid ≠ noOwner ∧ ∀ u, l.holds u a = false
  free : (∀ t, l.holds t a = false) → l.lost a = none → (l.sys.k.mutexes a).ownerTid = noOwner

/-- A thread that returns from `kmutex_lock` in this step has found the mutex free and claimed it
itself. -/
def ReturnsWithClaim (a : Addr) (l : Locks) (e : Event) : Prop :=
  ∀ x act, l.sys.acts e = some (x, act) → x.pc.locks = some a → act.pc = .user →
    (l.sys.k.mutexes a).ownerTid = noOwner ∧
      ((l.sys.step e).k.mutexes a).ownerTid = l.sys.k.tid x.self ∧
      (l.step e).holds x.self a = true

/-- All mutexes are unlocked by every thread. -/
def start (m : Machine) : Locks := ⟨m, fun _ _ => false, fun _ => none⟩

end Locks

/-! ### One step -/

section
variable {m : Machine} {c : Core} {x : Ctx} {act : Act} {a : Addr}

theorem claims_acts {e : Event} {t : Slot} (h : m.claims e = some (t, a)) :
    ∃ x act again, m.acts e = some (x, act) ∧ x.self = t ∧ x.pc = .test (.kmutexLock a) again ∧
      act.pc = .user := by
  unfold Machine.claims at h
  split at h
  next x act acts =>
    split at h
    next mutex again at_ user =>
      cases h
      exact ⟨x, act, again, acts, rfl, at_, user⟩
    next => cases h
  next => cases h

theorem frees_acts {e : Event} {t : Slot} (h : m.frees e = some (t, a)) :
    ∃ x act, m.acts e = some (x, act) ∧ x.self = t ∧ x.pc = .post (.kmutexUnlock a) := by
  unfold Machine.frees at h
  split at h
  next x act acts =>
    split at h
    next mutex at_ =>
      cases h
      exact ⟨x, act, acts, rfl, at_⟩
    next => cases h
  next => cases h

theorem mutexes_prims {k k' : KernelState} (same : k'.prims = k.prims) :
    k'.mutexes = k.mutexes := congrArg Prod.fst same

/-- The section of another call leaves the mutexes alone. -/
theorem waitTake_mutexes {k : KernelState} {t : Slot} {op : WaitOp} {s : Section}
    (h : waitTake k t op = some s) (other : ∀ mutex, op ≠ .kmutexLock mutex) :
    s.k.mutexes = k.mutexes := by
  cases op with
  | kmutexLock mutex => exact absurd rfl (other mutex)
  | _ =>
    simp only [waitTake, Option.ite_none_right_eq_some, Option.some.injEq] at h
    obtain ⟨_, rfl⟩ := h
    rfl

theorem postTake_mutexes (k : KernelState) {op : PostOp} (other : ∀ mutex, op ≠ .kmutexUnlock mutex) :
    (postTake k op).k.mutexes = k.mutexes := by
  cases op with
  | kmutexUnlock mutex => exact absurd rfl (other mutex)
  | mqueueTrySend | mqueueTryRecv =>
    simp only [postTake]
    split <;> rfl
  | _ => rfl

/-- What a step of a thread does to the mutexes. -/
theorem act_mutexes (s : Scheduled m) (runs : m.executes c = some x) (h : m.act c x = some act) :
    (∃ mutex again, x.pc = .test (.kmutexLock mutex) again ∧ act.pc = .user ∧
      (m.k.mutexes mutex).ownerTid = noOwner ∧
      act.k.mutexes = Function.update m.k.mutexes mutex ⟨m.k.tid x.self, 1⟩) ∨
    (∃ mutex, x.pc = .post (.kmutexUnlock mutex) ∧
      act.k.mutexes = Function.update m.k.mutexes mutex kmutexInit) ∨
    (act.k.mutexes = m.k.mutexes ∧ (∀ mutex, x.pc ≠ .post (.kmutexUnlock mutex)) ∧
      ∀ mutex again, x.pc = .test (.kmutexLock mutex) again → act.pc ≠ .user) := by
  cases at_ : x.pc with
  | test op again =>
    obtain ⟨cur, current, ⟨sec, taken, rfl⟩ | ⟨_, same, blocks, _⟩⟩ := test_cases at_ h
    · by_cases locks : ∃ mutex, op = .kmutexLock mutex
      · obtain ⟨mutex, rfl⟩ := locks
        simp only [waitTake, Option.ite_none_right_eq_some, Option.some.injEq] at taken
        obtain ⟨free, rfl⟩ := taken
        have self : cur = x.self := by
          have live := s.live c x (executes_eq_some.mp runs).1
          exact Option.some.inj (current.symm.trans live)
        subst self
        exact .inl ⟨mutex, again, rfl, rfl, free, rfl⟩
      · refine .inr (.inr ⟨waitTake_mutexes taken fun mutex eq => locks ⟨mutex, eq⟩,
          fun _ eq => (by cases eq), ?_⟩)
        intro mutex again eq
        cases eq
        exact absurd rfl fun eq => locks ⟨mutex, eq⟩
    · refine .inr (.inr ⟨mutexes_prims same.prims, fun _ eq => (by cases eq), fun _ _ _ => ?_⟩)
      rw [blocks]
      rintro ⟨⟩
  | post op =>
    rw [post_cases at_ h]
    by_cases unlocks : ∃ mutex, op = .kmutexUnlock mutex
    · obtain ⟨mutex, rfl⟩ := unlocks
      exact .inr (.inl ⟨mutex, rfl, rfl⟩)
    · refine .inr (.inr ⟨postTake_mutexes m.k fun mutex eq => unlocks ⟨mutex, eq⟩, ?_,
        fun _ _ eq => (by cases eq)⟩)
      intro mutex eq
      cases eq
      exact unlocks ⟨mutex, rfl⟩
  | _ =>
    exact .inr (.inr ⟨mutexes_prims (act_prims h (by rw [at_]; rfl)),
      fun _ eq => (by cases eq), fun _ _ eq => (by cases eq)⟩)

end

namespace Locks

variable {l : Locks} {e : Event} {a : Addr}

/-- Nobody claims or frees the mutex; at most a TCB goes. -/
theorem exclusive_rest (ex : Exclusive a l) (legal : Legal a l e)
    (mutex : (l.sys.step e).k.mutexes a = l.sys.k.mutexes a)
    (tid : ∀ u, l.sys.recasts e ≠ some u → (l.sys.step e).k.tid u = l.sys.k.tid u)
    (claims : ∀ t, l.sys.claims e ≠ some (t, a)) (frees : ∀ t, l.sys.frees e ≠ some (t, a)) :
    Exclusive a (l.step e) := by
  have holds (t : Slot) : (l.step e).holds t a =
      if l.sys.recasts e = some t then false else l.holds t a := by
    simp only [step, if_neg (claims t), if_neg (frees t)]
  have kept : (l.sys.frees e).any (fun f => decide (f.2 = a)) = false := by
    cases freed : l.sys.frees e with
    | none => rfl
    | some f =>
      obtain ⟨t, b⟩ := f
      simpa using fun same : b = a => frees t (same ▸ freed)
  cases gone : l.sys.recasts e with
  | none =>
    have lost : (l.step e).lost a = l.lost a := by simp only [step, gone, kept]; rfl
    simp only [gone, reduceCtorEq, if_false] at holds
    have tid (u : Slot) : (l.step e).sys.k.tid u = l.sys.k.tid u := tid u (by rw [gone]; nofun)
    constructor
    case one => simpa only [holds] using ex.one
    case owner =>
      intro t held
      rw [holds] at held
      rw [tid t, ← ex.owner t held]
      exact congrArg Kmutex.ownerTid mutex
    case killed =>
      intro t i dead
      rw [lost] at dead
      obtain ⟨mine, real, nobody⟩ := ex.killed t i dead
      exact ⟨(congrArg Kmutex.ownerTid mutex).trans mine, real, fun u => (holds u).trans (nobody u)⟩
    case free =>
      intro nobody none
      rw [lost] at none
      exact (congrArg Kmutex.ownerTid mutex).trans (ex.free (fun t => holds t ▸ nobody t) none)
  | some r =>
    have lost : (l.step e).lost a =
        if l.holds r a = true then some (r, l.sys.k.tid r) else l.lost a := by
      simp only [step, gone]
    simp only [gone, Option.some.injEq] at holds
    have before {t : Slot} (held : (l.step e).holds t a = true) : r ≠ t ∧ l.holds t a = true := by
      rw [holds] at held
      split at held
      next => cases held
      next other => exact ⟨other, held⟩
    constructor
    case one => exact fun t u ht hu => ex.one t u (before ht).2 (before hu).2
    case owner =>
      intro t held
      obtain ⟨other, held⟩ := before held
      have same : (l.step e).sys.k.tid t = l.sys.k.tid t :=
        tid t (by rw [gone]; exact fun eq => other (Option.some.inj eq))
      rw [same, ← ex.owner t held]
      exact congrArg Kmutex.ownerTid mutex
    case killed =>
      intro t i dead
      have owner : ((l.step e).sys.k.mutexes a).ownerTid = (l.sys.k.mutexes a).ownerTid :=
        congrArg Kmutex.ownerTid mutex
      rw [lost] at dead
      rw [owner]
      split at dead
      next held =>
        -- The holder itself is gone.
        cases dead
        refine ⟨ex.owner _ held, legal.1 _, fun u => ?_⟩
        by_contra other
        obtain ⟨ne, heldu⟩ := before (by simpa using other)
        exact ne (ex.one _ _ held heldu)
      next =>
        obtain ⟨mine, real, nobody⟩ := ex.killed t i dead
        refine ⟨mine, real, fun u => ?_⟩
        rw [holds, nobody u]
        split <;> rfl
    case free =>
      intro nobody none
      rw [lost] at none
      split at none
      next => cases none
      next free =>
        refine (congrArg Kmutex.ownerTid mutex).trans (ex.free (fun t => ?_) none)
        have now := nobody t
        rw [holds] at now
        split at now
        next same => exact same ▸ (by simpa using free)
        next => exact now

theorem exclusive_step (s : Scheduled l.sys) (legal : Legal a l e) (ex : Exclusive a l) :
    Exclusive a (l.step e) := by
  have stepped := step_stepped l.sys e
  generalize next : l.sys.step e = m' at stepped
  cases stepped with
  | rest _ rest =>
    rw [← next] at rest
    exact exclusive_rest ex legal (by rw [mutexes_prims rest.prims]) rest.tid
      (fun t => by simp [Machine.claims, rest.idle]) (fun t => by simp [Machine.frees, rest.idle])
  | act c runs h =>
    rename_i x act
    have acts := acts_of runs h
    have sys : (l.step (.run c)).sys = l.sys.commit c x act := next
    have recasts : l.sys.recasts (.run c) = x.pc.recasts := by
      simp [Machine.recasts, (executes_eq_some.mp runs).1, runs]
    have tids (u : Slot) (other : l.sys.recasts (.run c) ≠ some u) :
        (l.sys.step (.run c)).k.tid u = l.sys.k.tid u := by
      rw [next]
      exact act_tid h (recasts ▸ other)
    rcases act_mutexes s runs h with
      ⟨mutex, again, at_, user, free, mutexes⟩ | ⟨mutex, at_, mutexes⟩ | ⟨same, notFree, notClaim⟩
    · have claims : l.sys.claims (.run c) = some (x.self, mutex) := by
        simp [Machine.claims, acts, at_, user]
      have frees : l.sys.frees (.run c) = none := by simp [Machine.frees, acts, at_]
      have none : l.sys.recasts (.run c) = none := by rw [recasts, at_]; rfl
      by_cases this : mutex = a
      · subst this
        have nobody (t : Slot) : l.holds t mutex = false := by
          by_contra held
          exact legal.1 t ((ex.owner t (by simpa using held)).symm.trans free)
        have notLost : l.lost mutex = Option.none := by
          cases dead : l.lost mutex with
          | none => rfl
          | some d =>
            obtain ⟨mine, real, _⟩ := ex.killed d.1 d.2 dead
            exact absurd (mine.symm.trans free) real
        have holds (t : Slot) : (l.step (.run c)).holds t mutex = decide (t = x.self) := by
          simp [step, none, claims, frees, nobody t, eq_comm]
        have lost : (l.step (.run c)).lost mutex = Option.none := by
          simp [step, none, frees, notLost]
        have owner : ((l.step (.run c)).sys.k.mutexes mutex).ownerTid = l.sys.k.tid x.self := by
          simp [sys, Machine.commit, mutexes]
        constructor
        case one =>
          intro t u ht hu
          rw [holds, decide_eq_true_eq] at ht hu
          exact ht.trans hu.symm
        case owner =>
          intro t ht
          rw [holds, decide_eq_true_eq] at ht
          subst ht
          exact owner.trans (tids _ (by rw [none]; rintro ⟨⟩)).symm
        case killed =>
          intro t i dead
          rw [lost] at dead
          cases dead
        case free =>
          intro nobody
          have now := nobody x.self
          rw [holds] at now
          simp at now
      · refine exclusive_rest ex legal ?_ tids (fun t => ?_) fun t => by rw [frees]; rintro ⟨⟩
        · rw [next]
          simp [Machine.commit, mutexes, Ne.symm this]
        · rw [claims]
          exact fun eq => this (Prod.mk.inj (Option.some.inj eq)).2
    · have claims : l.sys.claims (.run c) = none := by simp [Machine.claims, acts, at_]
      have frees : l.sys.frees (.run c) = some (x.self, mutex) := by simp [Machine.frees, acts, at_]
      have none : l.sys.recasts (.run c) = none := by rw [recasts, at_]; rfl
      by_cases this : mutex = a
      · subst this
        -- The holder lets go, or the one that lost its TCB does, and then nobody else has it.
        have nobody (t : Slot) : (l.step (.run c)).holds t mutex = false := by
          have holds : (l.step (.run c)).holds t mutex =
              if x.self = t then false else l.holds t mutex := by
            simp [step, none, claims, frees]
          rw [holds]
          split
          next => rfl
          next other =>
            by_contra held
            rcases legal.2 x.self frees with mine | dead
            · exact other (ex.one _ _ mine (by simpa using held))
            · cases lost : l.lost mutex with
              | none =>
                rw [lost] at dead
                cases dead
              | some d => exact held ((ex.killed d.1 d.2 lost).2.2 t)
        have owner : ((l.step (.run c)).sys.k.mutexes mutex).ownerTid = noOwner := by
          simp [sys, Machine.commit, mutexes, kmutexInit]
        have lost : (l.step (.run c)).lost mutex = Option.none := by
          simp [step, none, frees]
        constructor
        case one =>
          intro t u ht
          rw [nobody t] at ht
          cases ht
        case owner =>
          intro t ht
          rw [nobody t] at ht
          cases ht
        case killed =>
          intro t i dead
          rw [lost] at dead
          cases dead
        case free => exact fun _ _ => owner
      · refine exclusive_rest ex legal ?_ tids (fun t => by rw [claims]; rintro ⟨⟩) fun t => ?_
        · rw [next]
          simp [Machine.commit, mutexes, Ne.symm this]
        · rw [frees]
          exact fun eq => this (Prod.mk.inj (Option.some.inj eq)).2
    · refine exclusive_rest ex legal ?_ tids (fun t claims => ?_) fun t frees => ?_
      · rw [next]
        exact congrFun same a
      · obtain ⟨y, b, again, acts', _, at_, user⟩ := claims_acts claims
        cases acts.symm.trans acts'
        exact notClaim a again at_ user
      · obtain ⟨y, b, acts', _, at_⟩ := frees_acts frees
        cases acts.symm.trans acts'
        exact notFree a at_

/-- A return from `kmutex_lock` is a claim. -/
theorem returns_with_claim (s : Scheduled l.sys) : ReturnsWithClaim a l e := by
  intro x act acts locks user
  obtain ⟨c, rfl, runs, h⟩ := acts_run acts
  rcases act_mutexes s runs h with
    ⟨mutex, again, at_, _, free, mutexes⟩ | ⟨mutex, at_, _⟩ | ⟨_, _, notClaim⟩
  · have same : mutex = a := by simpa [Pc.locks, at_] using locks
    subst same
    have recasts : l.sys.recasts (.run c) = none := by
      simp [Machine.recasts, (executes_eq_some.mp runs).1, runs, at_, Pc.recasts]
    have claims : l.sys.claims (.run c) = some (x.self, mutex) := by
      simp [Machine.claims, acts, at_, user]
    refine ⟨free, ?_, by simp [step, recasts, claims]⟩
    rw [step_commit runs h]
    simp [Machine.commit, mutexes]
  · rw [at_] at locks
    cases locks
  · -- Every other point inside `kmutex_lock` leads back to its test.
    obtain ⟨self, pc, ret⟩ := x
    cases pc with
    | test op again =>
      cases op <;> cases locks
      exact absurd user (notClaim _ again rfl)
    | blocking op =>
      simp only [Machine.act, Option.ite_none_right_eq_some] at h
      obtain ⟨cur, _, h⟩ := Option.bind_eq_some_iff.mp h.2
      obtain ⟨k, _, rfl⟩ := Option.map_eq_some_iff.mp h
      cases user
    | yielding | yielded =>
      cases h
      cases user
    | _ => cases locks

instance (a : Addr) (l : Locks) (e : Event) : Decidable (Legal a l e) :=
  inferInstanceAs (Decidable (_ ∧ _))

/-- Of a free mutex, whatever the threads do: at most one of them holds it, its owner is the holder,
or one killed while it held it, or nobody, and `kmutex_lock` returns to a thread that has claimed it
and to no other. -/
theorem mutual_exclusion {m : Machine} (start : Started m) {a : Addr}
    (init : m.k.mutexes a = kmutexInit) {es : List Event}
    (legal : Run.Along step (Legal a) (Locks.start m) es) :
    Exclusive a (Run.exec step (Locks.start m) es) ∧
      Run.Along step (ReturnsWithClaim a) (Locks.start m) es := by
  have first : Scheduled (Locks.start m).sys ∧ Exclusive a (Locks.start m) := by
    refine ⟨start.scheduled, ?_⟩
    constructor
    case one => exact fun t u held => by cases held
    case owner => exact fun t held => by cases held
    case killed => exact fun t i dead => by cases dead
    case free => exact fun _ _ => congrArg Kmutex.ownerTid init
  have stays (l : Locks) (e : Event) (inv : Scheduled l.sys ∧ Exclusive a l) (legal : Legal a l e) :
      Scheduled (l.step e).sys ∧ Exclusive a (l.step e) :=
    ⟨step_scheduled inv.1 e, exclusive_step inv.1 legal inv.2⟩
  exact ⟨(legal.invariant stays first).2,
    legal.gives stays (fun l e inv _ => returns_with_claim inv.1) first⟩

/-- The second thread waits for the mutex of the first, which is killed when it has unlocked it. -/
def contended : List Event :=
  Event.call 0 (.wait (.kmutexLock 0)) :: Event.run 0 ::
    Event.call 1 (.wait (.kmutexLock 0)) :: List.replicate 7 (Event.run 1) ++
    Event.call 0 (.post (.kmutexUnlock 0)) :: List.replicate 3 (Event.run 0) ++
    Event.call 1 (.taskKillThread 0) :: List.replicate 3 (Event.run 1) ++
    sliceEnd 0 ++ List.replicate 20 (Event.run 0)

theorem contended_exclusive :
    Exclusive 0 (Run.exec step (Locks.start threeThreads) contended) ∧
      Run.Along step (ReturnsWithClaim 0) (Locks.start threeThreads) contended := by
  have boot : AtBoot threeThreads := by decide +kernel
  exact mutual_exclusion boot.started (by decide +kernel) (by decide +kernel)

end Locks

end PicoOS.Kernel
