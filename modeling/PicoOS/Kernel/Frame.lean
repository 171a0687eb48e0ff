import PicoOS.Kernel.Machine

/-!
# What the steps leave alone

Every function of the kernel but `sched_next_thread` leaves `current_tcb[]`
alone, and none but `isr_pendsv` saves a context. One lemma for each function,
then one for the step of a thread.
-/
namespace PicoOS.Kernel

/-! ### What the sections leave alone -/

/-- The current threads and the saved contexts are as before. -/
structure KernelState.Keeps (k k' : KernelState) : Prop where
  current : k'.currentTcb = k.currentTcb
  saved : ∀ t, (k'.tcb t).saved = (k.tcb t).saved

namespace KernelState.Keeps

variable {k k₁ k₂ : KernelState}

theorem refl (k : KernelState) : k.Keeps k := ⟨rfl, fun _ => rfl⟩

theorem trans (h₁ : k.Keeps k₁) (h₂ : k₁.Keeps k₂) : k.Keeps k₂ :=
  ⟨h₂.current.trans h₁.current, fun t => (h₂.saved t).trans (h₁.saved t)⟩

/-- A TCB write that leaves the saved context. -/
theorem setTcb (k : KernelState) {t : Slot} {v : Tcb} (same : v.saved = (k.tcb t).saved) :
    k.Keeps (k.setTcb t v) := by
  refine ⟨rfl, fun u => ?_⟩
  by_cases eq : u = t
  · subst eq
    simp [KernelState.setTcb, same]
  · simp [KernelState.setTcb, eq]

theorem setState (k : KernelState) (t : Slot) (s : ThreadState) : k.Keeps (k.setState t s) :=
  setTcb k rfl

theorem setWaiters (k : KernelState) (w : WaitList) (h : Option Slot) :
    k.Keeps (k.setWaiters w h) := ⟨rfl, fun _ => rfl⟩

end KernelState.Keeps

/-- The primitives, but for their waiter lists. -/
def KernelState.prims (k : KernelState) :
    (Addr → Kmutex) × (Addr → Int32) × (Addr → UInt32) × (Addr → Mqueue) :=
  (k.mutexes, k.semaphores, k.eventFlags, k.queues)

/-- The tid in a slot of the pool. -/
def KernelState.tid (k : KernelState) (t : Slot) : UInt32 := (k.tcb t).tid

/-- So are the primitives and the tids. -/
structure KernelState.Same (k k' : KernelState) : Prop extends k.Keeps k' where
  prims : k'.prims = k.prims
  tid : ∀ t, k'.tid t = k.tid t

namespace KernelState.Same

variable {k k₁ k₂ : KernelState}

theorem refl (k : KernelState) : k.Same k := ⟨.refl k, rfl, fun _ => rfl⟩

theorem trans (h₁ : k.Same k₁) (h₂ : k₁.Same k₂) : k.Same k₂ :=
  ⟨h₁.toKeeps.trans h₂.toKeeps, h₂.prims.trans h₁.prims, fun t => (h₂.tid t).trans (h₁.tid t)⟩

/-- A TCB write that leaves the saved context and the tid. -/
theorem setTcb (k : KernelState) {t : Slot} {v : Tcb} (saved : v.saved = (k.tcb t).saved)
    (tid : v.tid = k.tid t) : k.Same (k.setTcb t v) := by
  refine ⟨.setTcb k saved, rfl, fun u => ?_⟩
  by_cases eq : u = t
  · subst eq
    simp [KernelState.tid, KernelState.setTcb, tid]
  · simp [KernelState.tid, KernelState.setTcb, eq]

theorem setNext (k : KernelState) (t : Slot) (n : Option Slot) : k.Same (k.setNext t n) :=
  setTcb k rfl rfl

theorem setState (k : KernelState) (t : Slot) (s : ThreadState) : k.Same (k.setState t s) :=
  setTcb k rfl rfl

theorem setWaiters (k : KernelState) (w : WaitList) (h : Option Slot) :
    k.Same (k.setWaiters w h) := ⟨.setWaiters k w h, rfl, fun _ => rfl⟩

end KernelState.Same

open KernelState

/-! ### What the scheduler leaves alone -/

/-- A view of the kernel that shows no scheduling: no ready queue, and of a TCB only who it is and
where its context is saved. -/
structure KernelState.Unscheduled {β : Type} (f : KernelState → β) : Prop where
  tcb : ∀ (k : KernelState) t v, v.tid = (k.tcb t).tid → v.pid = (k.tcb t).pid →
    v.saved = (k.tcb t).saved → f (k.setTcb t v) = f k
  ready : ∀ (k : KernelState) p h, f (k.setReady p h) = f k

namespace KernelState.Unscheduled

variable {β : Type} {f : KernelState → β} {k k' : KernelState} {t : Slot} {core : Core}

theorem setNext (h : Unscheduled f) (k : KernelState) (t : Slot) (n : Option Slot) :
    f (k.setNext t n) = f k := h.tcb k t _ rfl rfl rfl

theorem setState (h : Unscheduled f) (k : KernelState) (t : Slot) (s : ThreadState) :
    f (k.setState t s) = f k := h.tcb k t _ rfl rfl rfl

theorem add (h : Unscheduled f) (added : schedAddThreadRaw k t = some k') : f k' = f k := by
  have first := h.setNext k t none
  unfold schedAddThreadRaw at added
  dsimp only at added
  split at added
  next =>
    cases added
    exact (h.ready ..).trans first
  next =>
    obtain ⟨cur, _, rfl⟩ := Option.map_eq_some_iff.mp added
    exact (h.setNext ..).trans first

theorem remove (h : Unscheduled f) (removed : schedRemoveThreadRaw k t = some k') :
    f k' = f k := by
  unfold schedRemoveThreadRaw at removed
  obtain ⟨found, _, rfl⟩ := Option.map_eq_some_iff.mp removed
  match found with
  | none => rfl
  | some none => exact (h.setNext ..).trans (h.ready ..)
  | some (some prev) => exact (h.setNext ..).trans (h.setNext ..)

theorem kill (h : Unscheduled f) {now : Bool} (killed : schedKill k core t = some (k', now)) :
    f k' = f k := by
  unfold schedKill at killed
  split at killed
  next =>
    cases killed
    exact h.setState ..
  next =>
  split at killed
  next =>
    cases killed
    exact h.tcb k t _ rfl rfl rfl
  next =>
  split at killed
  next =>
    cases killed
    exact h.setState ..
  next =>
  split at killed
  next =>
    obtain ⟨k₁, removed, same⟩ := Option.map_eq_some_iff.mp killed
    cases same
    exact (h.setState ..).trans (h.remove removed)
  next =>
    cases killed
    rfl

theorem outgoing (h : Unscheduled f) (k : KernelState) (cur : Option Slot) :
    f (schedOutgoing k cur).1 = f k := by
  cases cur with
  | none => rfl
  | some t =>
    apply h.tcb
    · split <;> split <;> rfl
    · split <;> split <;> rfl
    · split <;> split <;> rfl

theorem rotate (h : Unscheduled f) {p : Prio} {cur : Option Slot}
    (rotated : schedRotate k p cur = some k') : f k' = f k := by
  unfold schedRotate at rotated
  split at rotated
  next =>
    cases rotated
    rfl
  next head =>
  split at rotated
  next =>
    split at rotated
    next =>
      cases rotated
      rfl
    next second _ =>
      obtain ⟨tail, _, rfl⟩ := Option.map_eq_some_iff.mp rotated
      exact ((h.setNext ..).trans (h.setNext ..)).trans (h.ready ..)
  next =>
    cases rotated
    rfl

theorem select (h : Unscheduled f) {cur sel : Option Slot} {ps : List Prio}
    (selected : schedSelect core cur ps k = some (k', sel)) : f k' = f k := by
  induction ps generalizing k with
  | nil =>
    cases selected
    rfl
  | cons p ps ih =>
    obtain ⟨k₁, rotated, selected⟩ := Option.bind_eq_some_iff.mp selected
    obtain ⟨found, _, selected⟩ := Option.bind_eq_some_iff.mp selected
    refine Eq.trans ?_ (h.rotate rotated)
    match found with
    | some t =>
      cases selected
      rfl
    | none => exact ih selected

/-- The selected thread becomes the current one. -/
theorem pick (h : Unscheduled f)
    (current : ∀ (k : KernelState) slices threads,
      f { k with sliceRemaining := slices, currentTcb := threads } = f k)
    {cur r : Option Slot} (picked : schedPick k core cur = some (k', r)) : f k' = f k := by
  obtain ⟨⟨k₁, selected⟩, found, same⟩ := Option.map_eq_some_iff.mp picked
  refine Eq.trans ?_ (h.select found)
  cases selected with
  | none =>
    cases same
    rfl
  | some t =>
    cases same
    exact (current ..).trans (h.setState ..)

end KernelState.Unscheduled

/-- What `Same` compares. -/
def KernelState.shown (k : KernelState) : (Core → Option Slot) × (Slot → Option Ctx) ×
    ((Addr → Kmutex) × (Addr → Int32) × (Addr → UInt32) × (Addr → Mqueue)) × (Slot → UInt32) :=
  (k.currentTcb, fun t => (k.tcb t).saved, k.prims, k.tid)

theorem KernelState.Same.of_shown {k k' : KernelState} (same : k'.shown = k.shown) : k.Same k' := by
  simp only [shown, Prod.mk.injEq] at same
  obtain ⟨current, saved, prims, tid⟩ := same
  exact ⟨⟨current, congrFun saved⟩, prims, congrFun tid⟩

theorem KernelState.unscheduled_shown : Unscheduled KernelState.shown where
  tcb k t v tid _ saved := by
    have same := Same.setTcb k saved tid
    simp only [shown, Prod.mk.injEq]
    exact ⟨same.current, funext same.saved, same.prims, funext same.tid⟩
  ready _ _ _ := rfl

section
variable {k k' : KernelState} {t : Slot} {core : Core}

theorem schedAddThreadRaw_same (h : schedAddThreadRaw k t = some k') : k.Same k' :=
  .of_shown (unscheduled_shown.add h)

theorem schedRemoveThreadRaw_same (h : schedRemoveThreadRaw k t = some k') : k.Same k' :=
  .of_shown (unscheduled_shown.remove h)

theorem schedBlock_same (h : schedBlock k t = some k') : k.Same k' :=
  (Same.setState k t .blocked).trans (schedRemoveThreadRaw_same h)

theorem schedSleep_same (h : schedSleep k t = some k') : k.Same k' :=
  (Same.setState k t .sleeping).trans (schedRemoveThreadRaw_same h)

theorem schedUnblock_same {live : Bool} (h : schedUnblock k t = some (k', live)) : k.Same k' := by
  unfold schedUnblock at h
  split at h
  next =>
    cases h
    exact .refl _
  next =>
    obtain ⟨k₁, added, same⟩ := Option.map_eq_some_iff.mp h
    cases same
    exact (Same.setState k t .ready).trans (schedAddThreadRaw_same added)

theorem schedKill_same {now : Bool} (h : schedKill k core t = some (k', now)) : k.Same k' :=
  .of_shown (unscheduled_shown.kill h)

theorem schedOutgoing_same (k : KernelState) (cur : Option Slot) :
    k.Same (schedOutgoing k cur).1 :=
  .of_shown (unscheduled_shown.outgoing k cur)

theorem schedRotate_same {p : Prio} {cur : Option Slot} (h : schedRotate k p cur = some k') :
    k.Same k' :=
  .of_shown (unscheduled_shown.rotate h)

theorem schedSelect_same {cur sel : Option Slot} {ps : List Prio}
    (h : schedSelect core cur ps k = some (k', sel)) : k.Same k' :=
  .of_shown (unscheduled_shown.select h)

theorem first_eligible {next : Slot → Option Slot} {fuel : Nat} {head : Option Slot}
    {q : Slot → Bool} (h : Chain.first next q fuel head = some (some t)) : q t = true := by
  induction fuel generalizing head with
  | zero => cases head <;> cases h
  | succ fuel ih =>
    cases head with
    | none => cases h
    | some a =>
      unfold Chain.first at h
      split at h
      next test =>
        cases h
        exact test
      next => exact ih h

/-- The selected thread is not current on the other core. -/
theorem schedSelect_apart {cur : Option Slot} {ps : List Prio}
    (h : schedSelect core cur ps k = some (k', some t)) : k.currentTcb core.other ≠ some t := by
  induction ps generalizing k with
  | nil => cases h
  | cons p ps ih =>
    obtain ⟨k₁, rotated, h⟩ := Option.bind_eq_some_iff.mp h
    obtain ⟨found, walk, h⟩ := Option.bind_eq_some_iff.mp h
    rw [← (schedRotate_same rotated).current]
    match found with
    | some u =>
      cases h
      have eligible := first_eligible walk
      simp only [schedEligible, Bool.and_eq_true, decide_eq_true_eq] at eligible
      exact eligible.1.2
    | none => exact ih h

theorem wakeSleepers_same {now : UInt64} {ts : List Slot} (h : wakeSleepers now ts k = some k') :
    k.Same k' := by
  induction ts generalizing k with
  | nil =>
    cases h
    exact .refl _
  | cons t ts ih =>
    unfold wakeSleepers at h
    split at h
    next =>
      obtain ⟨k₁, added, h⟩ := Option.bind_eq_some_iff.mp h
      exact ((Same.setState k t .ready).trans (schedAddThreadRaw_same added)).trans (ih h)
    next => exact ih h

theorem sliceTick_same (k : KernelState) (core : Core) : k.Same (sliceTick k core).1 := by
  unfold sliceTick
  cases k.currentTcb core with
  | none => exact ⟨⟨rfl, fun _ => rfl⟩, rfl, fun _ => rfl⟩
  | some t =>
    have charged := Same.setTcb k (t := t)
      (v := { k.tcb t with cpuTimeUs := (k.tcb t).cpuTimeUs + 1000 }) rfl rfl
    exact ⟨⟨charged.current, charged.saved⟩, charged.prims, charged.tid⟩

theorem isrSystick_same {now : UInt64} {expired : Bool}
    (h : isrSystick k core now = some (k', expired)) : k.Same k' := by
  unfold isrSystick at h
  have slice := sliceTick_same k core
  generalize sliceTick k core = r at h slice
  dsimp only at h
  split at h
  next =>
    cases h
    exact slice
  next =>
    obtain ⟨k₁, woken, same⟩ := Option.map_eq_some_iff.mp h
    cases same
    have counted : r.1.Same { r.1 with tickCount := r.1.tickCount + 1 } := ⟨⟨rfl, fun _ => rfl⟩, rfl, fun _ => rfl⟩
    exact (slice.trans counted).trans (wakeSleepers_same woken)

theorem waiterEnqueue_same {w : WaitList} (h : waiterEnqueue k w t = some k') : k.Same k' := by
  unfold waiterEnqueue at h
  refine (Same.setNext k t none).trans ?_
  generalize k.setNext t none = k₁ at h ⊢
  dsimp only at h
  split at h
  next =>
    cases h
    exact .setWaiters ..
  next =>
    obtain ⟨cur, _, rfl⟩ := Option.map_eq_some_iff.mp h
    exact .setNext ..

theorem waiterDequeue_same (k : KernelState) (w : WaitList) : k.Same (waiterDequeue k w).1 := by
  unfold waiterDequeue
  split
  next => exact .refl _
  next => exact (Same.setWaiters ..).trans (.setNext ..)

theorem eventWaiterAlloc_same (k : KernelState) (t : Slot) (mask : UInt32) (all : Bool) :
    k.Same (eventWaiterAlloc k t mask all) := by
  unfold eventWaiterAlloc
  split
  next => exact .refl _
  next => exact ⟨⟨rfl, fun _ => rfl⟩, rfl, fun _ => rfl⟩

theorem eventWaiterFree_same (k : KernelState) (t : Slot) : k.Same (eventWaiterFree k t) := by
  unfold eventWaiterFree
  split
  next => exact .refl _
  next => exact ⟨⟨rfl, fun _ => rfl⟩, rfl, fun _ => rfl⟩

theorem unlinkWaiter_same (k : KernelState) (e : Addr) (prev : Option Slot) (cur : Slot) :
    k.Same (unlinkWaiter k e prev cur) := by
  cases prev with
  | none => exact (Same.setWaiters ..).trans (.setNext ..)
  | some p => exact (Same.setNext ..).trans (.setNext ..)

theorem waitTake_keeps {op : WaitOp} {s : Section} (h : waitTake k t op = some s) : k.Keeps s.k := by
  cases op with
  | eventFlagsWait =>
    simp only [waitTake, Option.ite_none_right_eq_some, Option.some.injEq] at h
    obtain ⟨_, rfl⟩ := h
    exact .refl _
  | _ =>
    simp only [waitTake, Option.ite_none_right_eq_some, Option.some.injEq] at h
    obtain ⟨_, rfl⟩ := h
    exact ⟨rfl, fun _ => rfl⟩

theorem waitEnqueue_same {op : WaitOp} (h : waitEnqueue k t op = some k') : k.Same k' := by
  unfold waitEnqueue at h
  cases op with
  | eventFlagsWait e mask all =>
    exact (eventWaiterAlloc_same k t mask all).trans (waiterEnqueue_same h)
  | _ => exact waiterEnqueue_same h

theorem postTake_keeps (k : KernelState) (op : PostOp) : k.Keeps (postTake k op).k := by
  cases op with
  | mqueueTrySend | mqueueTryRecv =>
    simp only [postTake]
    split <;> exact ⟨rfl, fun _ => rfl⟩
  | _ => exact ⟨rfl, fun _ => rfl⟩

end

/-- The same but for TCBs that are wiped or made anew. -/
structure KernelState.Frame (k k' : KernelState) : Prop where
  current : k'.currentTcb = k.currentTcb
  saved : ∀ t x, (k'.tcb t).saved = some x → (k.tcb t).saved = some x ∨ x = ⟨t, .user, .none⟩

theorem KernelState.Keeps.frame {k k' : KernelState} (h : k.Keeps k') : k.Frame k' :=
  ⟨h.current, fun t _ saved => .inl (h.saved t ▸ saved)⟩

theorem KernelState.Frame.setTcb (k : KernelState) {t : Slot} {v : Tcb}
    (fresh : ∀ x, v.saved = some x → x = ⟨t, .user, .none⟩) : k.Frame (k.setTcb t v) := by
  refine ⟨rfl, fun u x saved => ?_⟩
  by_cases eq : u = t
  · subst eq
    exact .inr (fresh x (by simpa [KernelState.setTcb] using saved))
  · exact .inl (by simpa [KernelState.setTcb, eq] using saved)

section
variable {k : KernelState} {t : Slot}

/-- `task_free_thread` writes a TCB only where it wipes it. -/
theorem freeStep_same (k : KernelState) (t : Slot) {stage : FreePc} (keeps : ∀ p, stage ≠ .wipe p) :
    k.Same (freeStep k t stage).1 := by
  cases stage with
  | wipe p => exact absurd rfl (keeps p)
  | find =>
    simp only [freeStep]
    split <;> exact .refl k
  | scan p i =>
    simp only [freeStep]
    split
    next =>
      split
      next => exact ⟨⟨rfl, fun _ => rfl⟩, rfl, fun _ => rfl⟩
      next => exact .refl k
    next => exact .refl k
  | shift p j =>
    simp only [freeStep]
    split <;> exact ⟨⟨rfl, fun _ => rfl⟩, rfl, fun _ => rfl⟩
  | clear p => exact ⟨⟨rfl, fun _ => rfl⟩, rfl, fun _ => rfl⟩
  | drop p =>
    simp only [freeStep]
    split
    next => exact ⟨⟨rfl, fun _ => rfl⟩, rfl, fun _ => rfl⟩
    next => exact .refl k
  | wipeProc p => exact ⟨⟨rfl, fun _ => rfl⟩, rfl, fun _ => rfl⟩

theorem freeStep_frame (k : KernelState) (t : Slot) (stage : FreePc) :
    k.Frame (freeStep k t stage).1 := by
  by_cases wipes : ∃ p, stage = .wipe p
  · obtain ⟨p, rfl⟩ := wipes
    exact .setTcb k fun _ h => by cases h
  · exact (freeStep_same k t fun p eq => wipes ⟨p, eq⟩).frame

theorem initThread_frame (k : KernelState) (t : Slot) (a : CreateArgs) :
    k.Frame (initThread k t a) := by
  have write := Frame.setTcb k (t := t) (v := (initThread k t a).tcb t) fun x h => by
    simpa [initThread, KernelState.setTcb, eq_comm] using h
  refine ⟨rfl, fun u x saved => write.saved u x ?_⟩
  by_cases eq : u = t
  · subst eq
    simpa [KernelState.setTcb] using saved
  · simpa [initThread, KernelState.setTcb, eq] using saved

theorem sysExitProc_same (k : KernelState) (pid code : UInt32) :
    k.Same (sysExitProc k pid code) := by
  unfold sysExitProc
  split
  next => exact .refl _
  next => exact ⟨⟨rfl, fun _ => rfl⟩, rfl, fun _ => rfl⟩

/-- Indexing `current_tcb[]` writes nothing. -/
theorem indexStep_cases {k : KernelState} {ret : Ret} {p : Option Slot} {u : Use} {a : Act}
    (h : indexStep k ret p u = some a) :
    a.k = k ∧ ((∃ v, a.pc = .readCore v) ∨ a.pc = .exitLoop ∨ a.pc = .yieldReturn ∨ a.pc = .user ∨
      (∃ q, p = some q ∧ a.pc = .access q u) ∨ ∃ t self, a.pc = .killCore t [] self) := by
  cases u with
  | exitTest code => cases p <;> cases code <;> cases h <;> simp
  | exitTestProc | getpidTest | gettidTest | sleepTest => cases p <;> cases h <;> simp
  | killSelf t =>
    cases h
    simp
  | exitMark | exitPid | getpid | gettid | sleepWake | setAffinity =>
    obtain ⟨q, found, rfl⟩ := Option.map_eq_some_iff.mp h
    exact ⟨rfl, .inr (.inr (.inr (.inr (.inl ⟨q, found, rfl⟩))))⟩

theorem accessStep_cases {k : KernelState} {ret : Ret} {now : UInt64} {p : Slot} {u : Use} {a : Act}
    (h : accessStep k ret now p u = some a) :
    a.pc = .exitLoop ∨ (∃ v, a.pc = .readCore v) ∨ (∃ pid code, a.pc = .exitProc pid code) ∨
      a.pc = .user ∨ a.pc = .sleepLock := by
  cases u with
  | exitMark code => cases code <;> cases h <;> simp
  | exitPid | getpid | gettid | sleepWake | setAffinity =>
    cases h
    simp
  | exitTest | exitTestProc | getpidTest | gettidTest | sleepTest | killSelf => cases h

/-- The step enters the section of a primitive. -/
def Pc.enters : Pc → Bool
  | .test _ _ | .post _ => true
  | _ => false

/-- The TCB that a step wipes or makes anew. -/
def Pc.recasts : Pc → Option Slot
  | .freeing t (.wipe _) _ | .createInit t _ => some t
  | _ => none

/-- Any other step of a thread leaves the current threads, the saved contexts, the primitives and
the tids alone. -/
theorem act_same {m : Machine} {c : Core} {x : Ctx} {a : Act} (h : m.act c x = some a)
    (outside : x.pc.enters = false) (keeps : x.pc.recasts = none) : m.k.Same a.k := by
  obtain ⟨self, pc, ret⟩ := x
  cases pc with
  | user => cases h
  | test | post => cases outside
  | createInit => cases keeps
  | blocking op =>
    simp only [Machine.act, Option.ite_none_right_eq_some] at h
    obtain ⟨_, h⟩ := h
    obtain ⟨cur, _, h⟩ := Option.bind_eq_some_iff.mp h
    obtain ⟨k₁, blocked, rfl⟩ := Option.map_eq_some_iff.mp h
    exact schedBlock_same blocked
  | sleepLock =>
    simp only [Machine.act, Option.ite_none_right_eq_some] at h
    obtain ⟨_, h⟩ := h
    obtain ⟨cur, _, h⟩ := Option.bind_eq_some_iff.mp h
    obtain ⟨k₁, slept, rfl⟩ := Option.map_eq_some_iff.mp h
    exact schedSleep_same slept
  | waking w =>
    cases h
    unfold wakeStep
    have dequeued := waiterDequeue_same m.k w
    split <;> simpa [*] using dequeued
  | scanning e prev cur =>
    cases h
    unfold scanStep
    split
    next => exact .refl _
    next cur =>
    split
    next => exact (unlinkWaiter_same m.k e prev cur).trans (eventWaiterFree_same _ cur)
    next => exact .refl _
  | unblocking t loop =>
    simp only [Machine.act, Option.ite_none_right_eq_some] at h
    obtain ⟨_, h⟩ := h
    obtain ⟨⟨k₁, live⟩, woken, rfl⟩ := Option.map_eq_some_iff.mp h
    exact schedUnblock_same woken
  | freeing t stage caller =>
    cases h
    -- the step that wipes the TCB is left out here
    have freed := freeStep_same m.k t fun p (eq : stage = .wipe p) => by
      rw [eq] at keeps
      cases keeps
    unfold freeingStep
    split <;> simpa [*] using freed
  | index r u =>
    simp only [Machine.act] at h
    rw [(indexStep_cases h).1]
    exact .refl _
  | access p u =>
    simp only [Machine.act] at h
    cases u with
    | exitMark code =>
      cases code <;> cases h <;> exact .setState ..
    | sleepWake ms =>
      cases h
      exact .setTcb m.k rfl rfl
    | setAffinity affinity =>
      cases h
      exact .setTcb m.k rfl rfl
    | exitPid | getpid | gettid =>
      cases h
      exact .refl _
    | exitTest | exitTestProc | getpidTest | gettidTest | sleepTest | killSelf => cases h
  | exitProc pid code =>
    cases h
    exact sysExitProc_same m.k pid code
  | killFind tid =>
    cases h
    unfold killFindStep
    split
    next => exact .refl _
    next => split <;> exact .refl _
  | killLock t r rest yield =>
    simp only [Machine.act, Option.ite_none_right_eq_some] at h
    obtain ⟨_, h⟩ := h
    obtain ⟨⟨k₁, now⟩, killed, rfl⟩ := Option.map_eq_some_iff.mp h
    exact schedKill_same killed
  | killNext rest yield =>
    cases h
    unfold killNextStep
    split <;> exact .refl _
  | snapshot p count taken =>
    cases h
    unfold snapshotStep
    split <;> exact .refl _
  | createFind a =>
    cases h
    unfold createFindStep
    split <;> exact .refl _
  | createAlloc t a =>
    cases h
    unfold createAllocStep
    split
    next => exact .refl _
    next => exact ⟨⟨rfl, fun _ => rfl⟩, rfl, fun _ => rfl⟩
  | createCount t p =>
    cases h
    unfold createCountStep
    split <;> exact .refl _
  | createAdd t =>
    simp only [Machine.act, Option.ite_none_right_eq_some] at h
    obtain ⟨_, h⟩ := h
    obtain ⟨k₁, added, rfl⟩ := Option.map_eq_some_iff.mp h
    exact schedAddThreadRaw_same added
  | procFind pid =>
    cases h
    unfold procFindStep
    split <;> exact .refl _
  | yielding | yielded | readCore | exitLoop | yieldReturn | sleepYield | slept | killCore =>
    cases h
    exact .refl _
  | killProc | createClaim | createLink | procClaim | procFill =>
    cases h
    exact ⟨⟨rfl, fun _ => rfl⟩, rfl, fun _ => rfl⟩

/-- The step from the head of a wait loop. -/
theorem test_cases {m : Machine} {c : Core} {x : Ctx} {a : Act} {op : WaitOp} {again : Bool}
    (at_ : x.pc = .test op again) (h : m.act c x = some a) :
    ∃ cur, m.k.currentTcb c = some cur ∧
      ((∃ s, waitTake m.k cur op = some s ∧ a = ⟨s.k, wakePc s.k s.wakes, s.ret, false⟩) ∨
        (waitTake m.k cur op = none ∧ m.k.Same a.k ∧ a.pc = .blocking op ∧ a.ret = x.ret)) := by
  simp only [Machine.act, at_, Option.ite_none_right_eq_some] at h
  obtain ⟨_, h⟩ := h
  obtain ⟨cur, current, h⟩ := Option.bind_eq_some_iff.mp h
  refine ⟨cur, current, ?_⟩
  unfold testStep at h
  split at h
  next s taken => exact .inl ⟨s, taken, (Option.some.inj h).symm⟩
  next blocked =>
    obtain ⟨k₁, joined, rfl⟩ := Option.map_eq_some_iff.mp h
    exact .inr ⟨blocked, waitEnqueue_same joined, rfl, rfl⟩

theorem post_cases {m : Machine} {c : Core} {x : Ctx} {a : Act} {op : PostOp}
    (at_ : x.pc = .post op) (h : m.act c x = some a) : a = postStep m.k op := by
  simp only [Machine.act, at_, Option.ite_none_right_eq_some] at h
  exact (Option.some.inj h.2).symm

/-- A step of a thread leaves the current threads alone. It saves no context but
that of a new thread. -/
theorem act_frame {m : Machine} {c : Core} {x : Ctx} {a : Act} (h : m.act c x = some a) :
    m.k.Frame a.k := by
  cases at_ : x.pc with
  | test op again =>
    obtain ⟨cur, _, ⟨s, taken, rfl⟩ | ⟨_, same, _⟩⟩ := test_cases at_ h
    · exact (waitTake_keeps taken).frame
    · exact same.frame
  | post op =>
    rw [post_cases at_ h]
    exact (postTake_keeps m.k op).frame
  | freeing t stage caller =>
    simp only [Machine.act, at_, Option.some.injEq] at h
    rw [← h]
    unfold freeingStep
    have freed := freeStep_frame m.k t stage
    split <;> simpa [*] using freed
  | createInit t args =>
    simp only [Machine.act, at_, Option.some.injEq] at h
    rw [← h]
    unfold createInitStep
    split <;> exact initThread_frame m.k t args
  | _ => exact (act_same h (by rw [at_]; rfl) (by rw [at_]; rfl)).frame

end

end PicoOS.Kernel
