import PicoOS.Kernel.Boot
import PicoOS.Kernel.Prims
import PicoOS.Kernel.Select
import Mathlib

/-!
# Starting core 1

`core1_entry` waits for core 0 to schedule, and `sched_start_core1` then claims a
READY thread under `sched_lock` and, with the lock released, reads its entry and
argument from the frame at its `saved_sp`. Core 0 runs threads all the while. The
frame is the one that `task_create_thread` has laid down exactly if the thread has
never been current on core 0.
-/
namespace PicoOS.Kernel

open KernelState

/-! ### sched_start_core1 -/

/-- A thread that `sched_start_core1` may start. -/
def startEligible (k : KernelState) (t : Slot) : Bool :=
  k.state t = .ready && ((k.tcb t).affinity = none || (k.tcb t).affinity = some 1)

/-- The scan of the ready queues; `none` for a queue that never ends. -/
def startScan (k : KernelState) : List Prio → Option (Option Slot)
  | [] => some none
  | p :: ps =>
    (Chain.first k.next (startEligible k) maxThreads (k.readyQueues p)).bind fun first =>
      match first with
      | some t => some (some t)
      | none => startScan k ps

/-- The section of `sched_start_core1`. -/
def schedStartCore1 (k : KernelState) : Option (KernelState × Option Slot) :=
  (startScan k (List.finRange numPriorities)).map fun first =>
    match first with
    | none => (k, none)
    | some t =>
      ({ k.setState t .running with currentTcb := Function.update k.currentTcb 1 (some t) }, some t)

/-- Where core 1 has got to. -/
inductive Core1 where
  /-- In the loop of `core1_entry`. -/
  | waiting
  | choosing
  /-- The thread is claimed and the lock released. -/
  | reading (t : Slot)
  /-- In the entry function of the thread, as read from this frame. -/
  | called (t : Slot) (frame : Option Ctx)
  /-- No ready thread for core 1. -/
  | panicked
  deriving DecidableEq

/-- The machine, with core 1 in its start sequence. `fresh` is true of a TCB from the time
`task_create_thread` lays down its frame until it is current on core 0 or wiped. -/
structure Startup where
  m : Machine
  fresh : Slot → Bool
  core1 : Core1

inductive StartEvent where
  | os (e : Event)
  /-- Core 1 takes its next step towards its first thread. -/
  | core1

/-- The TCB whose frame an event lays down. -/
def Machine.lays (m : Machine) : Event → Option Slot
  | .run c =>
    match m.executes c with
    | some ⟨_, .createInit t _, _⟩ => some t
    | _ => none
  | _ => none

namespace Startup

def freshAfter (s : Startup) (e : Event) (t : Slot) : Bool :=
  if (s.m.step e).k.currentTcb 0 = some t then
    false
  else if s.m.lays e = some t then
    true
  else if s.m.recasts e = some t then
    false
  else
    s.fresh t

def core1Step (s : Startup) : Startup :=
  match s.core1 with
  | .waiting =>
    if s.m.k.currentTcb 0 = none then
      s
    else
      -- sched_init_core1
      { s with
        m.k.sliceRemaining := Function.update s.m.k.sliceRemaining 1 timeSliceMs
        core1 := .choosing }
  | .choosing =>
    if s.m.schedFree 1 then
      match schedStartCore1 s.m.k with
      | none => s
      | some (k, none) => { s with m.k := k, core1 := .panicked }
      | some (k, some t) => { s with m.k := k, core1 := .reading t }
    else
      s
  | .reading t =>
    let frame := (s.m.k.tcb t).saved
    { s with
      m := s.m.setCpu 1 (frame.elim .halted .thread)
      core1 := .called t frame }
  | .called _ _ | .panicked => s

def step (s : Startup) : StartEvent → Startup
  | .os e => { s with m := s.m.step e, fresh := s.freshAfter e }
  | .core1 => s.core1Step

/-- Core 0 has just started its first thread. -/
def start (m : Machine) : Startup where
  m := m
  fresh t := m.k.currentTcb 0 ≠ some t && (m.k.tcb t).saved.isSome
  core1 := .waiting

/-- The thread that core 1 has claimed is not current on core 0 and has never run, and it is
started in its initial context. -/
def StartsFresh (s : Startup) : Prop :=
  (∀ t, s.core1 = .reading t →
    s.m.k.currentTcb 0 ≠ some t ∧ s.fresh t = true ∧ (s.m.k.tcb t).saved = some ⟨t, .user, .none⟩) ∧
  ∀ t frame, s.core1 = .called t frame → frame = some ⟨t, .user, .none⟩

end Startup

/-! ### What a step of the machine moves -/

/-- The core that an event is about. -/
def Event.core : Event → Core
  | .call c _ | .run c | .sysTick c => c
  | .elapse _ => 0

/-- A step of one core: the other core and its current thread stay, and a saved context changes
only in a TCB that is recast or belongs to the current thread. -/
structure Moves (m : Machine) (e : Event) (c : Core) (m' : Machine) : Prop where
  cpu : ∀ d, d ≠ c → m'.cpu d = m.cpu d
  current : ∀ d, d ≠ c → m'.k.currentTcb d = m.k.currentTcb d
  saved : ∀ t, m.recasts e ≠ some t →
    (m'.k.tcb t).saved = (m.k.tcb t).saved ∨ m'.k.currentTcb c = some t

namespace Moves

variable {m m' : Machine} {e : Event} {c : Core}

theorem keeps (k : m.k.Keeps m'.k) (cpu : ∀ d, d ≠ c → m'.cpu d = m.cpu d) : Moves m e c m' where
  cpu := cpu
  current d _ := congrFun k.current d
  saved t _ := .inl (k.saved t)

theorem refl (m : Machine) (e : Event) (c : Core) : Moves m e c m := keeps (.refl _) fun _ _ => rfl

/-- One core moves, and the kernel state keeps what the scheduler leaves alone. -/
theorem setCpu {v : Cpu} (k : m.k.Keeps m'.k) (cpu : m'.cpu = Function.update m.cpu c v) :
    Moves m e c m' := by
  apply keeps k
  intro d other
  rw [cpu, Function.update_of_ne other]

end Moves

section

variable {m : Machine} {e : Event} {c : Core}

theorem pick_moves {cur : Option Slot} {k : KernelState} (same : m.k.Keeps k) :
    Moves m e c ({ m with k := k }.pick c cur) := by
  have picked {k' : KernelState} {r : Option Slot} (h : schedPick k c cur = some (k', r)) (v : Cpu) :
      Moves m e c { m with k := k', cpu := Function.update m.cpu c v } := by
    obtain ⟨saved, ⟨current, -⟩ | ⟨t, -, -, current⟩⟩ := schedPick_cases h
    · exact .setCpu (same.trans ⟨current, saved⟩) rfl
    · refine ⟨fun d other => Function.update_of_ne other .., fun d other => ?_, fun u _ => .inl ?_⟩
      · rw [← same.current, current, Function.update_of_ne other]
      · exact (saved u).trans (same.saved u)
  unfold Machine.pick
  split
  next => exact .keeps same fun _ _ => rfl
  next h => exact picked h .halted
  next t h => exact picked h (.resuming t)

theorem nextThread_moves : Moves m e c (m.nextThread c) := by
  unfold Machine.nextThread
  have outgoing := schedOutgoing_same m.k (m.k.currentTcb c)
  dsimp only
  generalize schedOutgoing m.k (m.k.currentTcb c) = r at outgoing ⊢
  split
  next k t _ =>
    split
    next => exact .refl ..
    next removed =>
      exact .setCpu (outgoing.toKeeps.trans (schedRemoveThreadRaw_same removed).toKeeps) rfl
  next => exact pick_moves outgoing.toKeeps

theorem freeStep_saved (k : KernelState) {t u : Slot} {stage : FreePc}
    (other : ∀ p, stage = .wipe p → u ≠ t) :
    ((freeStep k t stage).1.tcb u).saved = (k.tcb u).saved := by
  by_cases wipes : ∃ p, stage = .wipe p
  · obtain ⟨p, rfl⟩ := wipes
    simp [freeStep, KernelState.setTcb, other p rfl]
  · exact (freeStep_same k t fun p eq => wipes ⟨p, eq⟩).saved u

/-- A step of a thread leaves the saved contexts alone, but in a TCB that it wipes or makes anew. -/
theorem act_saved {x : Ctx} {a : Act} (h : m.act c x = some a) {u : Slot}
    (other : x.pc.recasts ≠ some u) : (a.k.tcb u).saved = (m.k.tcb u).saved := by
  cases at_ : x.pc with
  | test op again =>
    obtain ⟨cur, _, ⟨s, taken, rfl⟩ | ⟨_, same, _⟩⟩ := test_cases at_ h
    · exact (waitTake_keeps taken).saved u
    · exact same.saved u
  | post op =>
    rw [post_cases at_ h]
    exact (postTake_keeps m.k op).saved u
  | freeing t stage caller =>
    simp only [Machine.act, at_, Option.some.injEq] at h
    have freed := freeStep_saved m.k fun p (wipe : stage = .wipe p) (same : u = t) => by
      rw [at_, wipe, same] at other
      exact other rfl
    rw [← h]
    unfold freeingStep
    split <;> simpa [*] using freed
  | createInit t args =>
    simp only [Machine.act, at_, Option.some.injEq] at h
    have apart : u ≠ t := by
      intro same
      rw [at_, same] at other
      exact other rfl
    rw [← h]
    unfold createInitStep
    split <;> simp [initThread, KernelState.setTcb, apart]
  | _ => exact (act_same h (by rw [at_]; rfl) (by rw [at_]; rfl)).saved u

end

theorem step_moves (m : Machine) (e : Event) : Moves m e e.core (m.step e) := by
  cases e with
  | call c call =>
    simp only [Machine.step, Machine.callStep, Event.core]
    split
    next =>
      split
      next => exact .setCpu (.refl _) rfl
      next => exact .refl ..
    next => exact .refl ..
  | sysTick c =>
    simp only [Machine.step, Machine.tickStep, Event.core]
    split
    next =>
      split
      next => exact .refl ..
      next tick => exact .keeps (isrSystick_same tick).toKeeps fun _ _ => rfl
    next => exact .refl ..
  | elapse us => exact .keeps (.refl _) fun _ _ => rfl
  | run c =>
    simp only [Event.core]
    cases at_ : m.cpu c with
    | thread x =>
      by_cases taken : (m.pendSv c && m.irqsOn c) = true
      · have entry : m.step (.run c) = m.pendSvEntry c x := by
          simp only [Machine.step, Machine.runStep, at_, if_pos taken]
        rw [entry]
        unfold Machine.pendSvEntry
        split
        next => exact .setCpu (.refl _) rfl
        next t current =>
          -- The context goes into the TCB of the core's current thread.
          refine ⟨fun d other => Function.update_of_ne other .., fun _ _ => rfl, fun u _ => ?_⟩
          by_cases own : u = t
          · right
            rw [own]
            exact current
          · left
            simp [KernelState.setTcb, own]
      · have runs : m.executes c = some x := by simp only [Machine.executes, at_, if_neg taken]
        cases h : m.act c x with
        | none =>
          have stays : m.step (.run c) = m := by
            simp only [Machine.step, Machine.runStep, at_, if_neg taken, h]
          rw [stays]
          exact .refl ..
        | some a =>
          rw [step_commit runs h]
          refine ⟨fun d other => Function.update_of_ne other .., fun d _ => ?_, fun u other => .inl ?_⟩
          · exact congrFun (act_frame h).current d
          · apply act_saved h
            simpa [Machine.recasts, at_, runs] using other
    | switching =>
      simp only [Machine.step, Machine.runStep, at_]
      split
      next => exact nextThread_moves
      next => exact .refl ..
    | reaping t stage =>
      simp only [Machine.step, Machine.runStep, at_, Machine.reapStep]
      have current := (freeStep_frame m.k t stage).current
      have saved (u : Slot) (other : m.recasts (.run c) ≠ some u) :=
        freeStep_saved m.k fun p (wipe : stage = .wipe p) (same : u = t) => by
          rw [Machine.recasts, at_, wipe, same] at other
          exact other rfl
      generalize freeStep m.k t stage = r at current saved ⊢
      have moved (v : Cpu) : Moves m (.run c) c { m.setCpu c v with k := r.1 } :=
        ⟨fun d other => Function.update_of_ne other .., fun d _ => congrFun current d,
          fun u other => .inl (saved u other)⟩
      split <;> exact moved _
    | reaped =>
      simp only [Machine.step, Machine.runStep, at_]
      exact pick_moves (.refl _)
    | resuming t =>
      simp only [Machine.step, Machine.runStep, at_, Machine.resume]
      have moved (v : Cpu) : Moves m (.run c) c { m.setCpu c v with
          k := { m.k with currentTcb := Function.update m.k.currentTcb c (some t) } } :=
        ⟨fun d other => Function.update_of_ne other .., fun d other => Function.update_of_ne other ..,
          fun _ _ => .inl rfl⟩
      split <;> exact moved _
    | halted =>
      simp only [Machine.step, Machine.runStep, at_]
      exact .refl ..

/-- A core that is halted takes no step. -/
theorem step_halted {m : Machine} {c : Core} (at_ : m.cpu c = .halted) {e : Event}
    (own : e.core = c) (timed : ∀ us, e ≠ .elapse us) : m.step e = m := by
  cases e with
  | call d call =>
    cases own
    simp only [Machine.step, Machine.callStep, Event.core] at at_ ⊢
    rw [at_]
  | sysTick d =>
    cases own
    simp only [Machine.step, Machine.tickStep, Machine.irqsOn, Event.core] at at_ ⊢
    simp [at_]
  | run d =>
    cases own
    simp only [Machine.step, Machine.runStep, Event.core] at at_ ⊢
    rw [at_]
  | elapse us => exact absurd rfl (timed us)

/-- The frame that is laid down is the initial one. -/
theorem lays_saved {m : Machine} {e : Event} {t : Slot} (lays : m.lays e = some t) :
    ((m.step e).k.tcb t).saved = some ⟨t, .user, .none⟩ := by
  cases e with
  | run c =>
    simp only [Machine.lays] at lays
    split at lays
    next self u a ret runs =>
      cases lays
      have made : m.act c ⟨self, .createInit t a, ret⟩ = some (createInitStep m.k ret t a) := rfl
      rw [step_commit runs made]
      unfold createInitStep
      simp only [Machine.commit]
      split <;> simp [initThread, KernelState.setTcb]
    next => cases lays
  | call | sysTick | elapse => cases lays

/-! ### The scan as a list -/

/-- The threads that the scan can visit, in order: the queues up to the first that never ends. -/
def startOrder (k : KernelState) : List Prio → List Slot
  | [] => []
  | p :: ps =>
    k.queue p ++ if Chain.ends k.next maxThreads (k.readyQueues p) then startOrder k ps else []

theorem startScan_eq_some {k : KernelState} {ps : List Prio} {t : Slot} :
    startScan k ps = some (some t) ↔ (startOrder k ps).find? (startEligible k) = some t := by
  induction ps with
  | nil => simp [startScan, startOrder]
  | cons p ps ih =>
    simp only [startScan, startOrder, Chain.first_nodes, List.find?_append, KernelState.queue]
    cases (Chain.nodes k.next maxThreads (k.readyQueues p)).find? (startEligible k) with
    | some u => simp
    | none =>
      by_cases ends : Chain.ends k.next maxThreads (k.readyQueues p) = true
      · simpa [ends] using ih
      · simp [ends]

/-- The first element that meets `p` meets `q`, exactly if each that meets `p` and not `q` comes
after one that meets both. -/
theorem find?_meets {l : List Slot} {p q : Slot → Bool} :
    (∀ t, l.find? p = some t → q t = true) ↔
      ∀ before t after, l = before ++ t :: after → p t = true → q t = false →
        ∃ u ∈ before, p u = true ∧ q u = true := by
  constructor
  · -- an element that meets `p` only is not the one found, so that one comes before it
    intro meets before t after split fits stale
    have whole : l.find? p = (before.find? p).or (some t) := by
      rw [split, List.find?_append, List.find?_cons_of_pos fits]
    cases early : before.find? p with
    | some u =>
      rw [early] at whole
      exact ⟨u, List.mem_of_find?_eq_some early, List.find?_some early, meets u whole⟩
    | none =>
      rw [early] at whole
      rw [meets t whole] at stale
      cases stale
  · intro ahead t found
    obtain ⟨fits, before, after, split, earlier⟩ := List.find?_eq_some_iff_append.mp found
    cases stale : q t with
    | true => rfl
    | false =>
      obtain ⟨u, member, this, -⟩ := ahead before t after split fits stale
      have not_ := earlier u member
      rw [this] at not_
      cases not_

/-! ### Runs -/

/-- With core 1 halted, what has to hold is about core 0. -/
theorem scheduled_of_halted {m : Machine} (halted : m.cpu 1 = .halted)
    (live : ∀ x, m.cpu 0 = .thread x → m.k.currentTcb 0 = some x.self)
    (resuming : ∀ t, m.cpu 0 = .resuming t → m.k.currentTcb 0 = some t)
    (saved : ∀ t x, (m.k.tcb t).saved = some x → x.self = t)
    (apart : m.k.currentTcb 0 ≠ m.k.currentTcb 1) : Scheduled m where
  live c x run := by
    rcases Core.eq_or_other 0 c with rfl | rfl
    · exact live x run
    · rw [show Core.other 0 = 1 from rfl, halted] at run
      cases run
  resuming c t run := by
    rcases Core.eq_or_other 0 c with rfl | rfl
    · exact resuming t run
    · rw [show Core.other 0 = 1 from rfl, halted] at run
      cases run
  saved := saved
  apart c := by
    rcases Core.eq_or_other 0 c with rfl | rfl
    · exact apart
    · exact Ne.symm apart

namespace Startup

/-- What a step needs for core 1 to start a fresh thread: in the order of the scan each READY
thread that is not fresh comes after one that is, and until its frame is read the claimed
thread's TCB is not wiped. -/
def FreshFirst (s : Startup) : StartEvent → Prop
  | .core1 => s.core1 = .choosing → s.m.schedFree 1 = true → ∀ before t after,
      startOrder s.m.k (List.finRange numPriorities) = before ++ t :: after →
        startEligible s.m.k t = true → s.fresh t = false →
          ∃ u ∈ before, startEligible s.m.k u = true ∧ s.fresh u = true
  | .os e => ∀ t, s.core1 = .reading t → s.m.recasts e = some t → s.m.lays e = some t

/-- The thread that core 1 has claimed and not yet called. -/
def claimed (s : Startup) : Option Slot :=
  match s.core1 with
  | .reading t => some t
  | _ => none

/-- Until core 1 calls its first thread. -/
structure Underway (s : Startup) : Prop where
  early : ∀ t frame, s.core1 ≠ .called t frame
  scheduled : Scheduled s.m
  halted : s.m.cpu 1 = .halted
  current : s.m.k.currentTcb 1 = s.claimed
  fresh : ∀ t, s.fresh t = true →
    s.m.k.currentTcb 0 ≠ some t ∧ (s.m.k.tcb t).saved = some ⟨t, .user, .none⟩
  claim : ∀ t, s.core1 = .reading t → s.fresh t = true

/-- Under way, or started in the initial context. -/
def Fine (s : Startup) : Prop :=
  s.Underway ∨ ∃ t, s.core1 = .called t (some ⟨t, .user, .none⟩)

variable {s : Startup}

theorem Fine.startsFresh (fine : s.Fine) : s.StartsFresh := by
  rcases fine with under | ⟨t, called⟩
  · refine ⟨fun t reading => ?_, fun t frame called => absurd called (under.early t frame)⟩
    have fresh := under.claim t reading
    exact ⟨(under.fresh t fresh).1, fresh, (under.fresh t fresh).2⟩
  · refine ⟨fun u reading => ?_, fun u frame again => ?_⟩
    · rw [called] at reading
      cases reading
    · rw [called] at again
      cases again
      rfl

/-- Core 1 takes no other step. -/
theorem Underway.still (under : s.Underway) {e : Event} (own : e.core = 1) : s.m.step e = s.m := by
  apply step_halted under.halted own
  rintro us rfl
  simp [Event.core] at own

/-- The halted core 1 is left alone. -/
theorem Underway.elsewhere (under : s.Underway) (e : Event) :
    (s.m.step e).cpu 1 = .halted ∧ (s.m.step e).k.currentTcb 1 = s.claimed := by
  rw [← under.current, ← under.halted]
  rcases Core.eq_or_other 0 e.core with zero | one
  · have moves := step_moves s.m e
    rw [zero] at moves
    exact ⟨moves.cpu 1 (by decide), moves.current 1 (by decide)⟩
  · rw [under.still one]
    exact ⟨rfl, rfl⟩

/-- A frame stays as it was laid down while its thread is fresh. -/
theorem Underway.freshAfter (under : s.Underway) {e : Event} {t : Slot}
    (fresh : s.freshAfter e t = true) :
    (s.m.step e).k.currentTcb 0 ≠ some t ∧
      ((s.m.step e).k.tcb t).saved = some ⟨t, .user, .none⟩ := by
  simp only [Startup.freshAfter] at fresh
  split at fresh
  next => cases fresh
  next away =>
    refine ⟨away, ?_⟩
    split at fresh
    next lays => exact lays_saved lays
    next =>
      split at fresh
      next => cases fresh
      next other =>
        have before := (under.fresh t fresh).2
        rcases Core.eq_or_other 0 e.core with zero | one
        · have moves := step_moves s.m e
          rw [zero] at moves
          rcases moves.saved t other with same | current
          · rw [same, before]
          · exact absurd current away
        · rw [under.still one, before]

/-- While core 1 has not called its thread, a step of core 0 keeps the claim exactly if it does
not wipe the claimed TCB. -/
theorem Underway.claim_iff (under : s.Underway) (e : Event) :
    (∀ t, s.core1 = .reading t → s.freshAfter e t = true) ↔ s.FreshFirst (.os e) := by
  refine forall_congr' fun t => forall_congr' fun reading => ?_
  have claimed : s.claimed = some t := by simp [claimed, reading]
  -- The other core never takes the claimed thread.
  have away : (s.m.step e).k.currentTcb 0 ≠ some t := by
    have apart := (step_scheduled under.scheduled e).apart 0
    rw [show Core.other 0 = 1 from rfl, (under.elsewhere e).2, claimed] at apart
    exact apart
  have fresh := under.claim t reading
  simp only [Startup.freshAfter, if_neg away]
  by_cases lays : s.m.lays e = some t
  · simp [lays]
  · by_cases recasts : s.m.recasts e = some t
    · simp [lays, recasts]
    · simp [lays, recasts, fresh]

theorem Underway.os (under : s.Underway) {e : Event} (first : s.FreshFirst (.os e)) :
    (s.step (.os e)).Underway where
  early := under.early
  scheduled := step_scheduled under.scheduled e
  halted := (under.elsewhere e).1
  current := (under.elsewhere e).2
  fresh _ fresh := under.freshAfter fresh
  claim := (under.claim_iff e).mpr first

/-- What the section of `sched_start_core1` does. -/
theorem schedStartCore1_some {k k' : KernelState} {t : Slot}
    (h : schedStartCore1 k = some (k', some t)) :
    startScan k (List.finRange numPriorities) = some (some t) ∧
      k'.currentTcb = Function.update k.currentTcb 1 (some t) ∧
      ∀ u, (k'.tcb u).saved = (k.tcb u).saved := by
  obtain ⟨first, scanned, same⟩ := Option.map_eq_some_iff.mp h
  cases first with
  | none => cases same
  | some u =>
    cases same
    exact ⟨scanned, rfl, (Keeps.setState k t .running).saved⟩

theorem schedStartCore1_none {k k' : KernelState} (h : schedStartCore1 k = some (k', none)) :
    k' = k := by
  obtain ⟨first, -, same⟩ := Option.map_eq_some_iff.mp h
  cases first with
  | none =>
    cases same
    rfl
  | some u => cases same

/-- Core 1 goes on without a claim. -/
theorem Underway.unclaimed (under : s.Underway) {s' : Startup} (keeps : s.m.k.Keeps s'.m.k)
    (cpu : s'.m.cpu = s.m.cpu) (same : s'.fresh = s.fresh) (before : s.claimed = none)
    (after : s'.claimed = none) (early : ∀ t frame, s'.core1 ≠ .called t frame) : s'.Underway where
  early := early
  scheduled := under.scheduled.keeps keeps cpu
  halted := by
    rw [cpu]
    exact under.halted
  current := by rw [keeps.current, under.current, before, after]
  fresh t fresh := by
    rw [same] at fresh
    rw [keeps.current, keeps.saved]
    exact under.fresh t fresh
  claim t reading := by simp [claimed, reading] at after

/-- The claim of a fresh thread. -/
theorem Underway.choose (under : s.Underway) {k : KernelState} {t : Slot}
    (chosen : schedStartCore1 s.m.k = some (k, some t)) (fresh : s.fresh t = true) :
    Underway { s with m.k := k, core1 := .reading t } := by
  obtain ⟨-, current, saved⟩ := schedStartCore1_some chosen
  have theirs : k.currentTcb 0 = s.m.k.currentTcb 0 := by simp [current]
  have mine : k.currentTcb 1 = some t := by simp [current]
  have scheduled : Scheduled { s.m with k := k } := by
    apply scheduled_of_halted (m := { s.m with k := k }) under.halted
    · exact fun x run => theirs.trans (under.scheduled.live 0 x run)
    · exact fun u run => theirs.trans (under.scheduled.resuming 0 u run)
    · intro u x h
      rw [saved u] at h
      exact under.scheduled.saved u x h
    · rw [theirs, mine]
      exact (under.fresh t fresh).1
  refine ⟨fun _ _ h => ?_, scheduled, under.halted, mine, fun u freshU => ?_, fun u reading => ?_⟩
  · cases h
  · rw [theirs, saved u]
    exact under.fresh u freshU
  · cases reading
    exact fresh

/-- What the scan finds is fresh, exactly if fresh threads come first. -/
theorem firstFresh_iff (choosing : s.core1 = .choosing) (free : s.m.schedFree 1 = true) :
    s.FreshFirst .core1 ↔
      ∀ t, startScan s.m.k (List.finRange numPriorities) = some (some t) → s.fresh t = true := by
  simp only [startScan_eq_some, find?_meets]
  simp [FreshFirst, choosing, free]

theorem Fine.step (fine : s.Fine) {e : StartEvent} (first : s.FreshFirst e) : (s.step e).Fine := by
  rcases fine with under | ⟨t, called⟩
  · cases e with
    | os e => exact .inl (under.os first)
    | core1 =>
      simp only [Startup.step, core1Step]
      split
      next waiting =>
        split
        next => exact .inl under
        next =>
          refine .inl (under.unclaimed ⟨rfl, fun _ => rfl⟩ rfl rfl ?_ rfl fun _ _ h => ?_)
          · simp [claimed, waiting]
          · cases h
      next choosing =>
        split
        next free =>
          split
          next => exact .inl under
          next k h =>
            rw [schedStartCore1_none h]
            refine .inl (under.unclaimed (.refl _) rfl rfl ?_ rfl fun _ _ h => ?_)
            · simp [claimed, choosing]
            · cases h
          next k t h =>
            have fresh := (firstFresh_iff choosing free).mp first t (schedStartCore1_some h).1
            exact .inl (under.choose h fresh)
        next => exact .inl under
      next t reading =>
        -- the context that core 1 loads is the one its creation has saved
        have saved := (under.fresh t (under.claim t reading)).2
        exact .inr ⟨t, by rw [saved]⟩
      next => exact .inl under
      next => exact .inl under
  · right
    refine ⟨t, ?_⟩
    cases e with
    | os e => exact called
    | core1 => simp only [Startup.step, core1Step, called]

/-- A step to a state in which core 1 starts a fresh thread meets the condition. -/
theorem Fine.needed (fine : s.Fine) {e : StartEvent} (starts : (s.step e).StartsFresh) :
    s.FreshFirst e := by
  rcases fine with under | ⟨t, called⟩
  · cases e with
    | os e => exact (under.claim_iff e).mp fun t reading => (starts.1 t reading).2.1
    | core1 =>
      intro choosing free
      refine (firstFresh_iff choosing free).mpr ?_ choosing free
      intro t found
      have stepped : (s.step .core1).core1 = .reading t ∧ (s.step .core1).fresh = s.fresh := by
        simp [Startup.step, core1Step, choosing, free, schedStartCore1, found]
      rw [← stepped.2]
      exact (starts.1 t stepped.1).2.1
  · cases e with
    | os e =>
      intro u reading
      rw [called] at reading
      cases reading
    | core1 =>
      intro choosing
      rw [called] at choosing
      cases choosing

end Startup

/-- Core 0 runs its first thread, no other thread has run, and core 1 has none. -/
def AfterStart (m : Machine) : Prop :=
  (∃ t, m.cpu 0 = .thread ⟨t, .user, .none⟩ ∧ m.k.currentTcb 0 = some t) ∧
    m.cpu 1 = .halted ∧ m.k.currentTcb 1 = none ∧
    ∀ t, (m.k.tcb t).saved = none ∨ (m.k.tcb t).saved = some ⟨t, .user, .none⟩

instance (m : Machine) : Decidable (AfterStart m) := inferInstanceAs (Decidable (_ ∧ _ ∧ _ ∧ _))

theorem AfterStart.underway {m : Machine} (after : AfterStart m) : (Startup.start m).Underway := by
  obtain ⟨⟨t₀, run, current⟩, halted, idle, saved⟩ := after
  have scheduled : Scheduled m := by
    apply scheduled_of_halted halted
    · intro x at_
      rw [run] at at_
      cases at_
      exact current
    · intro t at_
      rw [run] at at_
      cases at_
    · intro t x h
      rcases saved t with none_ | frame
      · rw [none_] at h
        cases h
      · rw [frame] at h
        cases h
        rfl
    · rw [current, idle]
      simp
  refine ⟨fun _ _ h => ?_, scheduled, halted, idle, fun t fresh => ?_, fun _ h => ?_⟩
  · cases h
  · simp only [Startup.start, Bool.and_eq_true, decide_eq_true_eq] at fresh
    refine ⟨fresh.1, ?_⟩
    rcases saved t with none_ | frame
    · rw [none_] at fresh
      cases fresh.2
    · exact frame
  · cases h

/-- In every run of the two cores core 1 starts a thread that is not current on core 0 and has
never run, exactly if each step puts the fresh threads first. -/
theorem core1_starts_fresh_iff {m : Machine} (after : AfterStart m) (es : List StartEvent) :
    (∀ pre, pre <+: es → (Run.exec Startup.step (.start m) pre).StartsFresh) ↔
      Run.Along Startup.step Startup.FreshFirst (.start m) es :=
  Run.throughout_iff_along (I := Startup.Fine) (fun _ fine => fine.startsFresh)
    (fun _ _ fine first => fine.step first) (fun _ _ fine starts => fine.needed starts)
    (.inl after.underway) es

/-- The threads of `main`: an idle one pinned to each core, and the shell, which core 0 runs. -/
def mainThreads : Machine :=
  let k := taskCreateProcess (taskCreateProcess taskInit 1) 2
  let k := taskCreateThread (taskCreateThread (taskCreateThread k 0 7) 0 7) 1 2
  let k := k.setTcb 0 { k.tcb 0 with affinity := some 0 }
  let k := k.setTcb 1 { k.tcb 1 with affinity := some 1 }
  { k := schedStart k 0
    cpu := fun c => if c = 0 then .thread ⟨2, .user, .none⟩ else .halted
    pendSv := fun _ => false
    now := 0 }

/-- Where all threads that core 1 may start are fresh, it starts a fresh one. -/
theorem freshFirst_of_fresh {s : Startup}
    (all : ∀ t ∈ startOrder s.m.k (List.finRange numPriorities),
      startEligible s.m.k t = true → s.fresh t = true) : s.FreshFirst .core1 := by
  intro _ _ before t after order eligible stale
  have member : t ∈ startOrder s.m.k (List.finRange numPriorities) := by
    rw [order]
    exact List.mem_append_right before List.mem_cons_self
  rw [all t member eligible] at stale
  cases stale

/-- Core 1 starts its idle thread. -/
theorem core1_starts_fresh_mainThreads :
    (Run.exec Startup.step (.start mainThreads)
      [.core1, .os (.sysTick 0), .core1, .core1]).StartsFresh := by
  have along : Run.Along Startup.step Startup.FreshFirst (.start mainThreads)
      [.core1, .os (.sysTick 0), .core1, .core1] := by
    refine ⟨?_, ?_, ?_, ?_, trivial⟩
    · exact freshFirst_of_fresh (by decide +kernel)
    · intro t reading
      revert t
      decide +kernel
    · exact freshFirst_of_fresh (by decide +kernel)
    · exact freshFirst_of_fresh (by decide +kernel)
  exact (core1_starts_fresh_iff (by decide +kernel) _).mpr along _ (List.prefix_refl _)

/-- Core 1 is delayed while the shell sleeps and is woken, before the PendSV of core 0. -/
def wokenEarly : List StartEvent :=
  StartEvent.core1 :: StartEvent.os (.call 0 (.sleep 1)) ::
    List.replicate 6 (StartEvent.os (.run 0)) ++ [.os (.elapse 1000), .os (.sysTick 0), .core1]

/-- Core 1 claims the shell, which is still current on core 0. -/
theorem wokenEarly_claimed :
    AfterStart mainThreads ∧
      (Run.exec Startup.step (.start mainThreads) wokenEarly).core1 = .reading 2 ∧
      (Run.exec Startup.step (.start mainThreads) wokenEarly).m.k.currentTcb 0 = some 2 ∧
      ¬(Run.exec Startup.step (.start mainThreads) wokenEarly).StartsFresh := by
  have claimed : (Run.exec Startup.step (.start mainThreads) wokenEarly).core1 = .reading 2 := by
    decide +kernel
  have current :
      (Run.exec Startup.step (.start mainThreads) wokenEarly).m.k.currentTcb 0 = some 2 := by
    decide +kernel
  refine ⟨by decide +kernel, claimed, current, fun starts => ?_⟩
  exact (starts.1 2 claimed).1 current

end PicoOS.Kernel
