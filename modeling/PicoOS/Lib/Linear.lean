import PicoOS.Lib.Run
import Mathlib

/-!
# Linearizability of calls with an unlocked check

A call begins, makes a check without the lock that may answer it at once, does
its work in one critical section and returns. Threads interleave between these
steps. If the check of a call would still pass when its section runs, each call
has one point at which it takes effect, and the order of these points is a
sequential history with the same results and the same final state.
-/
namespace Linear

variable {τ σ ω ρ : Type}

/-! ### Calls -/

/-- The two halves of a call. -/
structure Object (σ ω ρ : Type) where
  /-- What the check before the lock answers; `none` goes on to the section. -/
  check : σ → ω → Option ρ
  body : σ → ω → ρ × σ

/-- The call with no other thread in between. -/
def Object.call (o : Object σ ω ρ) (s : σ) (op : ω) : ρ × σ :=
  match o.check s op with
  | some result => (result, s)
  | none => o.body s op

/-- A call that has taken effect; `start` counts the calls that began before it. -/
structure Call (τ ω ρ : Type) where
  thread : τ
  start : Nat
  op : ω
  result : ρ

/-- The calls, made one after the other from the first state, give their results
and end in the last one. -/
def Sequential (call : σ → ω → ρ × σ) : σ → List (Call τ ω ρ) → σ → Prop
  | s, [], s' => s = s'
  | s, c :: cs, s' => (call s c.op).1 = c.result ∧ Sequential call (call s c.op).2 cs s'

theorem Sequential.concat {call : σ → ω → ρ × σ} {s s' : σ} {cs : List (Call τ ω ρ)}
    (h : Sequential call s cs s') {c : Call τ ω ρ} {s₁ : σ}
    (next : call s' c.op = (c.result, s₁)) : Sequential call s (cs ++ [c]) s₁ := by
  induction cs generalizing s with
  | nil =>
    obtain rfl : s = s' := h
    exact ⟨congrArg Prod.fst next, congrArg Prod.snd next⟩
  | cons first cs ih => exact ⟨h.1, ih h.2⟩

/-- A history cut in two passes through the state between the parts. -/
theorem Sequential.split {call : σ → ω → ρ × σ} {s s' : σ} {as bs : List (Call τ ω ρ)}
    (h : Sequential call s (as ++ bs) s') :
    ∃ mid, Sequential call s as mid ∧ Sequential call mid bs s' := by
  induction as generalizing s with
  | nil => exact ⟨s, rfl, h⟩
  | cons first as ih =>
    obtain ⟨mid, before, after⟩ := ih h.2
    exact ⟨mid, ⟨h.1, before⟩, after⟩

/-! ### Threads -/

/-- Where a thread is in its call. -/
inductive Phase (ω ρ : Type) where
  | idle
  | begun (start : Nat) (op : ω)
  /-- The check has passed, the section has not begun. -/
  | locking (start : Nat) (op : ω)
  | answered (start : Nat) (op : ω) (result : ρ)

/-- The object, its threads and what they have done: `clock` counts the calls that
began, and each call that returned is kept with the clock at its return. -/
structure System (τ σ ω ρ : Type) where
  state : σ
  phase : τ → Phase ω ρ
  clock : Nat
  returned : List (Call τ ω ρ × Nat)

def start (s : σ) : System τ σ ω ρ := ⟨s, fun _ => .idle, 0, []⟩

inductive Label (τ ω : Type) where
  | invoke (t : τ) (op : ω)
  | check (t : τ)
  | act (t : τ)
  | finish (t : τ)

/-! ### Linearizations -/

/-- `order` is a sequential history of what the threads have done so far. -/
structure Linearization (call : σ → ω → ρ × σ) (s₀ : σ) (m : System τ σ ω ρ)
    (order : List (Call τ ω ρ)) : Prop where
  /-- The results and the state are those of the calls made in this order. -/
  legal : Sequential call s₀ order m.state
  /-- Its calls are those that have returned and those that are about to. -/
  calls : ∃ pending : List (Call τ ω ρ), pending.Nodup ∧
    (∀ c, c ∈ pending ↔ m.phase c.thread = .answered c.start c.op c.result) ∧
    order.Perm (m.returned.map Prod.fst ++ pending)
  /-- No call stands behind one that began after it had returned. -/
  realTime : order.Pairwise fun a b => ∀ back, (b, back) ∈ m.returned → a.start < back

/-- A linearization with the clock readings that keep it one. -/
structure Tracks (call : σ → ω → ρ × σ) (s₀ : σ) (m : System τ σ ω ρ)
    (order : List (Call τ ω ρ)) : Prop extends Linearization call s₀ m order where
  placed : ∀ c ∈ order, c.start < m.clock
  stamped : ∀ c back, (c, back) ∈ m.returned → c.start < back ∧ back ≤ m.clock
  /-- A call in progress began when its thread had returned from the earlier ones. -/
  running : ∀ t k op, m.phase t = .begun k op ∨ m.phase t = .locking k op →
    k < m.clock ∧ ∀ c back, (c, back) ∈ m.returned → c.thread = t → back ≤ k

theorem Tracks.start (call : σ → ω → ρ × σ) (s₀ : σ) :
    Tracks call s₀ (Linear.start (τ := τ) s₀) [] where
  legal := rfl
  calls := ⟨[], .nil, fun _ => by simp [Linear.start], .nil⟩
  realTime := .nil
  placed := by simp
  stamped := by simp [Linear.start]
  running := by simp [Linear.start]

/-! ### Steps -/

section Machine

variable [DecidableEq τ]

def System.goTo (m : System τ σ ω ρ) (t : τ) (phase : Phase ω ρ) : System τ σ ω ρ :=
  { m with phase := Function.update m.phase t phase }

/-- One step of one thread; a step that its thread cannot take changes nothing. -/
def step (o : Object σ ω ρ) (m : System τ σ ω ρ) : Label τ ω → System τ σ ω ρ
  | .invoke t op =>
    match m.phase t with
    | .idle => { m.goTo t (.begun m.clock op) with clock := m.clock + 1 }
    | _ => m
  | .check t =>
    match m.phase t with
    | .begun k op =>
      match o.check m.state op with
      | some result => m.goTo t (.answered k op result)
      | none => m.goTo t (.locking k op)
    | _ => m
  | .act t =>
    match m.phase t with
    | .locking k op =>
      { m.goTo t (.answered k op (o.body m.state op).1) with state := (o.body m.state op).2 }
    | _ => m
  | .finish t =>
    match m.phase t with
    | .answered k op result =>
      { m.goTo t .idle with returned := m.returned ++ [(⟨t, k, op, result⟩, m.clock)] }
    | _ => m

/-- The check of the section's call would pass in the state the section begins in. -/
def Fresh (o : Object σ ω ρ) (m : System τ σ ω ρ) : Label τ ω → Prop
  | .act t =>
    match m.phase t with
    | .locking _ op => o.check m.state op = none
    | _ => True
  | _ => True

/-- What a step can do. -/
inductive Stepped (o : Object σ ω ρ) (m : System τ σ ω ρ) : Label τ ω → System τ σ ω ρ → Prop
  | stay {l} : Stepped o m l m
  | begun {t op} (idle : m.phase t = .idle) :
      Stepped o m (.invoke t op) { m.goTo t (.begun m.clock op) with clock := m.clock + 1 }
  | refused {t k op result} (begun : m.phase t = .begun k op)
      (answer : o.check m.state op = some result) :
      Stepped o m (.check t) (m.goTo t (.answered k op result))
  | passed {t k op} (begun : m.phase t = .begun k op) (pass : o.check m.state op = none) :
      Stepped o m (.check t) (m.goTo t (.locking k op))
  | acted {t k op} (locking : m.phase t = .locking k op) :
      Stepped o m (.act t)
        { m.goTo t (.answered k op (o.body m.state op).1) with state := (o.body m.state op).2 }
  | returned {t k op result} (answered : m.phase t = .answered k op result) :
      Stepped o m (.finish t)
        { m.goTo t .idle with returned := m.returned ++ [(⟨t, k, op, result⟩, m.clock)] }

theorem step_cases (o : Object σ ω ρ) (m : System τ σ ω ρ) (l : Label τ ω) :
    Stepped o m l (step o m l) := by
  cases l with
  | invoke t op =>
    simp only [step]
    split
    next idle => exact .begun idle
    · exact .stay
  | check t =>
    simp only [step]
    split
    next k op begun =>
      split
      next result answer => exact .refused begun answer
      next pass => exact .passed begun pass
    · exact .stay
  | act t =>
    simp only [step]
    split
    next k op locking => exact .acted locking
    · exact .stay
  | finish t =>
    simp only [step]
    split
    next k op result answered => exact .returned answered
    · exact .stay

@[simp] theorem goTo_phase (m : System τ σ ω ρ) (t u : τ) (phase : Phase ω ρ) :
    (m.goTo t phase).phase u = if u = t then phase else m.phase u := Function.update_apply ..

namespace Tracks

variable {call : σ → ω → ρ × σ} {s₀ : σ} {m : System τ σ ω ρ} {order : List (Call τ ω ρ)}
  {t : τ} {k : Nat} {op : ω} {result : ρ}

/-- A thread that has not answered has no call among those about to return. -/
theorem invoke (h : Tracks call s₀ m order) (idle : m.phase t = .idle) (op : ω) :
    Tracks call s₀ { m.goTo t (.begun m.clock op) with clock := m.clock + 1 } order where
  legal := h.legal
  calls := by
    obtain ⟨pending, nodup, member_iff, perm⟩ := h.calls
    refine ⟨pending, nodup, fun c => ?_, perm⟩
    rw [member_iff, goTo_phase]
    split
    next mine => simp [mine, idle]
    · exact Iff.rfl
  realTime := h.realTime
  placed c member := Nat.lt_succ_of_lt (h.placed c member)
  stamped c back member :=
    ⟨(h.stamped c back member).1, Nat.le_succ_of_le (h.stamped c back member).2⟩
  running u k' op' waiting := by
    simp only [goTo_phase] at waiting
    split at waiting
    next mine =>
      simp only [Phase.begun.injEq, reduceCtorEq, or_false] at waiting
      obtain ⟨rfl, rfl⟩ := waiting
      exact ⟨Nat.lt_succ_self _, fun c back member _ => (h.stamped c back member).2⟩
    · obtain ⟨begun, after⟩ := h.running u k' op' waiting
      exact ⟨Nat.lt_succ_of_lt begun, after⟩

/-- Passing the check moves no call. -/
theorem pass (h : Tracks call s₀ m order) (begun : m.phase t = .begun k op) :
    Tracks call s₀ (m.goTo t (.locking k op)) order where
  legal := h.legal
  calls := by
    obtain ⟨pending, nodup, member_iff, perm⟩ := h.calls
    refine ⟨pending, nodup, fun c => ?_, perm⟩
    rw [member_iff, goTo_phase]
    split
    next mine => simp [mine, begun]
    · exact Iff.rfl
  realTime := h.realTime
  placed := h.placed
  stamped := h.stamped
  running u k' op' waiting := by
    simp only [goTo_phase] at waiting
    split at waiting
    next mine =>
      simp only [reduceCtorEq, Phase.locking.injEq, false_or] at waiting
      obtain ⟨rfl, rfl⟩ := waiting
      exact h.running u k op (.inl (mine ▸ begun))
    · exact h.running u k' op' waiting

/-- A call that takes effect goes to the end of the order: it has not returned, so no call
before it began too late. -/
theorem answer (h : Tracks call s₀ m order)
    (waiting : m.phase t = .begun k op ∨ m.phase t = .locking k op) {s₁ : σ}
    (next : call m.state op = (result, s₁)) :
    Tracks call s₀ { m.goTo t (.answered k op result) with state := s₁ }
      (order ++ [⟨t, k, op, result⟩]) where
  legal := h.legal.concat next
  calls := by
    obtain ⟨pending, nodup, member_iff, perm⟩ := h.calls
    have silent (c : Call τ ω ρ) (mine : c.thread = t) : c ∉ pending := by
      rw [member_iff, mine]
      rcases waiting with begun | locking
      · simp [begun]
      · simp [locking]
    refine ⟨⟨t, k, op, result⟩ :: pending, ?_, fun c => ?_, ?_⟩
    · exact List.nodup_cons.mpr ⟨silent _ rfl, nodup⟩
    · rw [List.mem_cons, goTo_phase]
      split
      next mine =>
        rw [or_iff_left (silent c mine)]
        cases c
        simp_all [eq_comm]
      next other =>
        rw [← member_iff, or_iff_right]
        rintro rfl
        exact other rfl
    · refine (perm.append_right _).trans ?_
      rw [List.append_assoc]
      exact (List.perm_append_singleton _ _).append_left _
  realTime := by
    refine List.pairwise_append.mpr ⟨h.realTime, List.pairwise_singleton _ _, fun a _ b last => ?_⟩
    obtain rfl := List.mem_singleton.mp last
    intro back member
    have began := (h.stamped _ back member).1
    have ended := (h.running t k op waiting).2 _ back member rfl
    exact absurd began (Nat.not_lt.mpr ended)
  placed c member := by
    rcases List.mem_append.mp member with earlier | last
    · exact h.placed c earlier
    · obtain rfl := List.mem_singleton.mp last
      exact (h.running t k op waiting).1
  stamped := h.stamped
  running u k' op' waiting' := by
    simp only [goTo_phase] at waiting'
    split at waiting'
    · simp at waiting'
    · exact h.running u k' op' waiting'

/-- A call returns at a time when all calls of the order have begun. -/
theorem finish (h : Tracks call s₀ m order) (answered : m.phase t = .answered k op result) :
    Tracks call s₀ { m.goTo t .idle with
      returned := m.returned ++ [(⟨t, k, op, result⟩, m.clock)] } order where
  legal := h.legal
  calls := by
    obtain ⟨pending, nodup, member_iff, perm⟩ := h.calls
    have mine : (⟨t, k, op, result⟩ : Call τ ω ρ) ∈ pending := (member_iff _).mpr answered
    obtain ⟨before, after, rfl⟩ := List.append_of_mem mine
    have fresh := List.nodup_middle.mp nodup
    refine ⟨before ++ after, (List.nodup_cons.mp fresh).2, fun c => ?_, ?_⟩
    · rw [goTo_phase]
      split
      next same =>
        simp only [reduceCtorEq, iff_false]
        intro member
        have still : m.phase c.thread = .answered c.start c.op c.result := by
          rw [← member_iff]
          simp only [List.mem_append, List.mem_cons] at member ⊢
          tauto
        rw [same, answered] at still
        cases c
        simp only [Phase.answered.injEq] at still same
        obtain ⟨rfl, rfl, rfl⟩ := still
        subst same
        exact (List.nodup_cons.mp fresh).1 member
      next other =>
        rw [← member_iff]
        simp only [List.mem_append, List.mem_cons]
        have : c ≠ ⟨t, k, op, result⟩ := by
          rintro rfl
          exact other rfl
        tauto
    · refine perm.trans ?_
      simp only [List.map_append, List.map_cons, List.map_nil, List.append_assoc]
      exact List.perm_middle.append_left _
  realTime := by
    refine h.realTime.imp_of_mem fun {a b} first _ earlier back member => ?_
    rcases List.mem_append.mp member with before | now
    · exact earlier back before
    · cases List.mem_singleton.mp now
      exact h.placed a first
  placed := h.placed
  stamped c back member := by
    rcases List.mem_append.mp member with before | now
    · exact h.stamped c back before
    · cases List.mem_singleton.mp now
      obtain ⟨pending, -, member_iff, perm⟩ := h.calls
      have placed : (⟨t, k, op, result⟩ : Call τ ω ρ) ∈ order :=
        perm.mem_iff.mpr (List.mem_append_right _ ((member_iff _).mpr answered))
      exact ⟨h.placed _ placed, Nat.le_refl _⟩
  running u k' op' waiting := by
    simp only [goTo_phase] at waiting
    split at waiting
    · simp at waiting
    next other =>
      obtain ⟨begun, after⟩ := h.running u k' op' waiting
      refine ⟨begun, fun c back member mine => ?_⟩
      rcases List.mem_append.mp member with before | now
      · exact after c back before mine
      · cases List.mem_singleton.mp now
        exact absurd mine.symm other

/-- One step extends the order by at most the call that takes effect in it. -/
theorem step {o : Object σ ω ρ} {l : Label τ ω} (h : Tracks o.call s₀ m order)
    (fresh : Fresh o m l) : ∃ later, Tracks o.call s₀ (step o m l) (order ++ later) := by
  have stepped := step_cases o m l
  generalize Linear.step o m l = next at stepped ⊢
  cases stepped with
  | stay => exact ⟨[], by simpa using h⟩
  | begun idle => exact ⟨[], by simpa using h.invoke idle _⟩
  | @refused t k op result begun answer =>
    exact ⟨_, h.answer (.inl begun) (by simp [Object.call, answer])⟩
  | passed begun pass => exact ⟨[], by simpa using h.pass begun⟩
  | @acted t k op locking =>
    have again : o.check m.state op = none := by simpa [Fresh, locking] using fresh
    exact ⟨_, h.answer (.inr locking) (by simp [Object.call, again])⟩
  | returned answered => exact ⟨[], by simpa using h.finish answered⟩

end Tracks

/-- A call that waits for the lock has passed its check. -/
theorem locking_passed (o : Object σ ω ρ) {m : System τ σ ω ρ} (l : Label τ ω)
    (passed : ∀ t k op, m.phase t = .locking k op → ∃ s, o.check s op = none) :
    ∀ t k op, (step o m l).phase t = .locking k op → ∃ s, o.check s op = none := by
  intro u k' op'
  have stepped := step_cases o m l
  generalize step o m l = next at stepped ⊢
  cases stepped with
  | stay => exact passed u k' op'
  | @passed t k op begun pass =>
    rw [goTo_phase]
    split
    · intro locking
      cases locking
      exact ⟨m.state, pass⟩
    · exact passed u k' op'
  | _ =>
    simp only [goTo_phase]
    split
    · simp
    · exact passed u k' op'

/-- A run in which every section finds its check still passing is linearizable. -/
theorem linearizable (o : Object σ ω ρ) (s₀ : σ) {ls : List (Label τ ω)}
    (fresh : Run.Along (step o) (Fresh o) (start s₀) ls) :
    ∃ order, Linearization o.call s₀ (Run.exec (step o) (start s₀) ls) order := by
  obtain ⟨order, tracks⟩ := fresh.invariant (I := fun m => ∃ order, Tracks o.call s₀ m order)
    (fun m l ⟨order, tracks⟩ now => (tracks.step now).imp' (order ++ ·) fun _ h => h)
    ⟨[], Tracks.start o.call s₀⟩
  exact ⟨order, tracks.toLinearization⟩

end Machine

end Linear
