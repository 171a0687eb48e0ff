import Mathlib

/-!
# Runs of a deterministic system

A system is a step function from a state and a label to a state. Invariants
are proved for one step and lifted to every run here, once; `Along` states a
condition on each step of a run, looking at the state the step is taken in.
-/
namespace Run

variable {σ α : Type}

/-- The state after a sequence of labels. -/
def exec (step : σ → α → σ) (s : σ) (ls : List α) : σ := ls.foldl step s

/-- Every step of the run meets `P` in the state it is taken in. -/
def Along (step : σ → α → σ) (P : σ → α → Prop) : σ → List α → Prop
  | _, [] => True
  | s, a :: as => P s a ∧ Along step P (step s a) as

instance decidableAlong (step : σ → α → σ) (P : σ → α → Prop) [∀ s a, Decidable (P s a)] :
    ∀ s ls, Decidable (Along step P s ls)
  | _, [] => inferInstanceAs (Decidable True)
  | s, a :: as =>
    have := decidableAlong step P (step s a) as
    inferInstanceAs (Decidable (_ ∧ _))

variable {step : σ → α → σ} {P Q : σ → α → Prop}

@[simp] theorem exec_nil (s : σ) : exec step s [] = s := rfl

@[simp] theorem exec_cons (s : σ) (a : α) (as : List α) :
    exec step s (a :: as) = exec step (step s a) as := rfl

theorem exec_append (s : σ) (as bs : List α) :
    exec step s (as ++ bs) = exec step (exec step s as) bs :=
  List.foldl_append

@[simp] theorem along_nil (s : σ) : Along step P s [] := trivial

@[simp] theorem along_cons (s : σ) (a : α) (as : List α) :
    Along step P s (a :: as) ↔ P s a ∧ Along step P (step s a) as := Iff.rfl

theorem along_append (s : σ) (as bs : List α) :
    Along step P s (as ++ bs) ↔ Along step P s as ∧ Along step P (exec step s as) bs := by
  induction as generalizing s with
  | nil => simp
  | cons a as ih => simp [ih, and_assoc]

theorem along_and (s : σ) (ls : List α) :
    Along step (fun s a => P s a ∧ Q s a) s ls ↔ Along step P s ls ∧ Along step Q s ls := by
  induction ls generalizing s with
  | nil => simp
  | cons a as ih =>
    rw [along_cons, along_cons, along_cons, ih]
    exact and_and_and_comm

theorem Along.mono (h : Along step P s ls) (imp : ∀ s a, P s a → Q s a) : Along step Q s ls := by
  induction ls generalizing s with
  | nil => trivial
  | cons a as ih => exact ⟨imp s a h.1, ih h.2⟩

/-- A condition that every step of the list meets, whatever state it is taken in. -/
theorem along_of_forall {C : α → Prop} (s : σ) (holds : ∀ a ∈ ls, C a) :
    Along step (fun _ a => C a) s ls := by
  induction ls generalizing s with
  | nil => trivial
  | cons a as ih =>
    rw [List.forall_mem_cons] at holds
    exact ⟨holds.1, ih (step s a) holds.2⟩

/-- A condition met along the run keeps an invariant, and with it gives another condition. -/
theorem Along.gives {I : σ → Prop} (preserved : ∀ s a, I s → P s a → I (step s a))
    (gives : ∀ s a, I s → P s a → Q s a) {s : σ} (initial : I s) {ls : List α}
    (h : Along step P s ls) : Along step Q s ls := by
  induction ls generalizing s with
  | nil => trivial
  | cons a as ih => exact ⟨gives s a initial h.1, ih (preserved s a initial h.1) h.2⟩

/-- Two step conditions that agree where an invariant holds agree along every run. -/
theorem along_congr {I : σ → Prop} (preserved : ∀ s a, I s → Q s a → I (step s a))
    (agree : ∀ s a, I s → (P s a ↔ Q s a)) {s : σ} (initial : I s) (ls : List α) :
    Along step P s ls ↔ Along step Q s ls := by
  induction ls generalizing s with
  | nil => simp
  | cons a as ih =>
    rw [along_cons, along_cons, agree s a initial]
    exact and_congr_right fun now => ih (preserved s a initial now)

/-- A property that each step preserves holds at the end of every run. -/
theorem exec_invariant {I : σ → Prop} (preserved : ∀ s a, I s → I (step s a))
    {s : σ} (initial : I s) (ls : List α) : I (exec step s ls) := by
  induction ls generalizing s with
  | nil => exact initial
  | cons a as ih => exact ih (preserved s a initial)

/-- The same when steps preserve it only under a condition met along the run. -/
theorem Along.invariant {I : σ → Prop} (preserved : ∀ s a, I s → P s a → I (step s a))
    {s : σ} (initial : I s) {ls : List α} (h : Along step P s ls) : I (exec step s ls) := by
  induction ls generalizing s with
  | nil => exact initial
  | cons a as ih => exact ih (preserved s a initial h.1) h.2

/-- What an invariant gives of each step holds of each step of every run. -/
theorem along_of_invariant {I : σ → Prop} (preserved : ∀ s a, I s → I (step s a))
    (gives : ∀ s a, I s → P s a) {s : σ} (initial : I s) (ls : List α) : Along step P s ls := by
  induction ls generalizing s with
  | nil => trivial
  | cons a as ih => exact ⟨gives s a initial, ih (preserved s a initial)⟩

/-- Where `P` keeps an invariant that gives `G`, and a step to a state with `G` meets `P`, a run has
`G` throughout if and only if each of its steps meets `P`. -/
theorem throughout_iff_along {I G : σ → Prop} (gives : ∀ s, I s → G s)
    (preserved : ∀ s a, I s → P s a → I (step s a)) (needed : ∀ s a, I s → G (step s a) → P s a)
    {s : σ} (initial : I s) (ls : List α) :
    (∀ pre, pre <+: ls → G (exec step s pre)) ↔ Along step P s ls := by
  induction ls generalizing s with
  | nil => simpa using gives s initial
  | cons a as ih =>
    constructor
    · intro throughout
      have now : P s a := needed s a initial (throughout [a] (by simp))
      refine ⟨now, (ih (preserved s a initial now)).mp fun pre h => ?_⟩
      exact throughout (a :: pre) (List.cons_prefix_cons.mpr ⟨rfl, h⟩)
    · rintro ⟨now, later⟩ pre h
      cases pre with
      | nil => exact gives s initial
      | cons b bs =>
        obtain ⟨rfl, rest⟩ := List.cons_prefix_cons.mp h
        exact (ih (preserved s b initial now)).mpr later bs rest

/-- Where `P` is exactly what a step needs to keep `I`, a run keeps `I` throughout if
and only if each of its steps meets `P`. -/
theorem invariant_iff_along {I : σ → Prop} (exact : ∀ s a, I s → (I (step s a) ↔ P s a))
    {s : σ} (initial : I s) (ls : List α) :
    (∀ pre, pre <+: ls → I (exec step s pre)) ↔ Along step P s ls :=
  throughout_iff_along (fun _ h => h) (fun s a h now => (exact s a h).mpr now)
    (fun s a h next => (exact s a h).mp next) initial ls

/-- A part of the state that steps by itself runs by itself. -/
theorem exec_map {τ : Type} {part : τ → α → τ} {f : σ → τ} (steps : ∀ s a, f (step s a) = part (f s) a)
    (s : σ) (ls : List α) : f (exec step s ls) = exec part (f s) ls := by
  induction ls generalizing s with
  | nil => rfl
  | cons a as ih => rw [exec_cons, exec_cons, ih, steps]

theorem along_map {τ : Type} {part : τ → α → τ} {f : σ → τ} {R : τ → α → Prop}
    (steps : ∀ s a, f (step s a) = part (f s) a) (s : σ) (ls : List α) :
    Along part R (f s) ls ↔ Along step (fun s a => R (f s) a) s ls := by
  induction ls generalizing s with
  | nil => simp
  | cons a as ih => rw [along_cons, along_cons, ← steps, ih]

/-- States reached from an initial state by some run. -/
def Reachable (step : σ → α → σ) (init : σ → Prop) (s : σ) : Prop :=
  ∃ s₀ ls, init s₀ ∧ s = exec step s₀ ls

theorem Reachable.invariant {init I : σ → Prop} (start : ∀ s, init s → I s)
    (preserved : ∀ s a, I s → I (step s a)) {s : σ} (h : Reachable step init s) : I s := by
  obtain ⟨s₀, ls, initial, rfl⟩ := h
  exact exec_invariant preserved (start s₀ initial) ls

end Run
