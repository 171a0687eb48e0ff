import PicoOS.Lib.Run
import Mathlib

/-!
# Cursors that go round

A cursor moves over finitely many points in a fixed round. A search starts at the
cursor, takes the first free point and leaves the cursor behind it, so that a
point comes up again only when the cursor has been past every other one.
-/
namespace Cursor

variable {α : Type} {f : α → α} {free : α → Bool}

/-- The first free point of `n`, from `a` on. -/
def search (f : α → α) (free : α → Bool) : Nat → α → Option α
  | 0, _ => none
  | n + 1, a => if free a then some a else search f free n (f a)

/-- The points that a search goes past. -/
def passed (f : α → α) (free : α → Bool) : Nat → α → List α
  | 0, _ => []
  | n + 1, a => if free a then [] else a :: passed f free n (f a)

theorem search_eq_some {n : Nat} {a b : α} (h : search f free n a = some b) :
    free b = true ∧ ∃ d, d < n ∧ f^[d] a = b ∧ ∀ i, i < d → f^[i] a ∈ passed f free n a := by
  induction n generalizing a with
  | zero => cases h
  | succ n ih =>
    simp only [search] at h
    split at h
    next here =>
      cases h
      exact ⟨here, 0, Nat.succ_pos n, rfl, fun i before => absurd before (Nat.not_lt_zero i)⟩
    next busy =>
      obtain ⟨found, d, near, at_, past⟩ := ih h
      refine ⟨found, d + 1, by omega, at_, fun i before => ?_⟩
      rw [passed, if_neg busy]
      cases i with
      | zero => exact List.mem_cons_self
      | succ i => exact List.mem_cons_of_mem _ (past i (by omega))

theorem search_eq_none {n : Nat} {a : α} :
    search f free n a = none ↔ ∀ i, i < n → free (f^[i] a) = false := by
  induction n generalizing a with
  | zero => simp [search]
  | succ n ih =>
    simp only [search]
    split
    next here =>
      refine iff_of_false (by simp) fun busy => ?_
      rw [show free a = false from busy 0 (Nat.succ_pos n)] at here
      cases here
    next busy =>
      rw [ih]
      constructor
      · intro rest i inside
        cases i with
        | zero => exact Bool.eq_false_of_not_eq_true busy
        | succ i => exact rest i (by omega)
      · exact fun all i inside => all (i + 1) (by omega)

/-- A point that is passed is not free. -/
theorem not_free_of_passed {n : Nat} {a b : α} (h : b ∈ passed f free n a) : free b = false := by
  induction n generalizing a with
  | zero => cases h
  | succ n ih =>
    simp only [passed] at h
    split at h
    next => cases h
    next busy =>
      rcases List.mem_cons.mp h with rfl | rest
      · exact Bool.eq_false_of_not_eq_true busy
      · exact ih rest

/-- The points inside form one round of `f`, of `span` points. -/
structure Round (f : α → α) (Inside : α → Prop) (span : Nat) : Prop where
  closed : ∀ a, Inside a → Inside (f a)
  reaches : ∀ a b, Inside a → Inside b → ∃ i, i < span ∧ f^[i] a = b
  returns : ∀ a i, Inside a → 0 < i → i < span → f^[i] a ≠ a

namespace Round

variable {Inside : α → Prop} {span : Nat} {a b : α}

theorem iterate (round : Round f Inside span) (inside : Inside a) (n : Nat) : Inside (f^[n] a) := by
  induction n with
  | zero => exact inside
  | succ n ih =>
    rw [Function.iterate_succ_apply']
    exact round.closed _ ih

/-- A whole round finds a free point if there is one. -/
theorem search_none (round : Round f Inside span) (inside : Inside a) :
    search f free span a = none ↔ ∀ b, Inside b → free b = false := by
  rw [search_eq_none]
  constructor
  · intro all b member
    obtain ⟨i, near, rfl⟩ := round.reaches a b inside member
    exact all i near
  · exact fun all i _ => all _ (round.iterate inside i)

/-- Going on from a point to itself, a cursor meets every other point. -/
theorem meets (round : Round f Inside span) (inside : Inside a) (member : Inside b) (other : b ≠ a)
    {n : Nat} (back : f^[n] (f a) = a) : ∃ j, j < n ∧ f^[j] (f a) = b := by
  obtain ⟨i, near, at_⟩ := round.reaches a b inside member
  have whole : span ≤ n + 1 := by
    by_contra early
    exact round.returns a (n + 1) inside (Nat.succ_pos n) (by omega)
      (by rw [Function.iterate_succ_apply]; exact back)
  cases i with
  | zero => exact absurd at_.symm other
  | succ i => exact ⟨i, by omega, by rw [← Function.iterate_succ_apply]; exact at_⟩

end Round

section

variable {σ ℓ : Type} {step : σ → ℓ → σ} {Meets : σ → ℓ → α → Prop} {I : σ → Prop}

/-- Where each step moves the cursor on and meets what it goes past, so does a run. -/
theorem travel (cursor : σ → α) (keeps : ∀ s l, I s → I (step s l))
    (moves : ∀ s l, I s → ∃ d, cursor (step s l) = f^[d] (cursor s) ∧
      ∀ i, i < d → Meets s l (f^[i] (cursor s))) {s : σ} (initial : I s) (ls : List ℓ) :
    ∃ n, cursor (Run.exec step s ls) = f^[n] (cursor s) ∧
      ∀ i, i < n → ∃ pre l, pre ++ [l] <+: ls ∧
        Meets (Run.exec step s pre) l (f^[i] (cursor s)) := by
  induction ls generalizing s with
  | nil => exact ⟨0, rfl, fun i before => absurd before (Nat.not_lt_zero i)⟩
  | cons l ls ih =>
    obtain ⟨d, first, met⟩ := moves s l initial
    obtain ⟨n, rest, later⟩ := ih (keeps s l initial)
    refine ⟨n + d, ?_, fun i before => ?_⟩
    · rw [Run.exec_cons, rest, first, Function.iterate_add_apply]
    · by_cases now : i < d
      · exact ⟨[], l, by simp, met i now⟩
      · obtain ⟨pre, l', prefix_, meets⟩ := later (i - d) (by omega)
        refine ⟨l :: pre, l', List.cons_prefix_cons.mpr ⟨rfl, prefix_⟩, ?_⟩
        rw [first, ← Function.iterate_add_apply, Nat.sub_add_cancel (by omega)] at meets
        exact meets

end

end Cursor
