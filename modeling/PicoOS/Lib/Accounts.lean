import Mathlib

/-!
# Accounts

A store gives out places, each of some size. In an account each place that has been
given out has one owner, and each owner that has a place has one that fits it, so
that nothing is lost and nothing is shared.
-/
namespace Accounts

variable {ι π σ : Type} {holds holds' : π → σ → Prop} {owns : ι → Option π}
  {fits fits' : ι → σ → Prop} {i : ι} {p : π} {n : σ}

/-- `holds p n`: the place `p` has been given out, with size `n`. -/
structure Account (holds : π → σ → Prop) (owns : ι → Option π) (fits : ι → σ → Prop) : Prop where
  backed : ∀ i p, owns i = some p → ∃ n, holds p n ∧ fits i n
  apart : ∀ i j p, owns i = some p → owns j = some p → i = j
  owned : ∀ p n, holds p n → ∃ i, owns i = some p

namespace Account

variable [DecidableEq ι]

/-- A new place goes to an owner that had none. -/
theorem take (a : Account holds owns fits) (idle : owns i = none) (fresh : ∀ m, ¬ holds p m)
    (given : ∀ q m, holds' q m ↔ holds q m ∨ q = p ∧ m = n) (fit : fits' i n)
    (rest : ∀ j, j ≠ i → fits' j = fits j) :
    Account holds' (Function.update owns i (some p)) fits' where
  backed j q mine := by
    by_cases here : j = i
    · rw [here, Function.update_self] at mine
      cases mine
      exact ⟨n, (given p n).mpr (.inr ⟨rfl, rfl⟩), here ▸ fit⟩
    · rw [Function.update_of_ne here] at mine
      obtain ⟨m, held, fit⟩ := a.backed j q mine
      exact ⟨m, (given q m).mpr (.inl held), by rw [rest j here]; exact fit⟩
  apart j k q atJ atK := by
    have other {j : ι} (here : j ≠ i) (mine : Function.update owns i (some p) j = some q) : q ≠ p := by
      rintro rfl
      rw [Function.update_of_ne here] at mine
      obtain ⟨m, held, _⟩ := a.backed j q mine
      exact fresh m held
    -- the new place is nobody else's, and the old ones were apart
    by_cases hereJ : j = i <;> by_cases hereK : k = i
    · rw [hereJ, hereK]
    · have ne := other hereK atK
      rw [hereJ, Function.update_self] at atJ
      exact absurd (Option.some.inj atJ).symm ne
    · have ne := other hereJ atJ
      rw [hereK, Function.update_self] at atK
      exact absurd (Option.some.inj atK).symm ne
    · rw [Function.update_of_ne hereJ] at atJ
      rw [Function.update_of_ne hereK] at atK
      exact a.apart j k q atJ atK
  owned q m held := by
    rcases (given q m).mp held with before | ⟨rfl, _⟩
    · obtain ⟨j, mine⟩ := a.owned q m before
      have other : j ≠ i := by
        rintro rfl
        rw [idle] at mine
        cases mine
      exact ⟨j, by rw [Function.update_of_ne other, mine]⟩
    · exact ⟨i, Function.update_self ..⟩

/-- An owner gives its place back. -/
theorem give (a : Account holds owns fits) (mine : owns i = some p)
    (taken : ∀ q m, holds' q m ↔ holds q m ∧ q ≠ p) (rest : ∀ j, j ≠ i → fits' j = fits j) :
    Account holds' (Function.update owns i none) fits' where
  backed j q atJ := by
    have other : j ≠ i := by
      rintro rfl
      rw [Function.update_self] at atJ
      cases atJ
    rw [Function.update_of_ne other] at atJ
    obtain ⟨m, held, fit⟩ := a.backed j q atJ
    refine ⟨m, (taken q m).mpr ⟨held, ?_⟩, by rw [rest j other]; exact fit⟩
    rintro rfl
    exact other (a.apart j i q atJ mine)
  apart j k q atJ atK := by
    have before {j : ι} (now : Function.update owns i none j = some q) : owns j = some q := by
      by_cases here : j = i
      · rw [here, Function.update_self] at now
        cases now
      · rwa [Function.update_of_ne here] at now
    exact a.apart j k q (before atJ) (before atK)
  owned q m held := by
    obtain ⟨before, ne⟩ := (taken q m).mp held
    obtain ⟨j, atJ⟩ := a.owned q m before
    have other : j ≠ i := by
      rintro rfl
      rw [mine] at atJ
      exact ne (Option.some.inj atJ).symm
    exact ⟨j, by rw [Function.update_of_ne other, atJ]⟩

omit [DecidableEq ι] in
/-- With no owner nothing has been given out. -/
theorem nothing (a : Account holds owns fits) (none : ∀ i, owns i = none) (p : π) (n : σ) :
    ¬ holds p n := by
  intro held
  obtain ⟨i, mine⟩ := a.owned p n held
  rw [none i] at mine
  cases mine

end Account

end Accounts
