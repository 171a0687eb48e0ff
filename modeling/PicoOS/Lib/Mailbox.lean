import Mathlib

/-!
# A mailbox for the newest parcel

A producer works on a draft and publishes it; a consumer takes the newest
parcel that it has not seen. An untaken parcel is replaced by the next one and
counted as lost. Parcels are numbered in the order they are published.
-/
namespace Mailbox

structure Parcel (α : Type) where
  number : Nat
  /-- The parcels lost before it. -/
  lost : Nat
  body : α

inductive Op (α : Type) where
  /-- The producer changes its draft. -/
  | edit (f : α → α)
  /-- The draft is finished by `f` and published. -/
  | publish (f : α → α)
  | take

structure State (α : Type) where
  draft : α
  unread : Option (Parcel α)
  /-- Oldest first. -/
  delivered : List (Parcel α)
  published : Nat
  lost : Nat

variable {α : Type} (empty : α)

def init : State α := ⟨empty, none, [], 0, 0⟩

def step (m : State α) : Op α → State α
  | .edit f => { m with draft := f m.draft }
  | .publish f =>
    let lost := if m.unread.isSome then m.lost + 1 else m.lost
    { m with
      draft := empty
      unread := some ⟨m.published + 1, lost, f m.draft⟩
      published := m.published + 1
      lost := lost }
  | .take =>
    match m.unread with
    | none => m
    | some w => { m with unread := none, delivered := m.delivered ++ [w] }

/-- Every published parcel is delivered, lost or unread; deliveries come in the order of
publication, each at most once, and the unread parcel is the last one published. -/
structure Sound (m : State α) : Prop where
  count : m.published = m.delivered.length + m.lost + m.unread.toList.length
  increasing : m.delivered.Pairwise fun v w => v.number < w.number
  past : ∀ w ∈ m.delivered, w.number ≤ m.published
  newest : ∀ w, m.unread = some w → w.number = m.published ∧ ∀ v ∈ m.delivered, v.number < w.number

variable {empty}

theorem Sound.init : Sound (init empty) :=
  ⟨rfl, .nil, fun _ h => (by cases h), fun _ h => by cases h⟩

theorem Sound.step {m : State α} (sound : Sound m) (op : Op α) : Sound (step empty m op) := by
  cases op with
  | edit f => exact ⟨sound.count, sound.increasing, sound.past, sound.newest⟩
  | publish f =>
    have count := sound.count
    refine ⟨?_, sound.increasing, fun w member => ?_, fun w new => ?_⟩
    · cases unread : m.unread with
      | none => simp_all [Mailbox.step]
      | some v =>
        simp_all only [Mailbox.step, Option.isSome_some, Option.toList_some, List.length_singleton,
          if_true]
        omega
    · have := sound.past w member
      exact Nat.le_succ_of_le this
    · cases new
      exact ⟨rfl, fun v member => Nat.lt_succ_of_le (sound.past v member)⟩
  | take =>
    cases unread : m.unread with
    | none => simpa only [Mailbox.step, unread] using sound
    | some w =>
      obtain ⟨number, newer⟩ := sound.newest w unread
      have count := sound.count
      simp only [unread, Option.toList_some, List.length_singleton] at count
      simp only [Mailbox.step, unread]
      refine ⟨?_, ?_, fun v member => ?_, fun v new => by cases new⟩
      · simp only [List.length_append, List.length_singleton, Option.toList_none, List.length_nil]
        omega
      · refine List.pairwise_append.mpr ⟨sound.increasing, List.pairwise_singleton .., ?_⟩
        intro v member v' last
        rw [List.mem_singleton] at last
        subst last
        exact newer v member
      · rcases List.mem_append.mp member with old | last
        · exact sound.past v old
        · rw [List.mem_singleton] at last
          subst last
          exact Nat.le_of_eq number

end Mailbox
