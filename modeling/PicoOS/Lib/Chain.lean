import Mathlib

/-!
# Intrusive singly-linked lists

A list threaded through a `next` field: `Path next h l e` says that the links
from `h` visit exactly `l` and then reach `e`. A list that ends visits no node
twice. The walks take fuel and yield `none` when it runs out; with as much fuel
as there are nodes that happens exactly on lists that never end.
-/
namespace Chain

variable {α : Type} {next : α → Option α} {h e : Option α} {l l₁ l₂ : List α} {a b t : α}

/-- The links from `h` visit `l` and then reach `e`. -/
def Path (next : α → Option α) : Option α → List α → Option α → Prop
  | h, [], e => h = e
  | h, a :: l, e => h = some a ∧ Path next (next a) l e

@[simp] theorem path_nil : Path next h [] e ↔ h = e := Iff.rfl

@[simp] theorem path_cons : Path next h (a :: l) e ↔ h = some a ∧ Path next (next a) l e := Iff.rfl

instance decidablePath [DecidableEq α] (next : α → Option α) :
    ∀ h l e, Decidable (Path next h l e)
  | h, [], e => inferInstanceAs (Decidable (h = e))
  | h, a :: l, e =>
    have := decidablePath next (next a) l e
    inferInstanceAs (Decidable (h = some a ∧ Path next (next a) l e))

/-- `while (cur->next != NULL) cur = cur->next`: the node it stops at. -/
def tail (next : α → Option α) : Nat → α → Option α
  | 0, _ => none
  | fuel + 1, cur =>
    match next cur with
    | none => some cur
    | some n => tail next fuel n

/-- Walk to the node `t` with the node before it at hand: `some none` when the list
ends first, `some (some prev)` when it is found. -/
def seek [DecidableEq α] (next : α → Option α) (t : α) :
    Nat → Option α → Option α → Option (Option (Option α))
  | _, _, none => some none
  | 0, _, some _ => none
  | fuel + 1, prev, some cur =>
    if cur = t then some (some prev) else seek next t fuel (some cur) (next cur)

/-- The first node on the list that meets `p`. -/
def first (next : α → Option α) (p : α → Bool) : Nat → Option α → Option (Option α)
  | _, none => some none
  | 0, some _ => none
  | fuel + 1, some cur => if p cur then some (some cur) else first next p fuel (next cur)

/-- The nodes of the list, as far as the fuel goes. -/
def nodes (next : α → Option α) : Nat → Option α → List α
  | fuel + 1, some cur => cur :: nodes next fuel (next cur)
  | _, _ => []

/-- Whether the list ends within the fuel. -/
def ends (next : α → Option α) : Nat → Option α → Bool
  | _, none => true
  | 0, some _ => false
  | fuel + 1, some cur => ends next fuel (next cur)

/-! ### Paths -/

theorem path_append : Path next h (l₁ ++ l₂) e ↔ ∃ m, Path next h l₁ m ∧ Path next m l₂ e := by
  induction l₁ generalizing h with
  | nil => simp
  | cons a l ih => simp [ih, and_assoc]

/-- From one start the links determine the list that ends. -/
theorem Path.unique (p : Path next h l₁ none) (q : Path next h l₂ none) : l₁ = l₂ := by
  induction l₁ generalizing h l₂ with
  | nil =>
    cases p
    cases l₂ with
    | nil => rfl
    | cons b l => cases q.1
  | cons a l ih =>
    obtain ⟨rfl, p⟩ := p
    cases l₂ with
    | nil => cases q
    | cons b l' =>
      obtain ⟨same, q⟩ := q
      cases same
      rw [ih p q]

/-- A list that ends has no node twice: the second visit would go on as the first. -/
theorem Path.nodup (p : Path next h l none) : l.Nodup := by
  induction l generalizing h with
  | nil => exact List.nodup_nil
  | cons a l ih =>
    refine List.nodup_cons.mpr ⟨fun member => ?_, ih p.2⟩
    obtain ⟨l₁, l₂, rfl⟩ := List.append_of_mem member
    obtain ⟨m, _, rest⟩ := path_append.mp p.2
    have longer : Path next (some a) (a :: (l₁ ++ a :: l₂)) none := ⟨rfl, p.2⟩
    have shorter : Path next (some a) (a :: l₂) none := ⟨rfl, rest.2⟩
    have lengths := congrArg List.length (longer.unique shorter)
    simp at lengths
    omega

/-- Links outside the list do not matter. -/
theorem Path.congr {next' : α → Option α} (p : Path next h l e) (same : ∀ a ∈ l, next' a = next a) :
    Path next' h l e := by
  induction l generalizing h with
  | nil => exact p
  | cons a l ih =>
    refine ⟨p.1, ?_⟩
    rw [same a (by simp)]
    exact ih p.2 fun b hb => same b (by simp [hb])

theorem Path.update [DecidableEq α] (p : Path next h l e) (outside : a ∉ l) (n : Option α) :
    Path (Function.update next a n) h l e := by
  apply p.congr
  intro b hb
  have apart : b ≠ a := fun eq => outside (eq ▸ hb)
  simp [apart]

variable [DecidableEq α]

/-! ### Appending, unlinking and rotating -/

/-- Unlink the head. -/
theorem Path.pop (p : Path next h (t :: l) none) :
    Path (Function.update next t none) (next t) l none :=
  p.2.update (List.nodup_cons.mp p.nodup).1 none

/-- Unlink `t` from behind `a`. -/
theorem Path.unlink (p : Path next h (l₁ ++ a :: t :: l₂) none) :
    Path (Function.update (Function.update next a (next t)) t none) h (l₁ ++ a :: l₂) none := by
  have nodup := p.nodup
  obtain ⟨m, front, rest⟩ := path_append.mp p
  obtain ⟨rfl, link, tail⟩ := rest
  simp only [List.nodup_append, List.nodup_cons, List.mem_cons] at nodup
  have aFront : a ∉ l₁ := fun member => nodup.2.2 a member a (by simp) rfl
  have tFront : t ∉ l₁ := fun member => nodup.2.2 t member t (by simp) rfl
  have aNeT : a ≠ t := fun eq => nodup.2.1.1 (.inl eq)
  have aTail : a ∉ l₂ := fun member => nodup.2.1.1 (.inr member)
  have tTail : t ∉ l₂ := nodup.2.1.2.1
  refine path_append.mpr ⟨some a, (front.update aFront _).update tFront _, rfl, ?_⟩
  simpa [aNeT] using (tail.update aTail _).update tTail _

/-- Move the head behind the last node. -/
theorem Path.rotate {z : α} (p : Path next h (a :: (l ++ [z])) none) :
    Path (Function.update (Function.update next z (some a)) a none) (next a) (l ++ [z] ++ [a]) none := by
  obtain ⟨aOut, nodup⟩ := List.nodup_cons.mp p.nodup
  have zNeA : z ≠ a := fun eq => aOut (by simp [eq])
  have zOut : z ∉ l := fun member => (List.nodup_append.mp nodup).2.2 z member z (by simp) rfl
  obtain ⟨m, front, rest⟩ := path_append.mp p.2
  have aFront : a ∉ l := fun member => aOut (by simp [member])
  rw [List.append_assoc]
  refine path_append.mpr ⟨m, (front.update zOut _).update aFront _, rest.1, ?_, ?_⟩
  · simp [zNeA]
  · simp

/-! ### Walks -/

omit [DecidableEq α] in
theorem tail_eq (p : Path next (some a) (l ++ [b]) none) {fuel : Nat} (enough : l.length < fuel) :
    tail next fuel a = some b := by
  induction l generalizing a fuel with
  | nil =>
    obtain ⟨same, ends⟩ := p
    cases same
    cases fuel with
    | zero => simp at enough
    | succ fuel => simp [tail, path_nil.mp ends]
  | cons c l ih =>
    obtain ⟨same, rest⟩ := p
    cases same
    cases fuel with
    | zero => simp at enough
    | succ fuel =>
      cases link : next c with
      | none =>
        rw [link] at rest
        cases l <;> cases rest.1
      | some n =>
        rw [link] at rest
        simp only [tail, link]
        exact ih rest (by simpa using enough)

theorem seek_notMem (p : Path next h l none) (absent : t ∉ l) {fuel : Nat} (enough : l.length ≤ fuel)
    (prev : Option α) : seek next t fuel prev h = some none := by
  induction l generalizing h fuel prev with
  | nil => cases p; cases fuel <;> rfl
  | cons a l ih =>
    obtain ⟨rfl, rest⟩ := p
    cases fuel with
    | zero => simp at enough
    | succ fuel =>
      simp only [List.mem_cons, not_or] at absent
      simp only [seek, if_neg (Ne.symm absent.1)]
      exact ih rest absent.2 (by simpa using enough) _

theorem seek_mem (p : Path next h (l₁ ++ t :: l₂) e) (absent : t ∉ l₁) {fuel : Nat}
    (enough : l₁.length < fuel) (prev : Option α) :
    seek next t fuel prev h = some (some (l₁.getLast?.or prev)) := by
  induction l₁ generalizing h fuel prev with
  | nil =>
    obtain ⟨rfl, _⟩ := p
    cases fuel with
    | zero => simp at enough
    | succ fuel => simp [seek]
  | cons a l ih =>
    obtain ⟨rfl, rest⟩ := p
    cases fuel with
    | zero => simp at enough
    | succ fuel =>
      simp only [List.mem_cons, not_or] at absent
      simp only [seek, if_neg (Ne.symm absent.1)]
      rw [ih rest absent.2 (by simpa using enough)]
      cases l with
      | nil => rfl
      | cons b l =>
        rw [List.getLast?_cons_cons]
        obtain ⟨z, last⟩ : ∃ z, (b :: l).getLast? = some z := by
          rw [← Option.isSome_iff_exists]; simp
        simp [last]

omit [DecidableEq α] in
theorem first_eq (p : Path next h l none) (q : α → Bool) {fuel : Nat} (enough : l.length ≤ fuel) :
    first next q fuel h = some (l.find? q) := by
  induction l generalizing h fuel with
  | nil => cases p; cases fuel <;> rfl
  | cons a l ih =>
    obtain ⟨rfl, rest⟩ := p
    cases fuel with
    | zero => simp at enough
    | succ fuel =>
      cases test : q a with
      | true => simp [first, test]
      | false =>
        simp only [first, test, List.find?_cons]
        exact ih rest (by simpa using enough)

omit [DecidableEq α] in
theorem nodes_eq (p : Path next h l none) {fuel : Nat} (enough : l.length ≤ fuel) :
    nodes next fuel h = l := by
  induction l generalizing h fuel with
  | nil => cases p; cases fuel <;> rfl
  | cons a l ih =>
    obtain ⟨rfl, rest⟩ := p
    cases fuel with
    | zero => simp at enough
    | succ fuel => rw [nodes, ih rest (by simpa using enough)]

omit [DecidableEq α] in
/-- On any list, `first` stops at the first node that meets `q` of those it can visit. -/
theorem first_nodes (next : α → Option α) (q : α → Bool) (fuel : Nat) (h : Option α) :
    first next q fuel h =
      match (nodes next fuel h).find? q with
      | some a => some (some a)
      | none => if ends next fuel h then some none else none := by
  induction fuel generalizing h with
  | zero => cases h <;> rfl
  | succ fuel ih =>
    cases h with
    | none => rfl
    | some cur =>
      cases test : q cur with
      | true => simp [first, nodes, test]
      | false =>
        simp only [first, nodes, ends, test, ih, List.find?_cons, Bool.false_eq_true, if_false]
        rfl

omit [DecidableEq α] in
/-- As much fuel as there are nodes is enough for a list that ends. -/
theorem Path.length_le {n : Nat} {next : Fin n → Option (Fin n)} {h : Option (Fin n)} {l : List (Fin n)}
    (p : Path next h l none) : l.length ≤ n := by
  simpa using p.nodup.length_le_card

/-- What `seek` and the unlinking behind it do to a list that ends: the list without `t`. -/
theorem Path.pull (p : Path next h (l₁ ++ t :: l₂) none) {fuel : Nat}
    (enough : (l₁ ++ t :: l₂).length ≤ fuel) :
    (l₁ = [] ∧ h = some t ∧ seek next t fuel none h = some (some none) ∧
        Path (Function.update next t none) (next t) l₂ none) ∨
      ∃ a, a ∈ l₁ ∧ a ≠ t ∧ seek next t fuel none h = some (some (some a)) ∧
        Path (Function.update (Function.update next a (next t)) t none) h (l₁ ++ l₂) none := by
  have apart : t ∉ l₁ := fun member =>
    (List.nodup_append.mp p.nodup).2.2 t member t (by simp) rfl
  have found : seek next t fuel none h = some (some (l₁.getLast?.or none)) :=
    seek_mem p apart (by simp at enough; omega) none
  rcases List.eq_nil_or_concat l₁ with rfl | ⟨l, a, rfl⟩
  · exact .inl ⟨rfl, p.1, by simpa using found, p.pop⟩
  · right
    rw [List.concat_eq_append] at *
    refine ⟨a, by simp, ?_, by simpa using found, ?_⟩
    · rintro rfl
      simp at apart
    · rw [List.append_assoc] at p ⊢
      exact p.unlink

end Chain
