import Mathlib

/-!
# Runs

The maximal runs of a list between separators. Where the runs start is said of
each position by itself; a scan from left to right finds them one by one.
-/
namespace Runs

variable {α : Type} {sep : α → Bool} {l u w : List α} {i : Nat}

/-- A run starts here: no separator, and nothing or a separator in front of it. -/
def startsAt (sep : α → Bool) (l : List α) (i : Nat) : Bool :=
  l[i]?.any (fun c => !sep c) && (i == 0 || l[i - 1]?.any sep)

def starts (sep : α → Bool) (l : List α) : List Nat :=
  (List.range l.length).filter (startsAt sep l)

/-- From a position to the next separator. -/
def run (sep : α → Bool) (l : List α) (i : Nat) : List α := (l.drop i).takeWhile fun c => !sep c

/-- The maximal runs, in order. -/
def runs (sep : α → Bool) (l : List α) : List (List α) := (starts sep l).map (run sep l)

@[simp] theorem starts_nil : starts sep [] = [] := rfl

@[simp] theorem runs_nil : runs sep [] = [] := rfl

theorem run_append (sep : α → Bool) (u l : List α) (i : Nat) :
    run sep (u ++ l) (u.length + i) = run sep l i := by
  rw [run, List.drop_length_add_append, run]

/-- Where no run goes across, the starts on both sides are those of the parts. -/
theorem starts_append (apart : ∀ c ∈ l.head?, sep c = true ∨ ∀ b ∈ u.getLast?, sep b = true) :
    starts sep (u ++ l) =
      (List.range u.length).filter (startsAt sep (u ++ l)) ++
        (starts sep l).map (u.length + ·) := by
  have later (i : Nat) : startsAt sep (u ++ l) (u.length + i) = startsAt sep l i := by
    rw [startsAt, startsAt, List.getElem?_append_right (Nat.le_add_right ..), Nat.add_sub_cancel_left]
    cases i with
    | zero =>
      cases l with
      | nil => rfl
      | cons c l =>
        rcases apart c rfl with blank | blank
        · simp [blank]
        · cases last : u.getLast? with
          | none => simp [List.getLast?_eq_none_iff.mp last]
          | some b =>
            have before : (u ++ c :: l)[u.length + 0 - 1]? = some b := by
              have held : u ≠ [] := by
                rintro rfl
                cases last
              have := List.length_pos_iff.mpr held
              rw [Nat.add_zero, List.getElem?_append_left (by omega),
                ← List.getLast?_eq_getElem?, last]
            rw [before]
            simp [blank b last]
    | succ i =>
      have back : u.length + (i + 1) - 1 = u.length + i := by omega
      have inside : (u.length + (i + 1) == 0) = false := beq_eq_false_iff_ne.mpr (by omega)
      rw [back, List.getElem?_append_right (Nat.le_add_right ..), Nat.add_sub_cancel_left, inside]
      simp
  rw [starts, List.length_append, List.range_add, List.filter_append, List.filter_map, starts]
  congr 2
  exact List.filter_congr fun i _ => later i

/-- Separators in front. -/
theorem starts_skip (blank : ∀ c ∈ u, sep c = true) :
    starts sep (u ++ l) = (starts sep l).map (u.length + ·) := by
  rw [starts_append fun _ _ => .inr fun b last => blank b (List.mem_of_getLast? last)]
  refine List.append_left_eq_self.mpr (List.filter_eq_nil_iff.mpr fun i inside => ?_)
  have inside := List.mem_range.mp inside
  rw [startsAt, List.getElem?_append_left inside, List.getElem?_eq_getElem inside]
  simp [blank _ (List.getElem_mem inside)]

theorem starts_cons {c : α} (blank : sep c = true) :
    starts sep (c :: l) = (starts sep l).map (1 + ·) :=
  starts_skip (u := [c]) (by simpa using blank)

/-- A run in front. -/
theorem starts_run (held : w ≠ []) (full : ∀ c ∈ w, sep c = false)
    (ends : ∀ c ∈ l.head?, sep c = true) :
    starts sep (w ++ l) = 0 :: (starts sep l).map (w.length + ·) := by
  rw [starts_append fun c head => .inl (ends c head)]
  obtain ⟨c, w, rfl⟩ := List.exists_cons_of_ne_nil held
  rw [List.length_cons, List.range_succ_eq_map, List.filter_cons_of_pos, List.filter_map]
  · have others : (List.range w.length).filter (startsAt sep (c :: w ++ l) ∘ Nat.succ) = [] := by
      refine List.filter_eq_nil_iff.mpr fun i inside => ?_
      -- Behind the first item there is always one of the run in front.
      have inside := List.mem_range.mp inside
      obtain ⟨b, before⟩ : ∃ b, (c :: w)[i]? = some b := by
        rw [← Option.isSome_iff_exists, List.getElem?_eq_getElem (by rw [List.length_cons]; omega)]
        rfl
      have there : (c :: w ++ l)[i]? = some b := by
        rw [List.getElem?_append_left (by rw [List.length_cons]; omega), before]
      rw [List.cons_append] at there
      simp [startsAt, there, full b (List.mem_of_getElem? before)]
    rw [others]
    rfl
  · simp [startsAt, full c List.mem_cons_self]

theorem runs_skip (blank : ∀ c ∈ u, sep c = true) : runs sep (u ++ l) = runs sep l := by
  rw [runs, starts_skip blank, List.map_map, runs]
  exact List.map_congr_left fun i _ => run_append ..

theorem run_zero (full : ∀ c ∈ w, sep c = false) (ends : ∀ c ∈ l.head?, sep c = true) :
    run sep (w ++ l) 0 = w := by
  rw [run, List.drop_zero, List.takeWhile_append_of_pos (by simpa using full)]
  cases l with
  | nil => simp
  | cons c l => simp [ends c rfl]

theorem runs_run (held : w ≠ []) (full : ∀ c ∈ w, sep c = false)
    (ends : ∀ c ∈ l.head?, sep c = true) : runs sep (w ++ l) = w :: runs sep l := by
  rw [runs, starts_run held full ends, List.map_cons, run_zero full ends, List.map_map, runs]
  exact congrArg _ (List.map_congr_left fun i _ => run_append ..)

theorem mem_of_mem_runs {c : α} (member : w ∈ runs sep l) (inside : c ∈ w) : c ∈ l := by
  obtain ⟨i, -, rfl⟩ := List.mem_map.mp member
  exact List.mem_of_mem_drop ((List.takeWhile_sublist _).subset inside)

/-! ### Scanning -/

/-- What stands in front of the first item that does not pass, and that item with what follows. -/
theorem span_eq (q : α → Bool) (l : List α) :
    ∃ u v, l = u ++ v ∧ (∀ c ∈ u, q c = true) ∧ ∀ c ∈ v.head?, q c = false := by
  refine ⟨l.takeWhile q, l.dropWhile q, List.takeWhile_append_dropWhile.symm,
    fun c member => List.mem_takeWhile_imp member, fun c head => ?_⟩
  have first := List.head?_dropWhile_not q l
  rw [Option.mem_def.mp head] at first
  simpa using first

/-- Blanks, a run and a separator at a time. -/
theorem runs_induction (sep : α → Bool) {motive : List α → Prop}
    (blank : ∀ u, (∀ c ∈ u, sep c = true) → motive u)
    (last : ∀ u w, (∀ c ∈ u, sep c = true) → w ≠ [] → (∀ c ∈ w, sep c = false) → motive (u ++ w))
    (next : ∀ u w c t, (∀ c ∈ u, sep c = true) → w ≠ [] → (∀ c ∈ w, sep c = false) →
      sep c = true → motive t → motive (u ++ (w ++ c :: t))) (l : List α) : motive l := by
  induction n : l.length using Nat.strong_induction_on generalizing l with
  | _ n ih =>
    subst n
    obtain ⟨u, v, rfl, front, other⟩ := span_eq sep l
    obtain ⟨w, t, rfl, word, ends⟩ := span_eq (fun c => !sep c) v
    have full : ∀ c ∈ w, sep c = false := fun c member => by simpa using word c member
    by_cases held : w = []
    · subst held
      cases t with
      | nil => exact blank _ (by simpa using front)
      | cons c t => exact absurd (other c rfl) (by simpa using ends c rfl)
    · cases t with
      | nil =>
        rw [List.append_nil]
        exact last u w front held full
      | cons c t =>
        have shorter : t.length < (u ++ (w ++ c :: t)).length := by
          simp only [List.length_append, List.length_cons]
          omega
        exact next u w c t front held full (by simpa using ends c rfl) (ih _ shorter t rfl)

/-- The runs have room in the list, with a separator between any two. -/
theorem length_runs (sep : α → Bool) (l : List α) :
    (runs sep l).flatten.length + (runs sep l).length ≤ l.length + 1 := by
  induction l using runs_induction sep with
  | blank u front =>
    have none : runs sep (u ++ []) = _ := runs_skip front
    rw [List.append_nil] at none
    rw [none]
    simp
  | last u w front held full =>
    have one : runs sep (w ++ []) = _ := runs_run held full (fun c head => by cases head)
    rw [List.append_nil] at one
    rw [runs_skip front, one]
    simp
  | next u w c t front held full ends ih =>
    have ends' : ∀ b ∈ (c :: t).head?, sep b = true := fun b head => by
      cases head
      exact ends
    have later : runs sep ([c] ++ t) = _ := runs_skip (by simpa using ends)
    rw [List.singleton_append] at later
    rw [runs_skip front, runs_run held full ends', later]
    simp only [List.flatten_cons, List.length_append, List.length_cons]
    omega

end Runs
