import Mathlib
import PicoOS.Display.Driver

/-!
# Lines

The loop of `draw_line_impl` on all slopes. With `p` steps left in x and `q` in y
its error is a linear function of the two, and keeps the longer axis stepping
in every iteration; so the loop ends after exactly as many.
-/
namespace PicoOS.Display

/-- The variables of `draw_line_impl` at the head of an iteration. -/
structure LinePoint where
  x : Int
  y : Int
  err : Int
  deriving DecidableEq, Repr

/-- The rest of an iteration that does not end the loop. -/
def LinePoint.next (dx dy sx sy : Int) (s : LinePoint) : LinePoint :=
  let e2 := 2 * s.err
  let xStep := e2 ≥ dy
  let yStep := e2 ≤ dx
  let err := if xStep then s.err + dy else s.err
  { x := if xStep then s.x + sx else s.x
    y := if yStep then s.y + sy else s.y
    err := if yStep then err + dx else err }

/-- The iterations of the loop. -/
def lineTrace (x1 y1 dx dy sx sy : Int) : Nat → LinePoint → Option (List LinePoint)
  | 0, _ => none
  | fuel + 1, s =>
    if s.x = x1 ∧ s.y = y1 then some [s]
    else (lineTrace x1 y1 dx dy sx sy fuel (s.next dx dy sx sy)).map (s :: ·)

/-- The iterations of `draw_line_impl`. -/
def lineSteps (x0 y0 x1 y1 : Int) : Option (List LinePoint) :=
  let dx := if x1 > x0 then x1 - x0 else x0 - x1
  let dy := -(if y1 > y0 then y1 - y0 else y0 - y1)
  let sx := if x0 < x1 then 1 else -1
  let sy := if y0 < y1 then 1 else -1
  lineTrace x1 y1 dx dy sx sy ((dx - dy).toNat + 1) ⟨x0, y0, dx + dy⟩

/-- The loop plots the pixel of each iteration. -/
theorem lineLoop_eq (g : Geometry) (x1 y1 dx dy sx sy : Int) (color : UInt8) (fuel : Nat)
    (x0 y0 err : Int) :
    lineLoop g x1 y1 dx dy sx sy color fuel x0 y0 err =
      (lineTrace x1 y1 dx dy sx sy fuel ⟨x0, y0, err⟩).map
        (·.flatMap fun s => drawPixelImpl g s.x s.y color) := by
  induction fuel generalizing x0 y0 err with
  | zero => rfl
  | succ fuel ih =>
    rw [lineLoop, lineTrace]
    split
    next => simp
    next =>
      dsimp only
      rw [ih, Option.map_map, Option.map_map]
      rfl

theorem drawLineImpl_eq (g : Geometry) (x0 y0 x1 y1 : Int) (color : UInt8) :
    drawLineImpl g x0 y0 x1 y1 color =
      (lineSteps x0 y0 x1 y1).map (·.flatMap fun s => drawPixelImpl g s.x s.y color) :=
  lineLoop_eq ..

/-! ### The error -/

section

variable {x1 y1 sx sy : Int} {a d p q : Nat}

/-- The loop's error with `p` steps left in x and `q` in y. -/
def lineErr (a d p q : Nat) : Int := a - d + d * p - a * q

/-- The loop with `p` steps left in x and `q` in y. -/
def lineAt (x1 y1 sx sy : Int) (a d p q : Nat) : LinePoint :=
  ⟨x1 - sx * p, y1 - sy * q, lineErr a d p q⟩

/-- A line that has reached its last column takes no step in x. -/
theorem no_x_step (low : q ≤ d) (left : ¬ (p = 0 ∧ q = 0)) (step : 2 * lineErr a d p q ≥ -d) :
    0 < p := by
  by_contra ended
  obtain rfl : p = 0 := by omega
  have some_left : 1 ≤ q := by omega
  have many : (a : Int) * 1 ≤ a * q := Int.mul_le_mul_of_nonneg_left (by omega) (by omega)
  simp only [lineErr, Nat.cast_zero, mul_zero] at step
  omega

/-- A line that has reached its last row takes no step in y. -/
theorem no_y_step (low : p ≤ a) (left : ¬ (p = 0 ∧ q = 0)) (step : 2 * lineErr a d p q ≤ a) :
    0 < q := by
  by_contra ended
  obtain rfl : q = 0 := by omega
  have some_left : 1 ≤ p := by omega
  have many : (d : Int) * 1 ≤ d * p := Int.mul_le_mul_of_nonneg_left (by omega) (by omega)
  simp only [lineErr, Nat.cast_zero, mul_zero] at step
  omega

theorem at_end (unit : sx = 1 ∨ sx = -1) : x1 - sx * p = x1 ↔ p = 0 := by
  rcases unit with rfl | rfl <;> omega

theorem lineErr_x : lineErr a d (p + 1) q = lineErr a d p q + d := by
  simp only [lineErr, Nat.cast_add, Nat.cast_one]
  ring

theorem lineErr_y : lineErr a d p (q + 1) = lineErr a d p q - a := by
  simp only [lineErr, Nat.cast_add, Nat.cast_one]
  ring

/-- The error on a line that keeps to its longer axis. -/
structure Balanced (a d p q : Nat) : Prop where
  flat : d ≤ a → -(d : Int) ≤ 2 * lineErr a d p q ∧ 2 * lineErr a d p q ≤ 3 * a - 2 * d
  steep : a ≤ d → 2 * (a : Int) - 3 * d ≤ 2 * lineErr a d p q ∧ 2 * lineErr a d p q ≤ a

theorem Balanced.start (a d : Nat) : Balanced a d a d := by
  have err : lineErr a d a d = a - d := by
    simp only [lineErr]
    ring
  constructor <;> intro longer <;> omega

/-- What an iteration does to the column, and to the error. -/
theorem x_step_cases (x1 sx : Int) (a d : Nat) (c : Prop) [Decidable c] (left : c → 0 < p) (q : Nat) :
    ∃ p', (c → p = p' + 1) ∧ (¬ c → p = p') ∧
      (if c then x1 - sx * p + sx else x1 - sx * p) = x1 - sx * p' ∧
      (if c then lineErr a d p q + -d else lineErr a d p q) = lineErr a d p' q := by
  by_cases step : c
  · obtain ⟨p', rfl⟩ : ∃ p', p = p' + 1 := ⟨p - 1, by have := left step; omega⟩
    refine ⟨p', fun _ => rfl, fun h => absurd step h, ?_, ?_⟩
    · rw [if_pos step]
      push_cast
      ring
    · rw [if_pos step, lineErr_x]
      ring
  · exact ⟨p, fun h => absurd h step, fun _ => rfl, if_neg step, if_neg step⟩

/-- What an iteration does to the row, and to the error. -/
theorem y_step_cases (y1 sy : Int) (a d : Nat) (c : Prop) [Decidable c] (left : c → 0 < q) (p : Nat) :
    ∃ q', (c → q = q' + 1) ∧ (¬ c → q = q') ∧
      (if c then y1 - sy * q + sy else y1 - sy * q) = y1 - sy * q' ∧
      (if c then lineErr a d p q + a else lineErr a d p q) = lineErr a d p q' := by
  by_cases step : c
  · obtain ⟨q', rfl⟩ : ∃ q', q = q' + 1 := ⟨q - 1, by have := left step; omega⟩
    refine ⟨q', fun _ => rfl, fun h => absurd step h, ?_, ?_⟩
    · rw [if_pos step]
      push_cast
      ring
    · rw [if_pos step, lineErr_y]
      ring
  · exact ⟨q, fun h => absurd h step, fun _ => rfl, if_neg step, if_neg step⟩

/-- An iteration takes a step on the longer axis, and one on the other axis or none. -/
theorem next_lineAt (x1 y1 sx sy : Int) (low_x : p ≤ a) (low_y : q ≤ d) (left : ¬ (p = 0 ∧ q = 0))
    (balanced : Balanced a d p q) :
    ∃ p' q', (lineAt x1 y1 sx sy a d p q).next a (-d) sx sy = lineAt x1 y1 sx sy a d p' q' ∧
      Balanced a d p' q' ∧ p' ≤ p ∧ p ≤ p' + 1 ∧ q' ≤ q ∧ q ≤ q' + 1 ∧
      (d ≤ a → p = p' + 1) ∧ (a ≤ d → q = q' + 1) := by
  obtain ⟨p', step_x, stay_x, at_x, err_x⟩ :=
    x_step_cases x1 sx a d (2 * lineErr a d p q ≥ -d) (no_x_step low_y left) q
  obtain ⟨q', step_y, stay_y, at_y, err_y⟩ :=
    y_step_cases y1 sy a d (2 * lineErr a d p q ≤ a) (no_y_step low_x left) p'
  rw [← err_x] at err_y
  refine ⟨p', q', (LinePoint.mk.injEq ..).mpr ⟨at_x, at_y, err_y⟩, ?_, ?_⟩
  · constructor <;> intro longer
    · have := balanced.flat longer
      rw [← err_y]
      split_ifs <;> omega
    · have := balanced.steep longer
      rw [← err_y]
      split_ifs <;> omega
  · have flat := balanced.flat
    have steep := balanced.steep
    by_cases x_step : 2 * lineErr a d p q ≥ -d <;> by_cases y_step : 2 * lineErr a d p q ≤ a
    · have := step_x x_step
      have := step_y y_step
      omega
    · have := step_x x_step
      have := stay_y y_step
      omega
    · have := stay_x x_step
      have := step_y y_step
      omega
    · have := stay_x x_step
      have := stay_y y_step
      omega

end

/-! ### The whole loop -/

/-- The iterations from where `p` steps are left in x and `q` in y. -/
structure LineRun (x1 y1 sx sy : Int) (a d p q : Nat) (steps : List LinePoint) : Prop where
  count : steps.length = (if d ≤ a then p else q) + 1
  first : steps.head? = some (lineAt x1 y1 sx sy a d p q)
  last : steps.getLast? = some (lineAt x1 y1 sx sy a d 0 0)
  unit : steps.IsChain fun s t => |t.x - s.x| ≤ 1 ∧ |t.y - s.y| ≤ 1
  inside : ∀ s ∈ steps, ∃ p' ≤ p, ∃ q' ≤ q, s = lineAt x1 y1 sx sy a d p' q' ∧ Balanced a d p' q'

theorem lineTrace_run (x1 y1 : Int) {sx sy : Int} {a d p q : Nat} (unit_x : sx = 1 ∨ sx = -1)
    (unit_y : sy = 1 ∨ sy = -1) {fuel : Nat} (enough : p + q < fuel) (low_x : p ≤ a)
    (low_y : q ≤ d) (balanced : Balanced a d p q) :
    ∃ steps, lineTrace x1 y1 a (-d) sx sy fuel (lineAt x1 y1 sx sy a d p q) = some steps ∧
      LineRun x1 y1 sx sy a d p q steps := by
  induction fuel generalizing p q with
  | zero => omega
  | succ fuel ih =>
    rw [lineTrace]
    by_cases ended : p = 0 ∧ q = 0
    · rw [if_pos ⟨(at_end unit_x).mpr ended.1, (at_end unit_y).mpr ended.2⟩]
      obtain ⟨rfl, rfl⟩ := ended
      refine ⟨_, rfl, by simp, rfl, rfl, List.isChain_singleton _, fun s member => ?_⟩
      exact ⟨0, le_refl 0, 0, le_refl 0, List.mem_singleton.mp member, balanced⟩
    · rw [if_neg fun h => ended ⟨(at_end unit_x).mp h.1, (at_end unit_y).mp h.2⟩]
      obtain ⟨p', q', next, balanced', less_x, one_x, less_y, one_y, flat, steep⟩ :=
        next_lineAt x1 y1 sx sy low_x low_y ended balanced
      rw [next]
      have shorter : p' + q' < fuel := by omega
      obtain ⟨steps, rest, run⟩ := ih shorter (by omega) (by omega) balanced'
      refine ⟨_, by rw [rest, Option.map_some], ?_, rfl, ?_, ?_, fun s member => ?_⟩
      · rw [List.length_cons, run.count]
        split <;> omega
      · rw [List.getLast?_cons, run.last]
        rfl
      · refine List.isChain_cons.mpr ⟨fun t head => ?_, run.unit⟩
        rw [run.first] at head
        cases head
        simp only [lineAt]
        -- `p` and `p'` differ by one at most, and so do `q` and `q'`.
        constructor
        · rcases unit_x with rfl | rfl <;> rw [abs_le] <;> omega
        · rcases unit_y with rfl | rfl <;> rw [abs_le] <;> omega
      · rcases List.mem_cons.mp member with rfl | later
        · exact ⟨p, le_refl p, q, le_refl q, rfl, balanced⟩
        · obtain ⟨p'', less_p, q'', less_q, same, kept⟩ := run.inside s later
          exact ⟨p'', by omega, q'', by omega, same, kept⟩

/-- The steps on each axis, and their directions. -/
theorem lineSteps_run (x0 y0 x1 y1 : Int) :
    ∃ sx sy : Int, ∃ steps, (sx = 1 ∨ sx = -1) ∧ (sy = 1 ∨ sy = -1) ∧
      x1 - sx * (x1 - x0).natAbs = x0 ∧ y1 - sy * (y1 - y0).natAbs = y0 ∧
      lineSteps x0 y0 x1 y1 = some steps ∧
      LineRun x1 y1 sx sy (x1 - x0).natAbs (y1 - y0).natAbs (x1 - x0).natAbs (y1 - y0).natAbs
        steps := by
  let p : Nat := (x1 - x0).natAbs
  let q : Nat := (y1 - y0).natAbs
  let sx : Int := if x0 < x1 then 1 else -1
  let sy : Int := if y0 < y1 then 1 else -1
  have far_x : (if x1 > x0 then x1 - x0 else x0 - x1) = (p : Int) := by
    split_ifs <;> omega
  have far_y : (if y1 > y0 then y1 - y0 else y0 - y1) = (q : Int) := by
    split_ifs <;> omega
  have from_x : x1 - sx * p = x0 := by
    simp only [sx]
    split_ifs <;> omega
  have from_y : y1 - sy * q = y0 := by
    simp only [sy]
    split_ifs <;> omega
  have err : lineErr p q p q = p + -q := by
    simp only [lineErr]
    ring
  have unit_x : sx = 1 ∨ sx = -1 := by
    simp only [sx]
    split_ifs <;> simp
  have unit_y : sy = 1 ∨ sy = -1 := by
    simp only [sy]
    split_ifs <;> simp
  obtain ⟨steps, ran, run⟩ := lineTrace_run x1 y1 unit_x unit_y (Nat.lt_succ_self (p + q))
    (le_refl p) (le_refl q) (.start p q)
  refine ⟨sx, sy, steps, unit_x, unit_y, from_x, from_y, ?_, run⟩
  have fuel : ((p : Int) - -(q : Int)).toNat = p + q := by omega
  rw [← ran]
  unfold lineSteps
  dsimp only
  rw [far_x, far_y, fuel, lineAt, from_x, from_y, err]

/-- `draw_line_impl` always finishes. -/
theorem drawLineImpl_ends (g : Geometry) (x0 y0 x1 y1 : Int) (color : UInt8) :
    ∃ as, drawLineImpl g x0 y0 x1 y1 color = some as := by
  obtain ⟨_, _, steps, _, _, _, _, ran, _⟩ := lineSteps_run x0 y0 x1 y1
  exact ⟨_, by rw [drawLineImpl_eq, ran, Option.map_some]⟩

/-! ### Exact lines -/

/-- The value fits in an `int`. -/
def FitsInt (n : Int) : Prop := -2 ^ 31 ≤ n ∧ n < 2 ^ 31

/-- The iterations draw the line between the two points: one for each step on its longer axis, from
end to end, at most one pixel from the ideal line on the shorter axis, and with values of `err` that
do not overflow. -/
structure DrawsLine (x0 y0 x1 y1 : Int) (steps : List LinePoint) : Prop where
  count : steps.length = max (x1 - x0).natAbs (y1 - y0).natAbs + 1
  first : steps.head?.map (fun s => (s.x, s.y)) = some (x0, y0)
  last : steps.getLast?.map (fun s => (s.x, s.y)) = some (x1, y1)
  unit : steps.IsChain fun s t => |t.x - s.x| ≤ 1 ∧ |t.y - s.y| ≤ 1
  box : ∀ s ∈ steps, min x0 x1 ≤ s.x ∧ s.x ≤ max x0 x1 ∧ min y0 y1 ≤ s.y ∧ s.y ≤ max y0 y1
  ideal : ∀ s ∈ steps,
    |(x1 - x0) * (s.y - y0) - (y1 - y0) * (s.x - x0)| ≤ max |x1 - x0| |y1 - y0|
  fits : ∀ s ∈ steps, FitsInt s.err ∧ FitsInt (2 * s.err) ∧ FitsInt (s.err - |y1 - y0|)

/-- The endpoints that 16-bit arguments lead to, those of the sides of a rectangle included. -/
def Reachable (n : Int) : Prop := -1 ≤ n ∧ n ≤ 131069

section

variable {x1 y1 sx sy : Int} {a d p q : Nat}

/-- How far the loop is from the ideal line, times the steps on the longer axis. -/
theorem Balanced.ideal (balanced : Balanced a d p q) : |(d : Int) * p - a * q| ≤ max a d := by
  have err : lineErr a d p q = a - d + (d * p - a * q) := by
    simp only [lineErr]
    ring
  have flat := balanced.flat
  have steep := balanced.steep
  rw [err] at flat steep
  generalize (d : Int) * p - a * q = off at flat steep
  rw [abs_le]
  omega

theorem Balanced.err_bounds (balanced : Balanced a d p q) :
    -3 * (max a d : Int) ≤ 2 * lineErr a d p q ∧ 2 * lineErr a d p q ≤ 3 * (max a d : Int) := by
  have flat := balanced.flat
  have steep := balanced.steep
  omega

end

theorem lineSteps_draws {x0 y0 x1 y1 : Int} (reach_x0 : Reachable x0) (reach_y0 : Reachable y0)
    (reach_x1 : Reachable x1) (reach_y1 : Reachable y1) :
    ∃ steps, lineSteps x0 y0 x1 y1 = some steps ∧ DrawsLine x0 y0 x1 y1 steps := by
  obtain ⟨sx, sy, steps, unit_x, unit_y, from_x, from_y, ran, run⟩ := lineSteps_run x0 y0 x1 y1
  refine ⟨steps, ran, ?_, ?_, ?_, run.unit, fun s member => ?_, fun s member => ?_,
    fun s member => ?_⟩
  · rw [run.count]
    split <;> omega
  · rw [run.first, Option.map_some, lineAt, from_x, from_y]
  · rw [run.last, Option.map_some, lineAt]
    simp
  · obtain ⟨p, less_p, q, less_q, rfl, _⟩ := run.inside s member
    simp only [lineAt]
    rcases unit_x with rfl | rfl <;> rcases unit_y with rfl | rfl <;> omega
  · obtain ⟨p, less_p, q, less_q, rfl, balanced⟩ := run.inside s member
    have far := balanced.ideal
    rw [Int.abs_eq_natAbs (x1 - x0), Int.abs_eq_natAbs (y1 - y0)]
    generalize (x1 - x0).natAbs = a at *
    generalize (y1 - y0).natAbs = d at *
    have cross : (x1 - x0) * (y1 - sy * q - y0) - (y1 - y0) * (x1 - sx * p - x0) =
        sx * sy * (d * p - a * q) := by
      rw [← from_x, ← from_y]
      ring
    simp only [lineAt]
    rw [cross]
    rcases unit_x with rfl | rfl <;> rcases unit_y with rfl | rfl <;>
      simpa [abs_sub_comm] using far
  · obtain ⟨p, less_p, q, less_q, rfl, balanced⟩ := run.inside s member
    have bounds := balanced.err_bounds
    rw [Int.abs_eq_natAbs]
    simp only [lineAt, FitsInt]
    unfold Reachable at *
    omega

/-- The pixels of the iterations. -/
def plot (g : Geometry) (color : UInt8) (steps : List LinePoint) : List Access :=
  steps.flatMap fun s => drawPixelImpl g s.x s.y color

/-- `draw_line_impl` ends and is exact. -/
theorem draw_line_exact (g : Geometry) {x0 y0 x1 y1 : Int} (color : UInt8) (reach_x0 : Reachable x0)
    (reach_y0 : Reachable y0) (reach_x1 : Reachable x1) (reach_y1 : Reachable y1) :
    ∃ steps, lineSteps x0 y0 x1 y1 = some steps ∧ DrawsLine x0 y0 x1 y1 steps ∧
      drawLineImpl g x0 y0 x1 y1 color = some (plot g color steps) := by
  obtain ⟨steps, ran, draws⟩ := lineSteps_draws reach_x0 reach_y0 reach_x1 reach_y1
  exact ⟨steps, ran, draws, by rw [drawLineImpl_eq, ran, Option.map_some, plot]⟩

theorem draw_line_corner : ∃ steps, lineSteps 131069 7 (-1) 131069 = some steps ∧
    DrawsLine 131069 7 (-1) 131069 steps ∧
      drawLineImpl pack 131069 7 (-1) 131069 0xE0 = some (plot pack 0xE0 steps) :=
  draw_line_exact pack 0xE0 (by unfold Reachable; omega) (by unfold Reachable; omega)
    (by unfold Reachable; omega) (by unfold Reachable; omega)

theorem reachable_arg (v : UInt16) : Reachable v.toNat := by
  have := v.toNat_lt
  unfold Reachable
  omega

theorem reachable_corner (v n : UInt16) : Reachable (v.toNat + n.toNat - 1) := by
  have := v.toNat_lt
  have := n.toNat_lt
  unfold Reachable
  omega

/-- The outline of a rectangle is four exact lines. -/
theorem drawRectImpl_outline (g : Geometry) (x y w h : UInt16) (color : UInt8) :
    let right : Int := x.toNat + w.toNat - 1
    let bottom : Int := y.toNat + h.toNat - 1
    ∃ a b c d, DrawsLine x.toNat y.toNat right y.toNat a ∧ DrawsLine right y.toNat right bottom b ∧
      DrawsLine right bottom x.toNat bottom c ∧ DrawsLine x.toNat bottom x.toNat y.toNat d ∧
      drawRectImpl g x.toNat y.toNat w.toNat h.toNat color false =
        some (plot g color a ++ plot g color b ++ plot g color c ++ plot g color d) := by
  intro right bottom
  have left_in := reachable_arg x
  have top_in := reachable_arg y
  have right_in : Reachable right := reachable_corner x w
  have bottom_in : Reachable bottom := reachable_corner y h
  obtain ⟨a, ran_a, draws_a⟩ := lineSteps_draws left_in top_in right_in top_in
  obtain ⟨b, ran_b, draws_b⟩ := lineSteps_draws right_in top_in right_in bottom_in
  obtain ⟨c, ran_c, draws_c⟩ := lineSteps_draws right_in bottom_in left_in bottom_in
  obtain ⟨d, ran_d, draws_d⟩ := lineSteps_draws left_in bottom_in left_in top_in
  refine ⟨a, b, c, d, draws_a, draws_b, draws_c, draws_d, ?_⟩
  simp only [drawRectImpl, Bool.false_eq_true, if_false, drawLineImpl_eq]
  rw [ran_a, ran_b, ran_c, ran_d]
  rfl

end PicoOS.Display
