import Mathlib
import PicoOS.Display.Line

/-!
# What the drawing functions mark

Every drawing function finishes, and every mark of it covers all rows it has
stored to since the mark before.
-/
namespace PicoOS.Display

/-- The rows between two of `ys`. -/
def Between (ys : List Nat) (y : Nat) : Prop := (∃ a ∈ ys, a ≤ y) ∧ ∃ b ∈ ys, y ≤ b

/-- The rows in `pending` have been stored to and not been marked yet: each mark covers them all,
and in the end none is left. -/
def Marked (g : Geometry) : (Nat → Prop) → List Access → Prop
  | pending, [] => ∀ y, ¬ pending y
  | pending, .store i _ :: as => i < g.fbSize ∧ Marked g (fun y => pending y ∨ y = i / g.width) as
  | pending, .markRows ys :: as =>
    (∀ y ∈ ys, y < g.height) ∧ (∀ y, pending y → Between ys y) ∧ Marked g (fun _ => False) as
  | _, .markAll :: as => Marked g (fun _ => False) as
  | pending, .setCursor _ :: as => Marked g pending as
  | pending, .setBg _ :: as => Marked g pending as

section Marks

variable {g : Geometry} {pending kept : Nat → Prop} {as bs : List Access}

theorem Marked.fewer (h : Marked g pending as) (less : ∀ y, kept y → pending y) :
    Marked g kept as := by
  induction as generalizing pending kept with
  | nil => exact fun y still => h y (less y still)
  | cons a as ih =>
    cases a with
    | store i color => exact ⟨h.1, ih h.2 fun y still => still.imp_left (less y)⟩
    | markRows ys => exact ⟨h.1, fun y still => h.2.1 y (less y still), h.2.2⟩
    | markAll => exact h
    | setCursor n => exact ih h less
    | setBg color => exact ih h less

theorem Marked.append (first : Marked g pending as) (second : Marked g (fun _ => False) bs) :
    Marked g pending (as ++ bs) := by
  induction as generalizing pending with
  | nil => exact second.fewer first
  | cons a as ih =>
    cases a with
    | store i color => exact ⟨first.1, ih first.2⟩
    | markRows ys => exact ⟨first.1, first.2.1, ih first.2.2⟩
    | markAll => exact ih first
    | setCursor n => exact ih first
    | setBg color => exact ih first

theorem marked_nil : Marked g (fun _ => False) [] := fun _ none => none

theorem marked_flatMap {α : Type} {f : α → List Access} (xs : List α)
    (each : ∀ x ∈ xs, Marked g (fun _ => False) (f x)) :
    Marked g (fun _ => False) (xs.flatMap f) := by
  induction xs with
  | nil => exact marked_nil
  | cons x xs ih =>
    rw [List.flatMap_cons]
    apply Marked.append (each x (by simp))
    exact ih fun y member => each y (List.mem_cons_of_mem x member)

theorem row_lt {i : Nat} (inside : i < g.fbSize) : i / g.width < g.height :=
  Nat.div_lt_of_lt_mul inside

theorem drawPixelImpl_marked (x y : Int) (color : UInt8) :
    Marked g (fun _ => False) (drawPixelImpl g x y color) := by
  unfold drawPixelImpl
  split_ifs with outside
  · exact marked_nil
  · have column : x.toNat < g.width := by omega
    have line : y.toNat < g.height := by omega
    have at_row : (y.toNat * g.width + x.toNat) / g.width = y.toNat := by
      rw [Nat.mul_comm, Nat.mul_add_div g.width_pos, Nat.div_eq_of_lt column, Nat.add_zero]
    have inside : y.toNat * g.width + x.toNat < g.fbSize := by
      have := Nat.mul_le_mul_right g.width (Nat.succ_le_of_lt line)
      rw [Nat.succ_mul] at this
      rw [Geometry.fbSize, Nat.mul_comm g.width]
      omega
    refine ⟨inside, ?_, ?_, marked_nil⟩
    · simpa using line
    · rintro r (none | rfl)
      · exact none.elim
      · rw [at_row]
        exact ⟨⟨_, List.mem_singleton_self _, le_refl _⟩, _, List.mem_singleton_self _, le_refl _⟩

theorem lineLoop_marked {x1 y1 dx dy sx sy : Int} {color : UInt8} {fuel : Nat} {x0 y0 err : Int}
    (done : lineLoop g x1 y1 dx dy sx sy color fuel x0 y0 err = some as) :
    Marked g (fun _ => False) as := by
  induction fuel generalizing x0 y0 err as with
  | zero => cases done
  | succ fuel ih =>
    rw [lineLoop] at done
    split at done
    · obtain rfl := Option.some.inj done
      exact drawPixelImpl_marked x0 y0 color
    · obtain ⟨rest, ends, rfl⟩ := Option.map_eq_some_iff.mp done
      exact (drawPixelImpl_marked x0 y0 color).append (ih ends)

theorem drawLineImpl_marked {x0 y0 x1 y1 : Int} {color : UInt8}
    (done : drawLineImpl g x0 y0 x1 y1 color = some as) : Marked g (fun _ => False) as :=
  lineLoop_marked done

/-- `draw_rect_impl` always finishes, and marks what it stores to. -/
theorem drawRectImpl_marked (g : Geometry) (x y w h : Int) (color : UInt8) (filled : Bool) :
    ∃ as, drawRectImpl g x y w h color filled = some as ∧ Marked g (fun _ => False) as := by
  unfold drawRectImpl
  split
  · refine ⟨_, rfl, ?_⟩
    apply marked_flatMap
    intro row _
    apply marked_flatMap
    intro col _
    exact drawPixelImpl_marked _ _ color
  · obtain ⟨top, drawn_top⟩ := drawLineImpl_ends g x y (x + w - 1) y color
    obtain ⟨right, drawn_right⟩ :=
      drawLineImpl_ends g (x + w - 1) y (x + w - 1) (y + h - 1) color
    obtain ⟨bottom, drawn_bottom⟩ :=
      drawLineImpl_ends g (x + w - 1) (y + h - 1) x (y + h - 1) color
    obtain ⟨left, drawn_left⟩ := drawLineImpl_ends g x (y + h - 1) x y color
    refine ⟨top ++ right ++ bottom ++ left, ?_, ?_⟩
    · rw [drawn_top, drawn_right, drawn_bottom, drawn_left]
      rfl
    · have upper := (drawLineImpl_marked drawn_top).append (drawLineImpl_marked drawn_right)
      have lower := upper.append (drawLineImpl_marked drawn_bottom)
      exact lower.append (drawLineImpl_marked drawn_left)

theorem drawCharImpl_marked (px py : Int) (c fg bg scale : UInt8) :
    Marked g (fun _ => False) (drawCharImpl g px py c fg bg scale) := by
  apply marked_flatMap
  intro row _
  apply marked_flatMap
  intro col _
  apply marked_flatMap
  intro sy _
  apply marked_flatMap
  intro sx _
  exact drawPixelImpl_marked _ _ _

theorem textLoop_marked (px : Int) (fg bg scale : UInt8) (str : List UInt8) (cx cy : Int) :
    Marked g (fun _ => False) (textLoop g px fg bg scale str cx cy) := by
  induction str generalizing cx cy with
  | nil => exact marked_nil
  | cons c str ih =>
    rw [textLoop]
    split
    · exact marked_nil
    · split
      · exact ih _ _
      · -- a character, after the line is wrapped where it must be
        dsimp only
        generalize (if cx + 8 * (scale.toNat : Int) > g.width then cy + 8 * (scale.toNat : Int)
          else cy) = row
        split
        · exact marked_nil
        · exact (drawCharImpl_marked _ _ c fg bg scale).append (ih _ _)

theorem drawTextImpl_marked (px py : Int) (str : Option (List UInt8)) (fg bg scale : UInt8) :
    Marked g (fun _ => False) (drawTextImpl g px py str fg bg scale) := by
  cases str with
  | none => exact marked_nil
  | some str => exact textLoop_marked px fg bg _ str px py

/-- The whole framebuffer may be stored to, where all rows are marked afterwards. -/
theorem memset_marked (color : UInt8) (rest : Marked g (fun _ => False) as) :
    Marked g pending (memset g color ++ .markAll :: as) := by
  have stores : ∀ (is : List Nat) (pending : Nat → Prop), (∀ i ∈ is, i < g.fbSize) →
      Marked g pending (is.map (.store · color) ++ .markAll :: as) := by
    intro is
    induction is with
    | nil => exact fun _ _ => rest
    | cons i is ih =>
      intro pending inside
      refine ⟨inside i (by simp), ih _ fun j member => inside j (List.mem_cons_of_mem i member)⟩
  exact stores _ pending fun i member => List.mem_range.mp member

theorem writeLoop_le (fbSize cursor : Nat) (buf : List UInt8) :
    cursor ≤ (writeLoop fbSize cursor buf).2 := by
  induction buf generalizing cursor with
  | nil => exact le_refl cursor
  | cons byte buf ih =>
    rw [writeLoop]
    split
    · have := ih (cursor + 1)
      dsimp only
      omega
    · exact le_refl cursor

theorem writeLoop_fits (fbSize cursor : Nat) (buf : List UInt8) :
    (writeLoop fbSize cursor buf).2 ≤ max cursor fbSize := by
  induction buf generalizing cursor with
  | nil => exact le_max_left cursor fbSize
  | cons byte buf ih =>
    rw [writeLoop]
    split
    · have := ih (cursor + 1)
      dsimp only
      omega
    · exact le_max_left cursor fbSize

/-- What the loop of `display_write` stores is marked by rows around it. -/
theorem writeLoop_marked {cursor : Nat} {buf : List UInt8} {ys : List Nat}
    (valid : ∀ y ∈ ys, y < g.height) (earlier : ∀ y, pending y → Between ys y)
    (around : ∀ i, cursor ≤ i → i < (writeLoop g.fbSize cursor buf).2 →
      Between ys (i / g.width)) :
    Marked g pending ((writeLoop g.fbSize cursor buf).1 ++ [.markRows ys]) := by
  induction buf generalizing cursor pending with
  | nil => exact ⟨valid, earlier, marked_nil⟩
  | cons byte buf ih =>
    rw [writeLoop] at around ⊢
    split
    · next inside =>
      rw [if_pos inside] at around
      have further := writeLoop_le g.fbSize (cursor + 1) buf
      refine ⟨inside, ih ?_ fun i from_here => around i (by omega)⟩
      rintro y (before | rfl)
      · exact earlier y before
      · exact around cursor (le_refl cursor) (by dsimp only; omega)
    · exact ⟨valid, earlier, marked_nil⟩

theorem displayWrite_marked (s : State) (buf : Option (List UInt8)) :
    Marked g (fun _ => False) (displayWrite g s buf).1 := by
  unfold displayWrite
  split
  · exact marked_nil
  · exact marked_nil
  · next bytes _ =>
    dsimp only
    have more := writeLoop_le g.fbSize s.writeCursor bytes
    have fits := writeLoop_fits g.fbSize s.writeCursor bytes
    split
    · next written =>
      have last_inside : (writeLoop g.fbSize s.writeCursor bytes).2 - 1 < g.fbSize := by omega
      apply writeLoop_marked
      · rintro y member
        rcases List.mem_pair.mp member with rfl | rfl
        · exact row_lt (by omega)
        · exact row_lt last_inside
      · exact fun _ none => none.elim
      · intro i after before
        refine ⟨⟨_, List.mem_cons_self, Nat.div_le_div_right after⟩, _,
          List.mem_cons_of_mem _ List.mem_cons_self, Nat.div_le_div_right (by omega)⟩
    · next unwritten =>
      -- nothing is stored: the cursor was at the end
      cases bytes with
      | nil => exact marked_nil
      | cons byte buf =>
        rw [writeLoop] at unwritten ⊢
        split
        · next inside =>
          rw [if_pos inside] at unwritten
          have := writeLoop_le g.fbSize (s.writeCursor + 1) buf
          dsimp only at unwritten
          omega
        · exact marked_nil

end Marks

end PicoOS.Display
