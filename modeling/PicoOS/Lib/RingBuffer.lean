import Mathlib
import PicoOS.Lib.Recorder

/-!
# Ring buffers

A ring keeps `count` items in `cap` cells, from the cell `head` on and past the
last cell on from the first. It is a queue: an item is put behind the last one,
and the first one is taken.
-/
structure RingBuffer (α : Type) where
  cells : Nat → α
  head : Nat
  count : Nat

namespace RingBuffer

variable {α : Type} (cap : Nat) (r : RingBuffer α)

/-- The cell behind the last item. -/
def tail : Nat := (r.head + r.count) % cap

/-- The items, oldest first. -/
def items : List α := (List.range r.count).map fun i => r.cells ((r.head + i) % cap)

def put (x : α) : RingBuffer α :=
  { r with cells := Function.update r.cells (r.tail cap) x, count := r.count + 1 }

def drop : RingBuffer α := { r with head := (r.head + 1) % cap, count := r.count - 1 }

variable {cap} {r}

@[simp] theorem length_items : (r.items cap).length = r.count := by simp [items]

/-- Two items within `cap` of each other lie in different cells. -/
theorem cell_ne {i n : Nat} (behind : i < n) (room : n < cap) :
    (r.head + i) % cap ≠ (r.head + n) % cap :=
  Recorder.cell_ne (by omega) (by omega)

theorem items_put (room : r.count < cap) (x : α) : (r.put cap x).items cap = r.items cap ++ [x] := by
  simp only [items, put, List.range_succ, List.map_append, List.map_singleton]
  congr 1
  · refine List.map_congr_left fun i member => ?_
    have other := cell_ne (r := r) (List.mem_range.mp member) room
    exact Function.update_of_ne other x r.cells
  · rw [tail, Function.update_self]

theorem items_drop (inside : r.head < cap) (some : 0 < r.count) :
    r.items cap = r.cells r.head :: (r.drop cap).items cap := by
  obtain ⟨n, count⟩ := Nat.exists_eq_succ_of_ne_zero (Nat.ne_of_gt some)
  simp only [items, drop, count, List.range_succ_eq_map, List.map_cons, List.map_map]
  congr 1
  · rw [Nat.add_zero, Nat.mod_eq_of_lt inside]
  · refine List.map_congr_left fun i _ => ?_
    have shift : (r.head + (i + 1)) % cap = ((r.head + 1) % cap + i) % cap := by
      rw [Nat.mod_add_mod]
      congr 1
      omega
    exact congrArg r.cells shift

theorem tail_put (r : RingBuffer α) (cap : Nat) (x : α) : (r.put cap x).tail cap = (r.tail cap + 1) % cap := by
  simp only [tail, put, Nat.mod_add_mod, Nat.add_assoc]

theorem tail_drop (r : RingBuffer α) (cap : Nat) (some : 0 < r.count) : (r.drop cap).tail cap = r.tail cap := by
  simp only [tail, drop, Nat.mod_add_mod]
  congr 1
  omega

end RingBuffer
