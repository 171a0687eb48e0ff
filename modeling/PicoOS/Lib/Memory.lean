import Mathlib

/-!
# Flat memories

A memory is a total function from addresses to cells. Block reads return lists,
block copies take their source as a function, the way `memcpy` takes a pointer.
`overlay` is the list-level counterpart of writing a block over a buffer.
-/
namespace Memory

variable {β : Type}

/-- `len` consecutive cells from `off`. -/
def read (m : Nat → β) (off len : Nat) : List β :=
  (List.range len).map fun k => m (off + k)

/-- Copy `len` cells of `src`, starting at its address 0, to `off`. -/
def copy (m : Nat → β) (off : Nat) (src : Nat → β) (len : Nat) : Nat → β :=
  fun a => if off ≤ a ∧ a < off + len then src (a - off) else m a

/-- Set `len` cells from `off` to one value. -/
def fill (m : Nat → β) (off len : Nat) (v : β) : Nat → β :=
  copy m off (fun _ => v) len

/-- Store the cells of a list at `off`. -/
def write (m : Nat → β) (off : Nat) (bs : List β) : Nat → β :=
  fun a => if off ≤ a then (bs[a - off]?).getD (m a) else m a

@[simp] theorem length_read (m : Nat → β) (off len : Nat) : (read m off len).length = len := by
  simp [read]

@[simp] theorem read_zero (m : Nat → β) (off : Nat) : read m off 0 = [] := rfl

theorem getElem_read (m : Nat → β) (off len k : Nat) (h : k < (read m off len).length) :
    (read m off len)[k] = m (off + k) := by
  simp [read]

theorem getElem?_read (m : Nat → β) (off len k : Nat) :
    (read m off len)[k]? = if k < len then some (m (off + k)) else none := by
  simp only [read, List.getElem?_map]
  split
  next h => simp [List.getElem?_range h]
  next h => simp [List.getElem?_eq_none (l := List.range len) (by simpa using h)]

/-- Equal cells, possibly at different addresses, read the same. -/
theorem read_eq_read {m n : Nat → β} {off off' len : Nat}
    (h : ∀ k, k < len → m (off + k) = n (off' + k)) : read m off len = read n off' len := by
  apply List.ext_getElem (by simp)
  intro k hk _
  simp only [length_read] at hk
  simp only [getElem_read]
  exact h k hk

/-- A read depends only on the cells it covers. -/
theorem read_congr {m n : Nat → β} {off len : Nat}
    (h : ∀ a, off ≤ a → a < off + len → m a = n a) : read m off len = read n off len :=
  read_eq_read fun k hk => h (off + k) (by omega) (by omega)

theorem read_append (m : Nat → β) (off a b : Nat) :
    read m off (a + b) = read m off a ++ read m (off + a) b := by
  simp [read, List.range_add, Nat.add_assoc]

theorem take_read (m : Nat → β) (off len k : Nat) :
    (read m off len).take k = read m off (min k len) := by
  simp [read, ← List.map_take, List.take_range]

theorem drop_read (m : Nat → β) (off len k : Nat) (h : k ≤ len) :
    (read m off len).drop k = read m (off + k) (len - k) := by
  conv_lhs => rw [show len = k + (len - k) by omega, read_append]
  rw [List.drop_left' (by simp)]

theorem copy_inside (m src : Nat → β) (off len a : Nat) (lower : off ≤ a) (upper : a < off + len) :
    copy m off src len a = src (a - off) := by
  simp [copy, lower, upper]

theorem copy_outside (m src : Nat → β) (off len a : Nat) (h : a < off ∨ off + len ≤ a) :
    copy m off src len a = m a := by
  simp only [copy, ite_eq_right_iff, and_imp]
  intro lower upper
  omega

theorem fill_inside (m : Nat → β) (off len : Nat) (v : β) (a : Nat) (lower : off ≤ a)
    (upper : a < off + len) : fill m off len v a = v :=
  copy_inside m _ off len a lower upper

theorem fill_outside (m : Nat → β) (off len : Nat) (v : β) (a : Nat)
    (h : a < off ∨ off + len ≤ a) : fill m off len v a = m a :=
  copy_outside m _ off len a h

/-- Reading from a block that was just copied returns the source. -/
theorem read_copy (m src : Nat → β) {off len k : Nat} (h : k ≤ len) :
    read (copy m off src len) off k = read src 0 k := by
  apply read_eq_read
  intro j hj
  rw [copy_inside _ _ _ _ _ (by omega) (by omega), Nat.add_sub_cancel_left, Nat.zero_add]

/-! ## Writing over a buffer -/

/-- Replace the cells of `base` from `pos` on by `data`, extending it when the
data reaches past the end. -/
def overlay (base : List β) (pos : Nat) (data : List β) : List β :=
  base.take pos ++ data ++ base.drop (pos + data.length)

@[simp] theorem overlay_nil (base : List β) (pos : Nat) : overlay base pos [] = base := by
  simp [overlay]

theorem length_overlay (base : List β) (pos : Nat) (data : List β) (h : pos ≤ base.length) :
    (overlay base pos data).length = max base.length (pos + data.length) := by
  simp only [overlay, List.length_append, List.length_take, List.length_drop]
  omega

theorem getElem?_overlay (base : List β) (pos : Nat) (data : List β) (k : Nat)
    (h : pos ≤ base.length) : (overlay base pos data)[k]? =
      if k < pos then base[k]? else if k < pos + data.length then data[k - pos]? else base[k]? := by
  have front : (base.take pos).length = pos := by simp [h]
  simp only [overlay, List.append_assoc, List.getElem?_append, front]
  split
  next before => rw [List.getElem?_take_of_lt before]
  next before =>
    split <;> split
    · rfl
    · omega
    · omega
    · rw [List.getElem?_drop]
      congr 1
      omega

/-- Two writes at consecutive positions are one write of the joined data. -/
theorem overlay_overlay (base : List β) (pos : Nat) (first second : List β)
    (h : pos ≤ base.length) :
    overlay (overlay base pos first) (pos + first.length) second =
      overlay base pos (first ++ second) := by
  have front : (base.take pos ++ first).length = pos + first.length := by
    simp [Nat.min_eq_left h]
  have back : (base.take pos ++ first ++ base.drop (pos + first.length)).drop
      (pos + first.length + second.length) = base.drop (pos + (first ++ second).length) := by
    rw [List.drop_append, List.drop_eq_nil_of_le (by omega), front, List.nil_append, List.drop_drop,
      List.length_append]
    congr 1
    omega
  rw [overlay, overlay, back, List.take_left' front, overlay]
  simp only [List.append_assoc]

theorem write_outside (m : Nat → β) (off : Nat) (bs : List β) (a : Nat)
    (h : a < off ∨ off + bs.length ≤ a) : write m off bs a = m a := by
  simp only [write]
  split
  next lower => rw [List.getElem?_eq_none (by omega), Option.getD_none]
  · rfl

theorem write_inside (m : Nat → β) (off : Nat) (bs : List β) (k : Nat) (h : k < bs.length) :
    write m off bs (off + k) = bs[k] := by
  simp [write, h]

/-- Writing inside a buffer, read back, is the overlay of what was there. -/
theorem read_write (m : Nat → β) (off len pos : Nat) (data : List β) (h : pos ≤ len) :
    read (write m (off + pos) data) off (max len (pos + data.length)) =
      overlay (read m off len) pos data := by
  apply List.ext_getElem?
  intro k
  rw [getElem?_overlay _ _ _ _ (by simpa using h)]
  simp only [getElem?_read]
  by_cases before : k < pos
  · rw [if_pos before, if_pos (by omega), if_pos (by omega), write_outside _ _ _ _ (by omega)]
  by_cases inside : k < pos + data.length
  · have shift : off + k = off + pos + (k - pos) := by omega
    rw [if_neg before, if_pos inside, if_pos (by omega), shift, write_inside _ _ _ _ (by omega),
      List.getElem?_eq_getElem]
  · rw [if_neg before, if_neg inside, write_outside _ _ _ _ (by omega)]
    congr 1
    simp only [eq_iff_iff]
    omega

end Memory
