import Mathlib

/-!
# The panel

The frame memory of the ST7789 as the driver sees it: CASET and RASET address a
window of columns and rows, RAMWR puts the write pointer into its first corner,
and the bytes that follow fill it row by row, two to a pixel.
-/
namespace PicoOS.Display

/-- `ST7789_CASET`. -/
def caset : UInt8 := 0x2A

/-- `ST7789_RASET`. -/
def raset : UInt8 := 0x2B

/-- `ST7789_RAMWR`. -/
def ramwr : UInt8 := 0x2C

structure Window where
  first : Nat
  last : Nat
  deriving DecidableEq, Repr

structure Panel where
  /-- The pixels by physical row and column. -/
  gram : Nat → Nat → UInt16
  columns : Window
  rows : Window
  command : UInt8
  params : List UInt8
  row : Nat
  col : Nat
  /-- The high byte of a pixel, while the low one is to come. -/
  high : Option UInt8

/-- Two bytes, the high one first. -/
def word (hi lo : UInt8) : UInt16 := .ofNat (hi.toNat * 256 + lo.toNat)

namespace Panel

/-- `st7789_cmd`: a byte with DC low. -/
def cmd (p : Panel) (c : UInt8) : Panel :=
  let p := { p with command := c, params := [], high := none }
  if c = ramwr then { p with row := p.rows.first, col := p.columns.first } else p

/-- The write pointer moves on within the window, and from its end to its start. -/
def advance (p : Panel) : Panel :=
  if p.col < p.columns.last then { p with col := p.col + 1 }
  else if p.row < p.rows.last then { p with col := p.columns.first, row := p.row + 1 }
  else { p with col := p.columns.first, row := p.rows.first }

/-- A pixel goes to the write pointer. -/
def put (p : Panel) (v : UInt16) : Panel :=
  { p with
    gram := Function.update p.gram p.row (Function.update (p.gram p.row) p.col v) }.advance

/-- A command that has its four parameters sets its window. -/
def address (p : Panel) : Panel :=
  match p.params with
  | [a, b, c, d] =>
    let w : Window := ⟨(word a b).toNat, (word c d).toNat⟩
    if p.command = caset then { p with columns := w }
    else if p.command = raset then { p with rows := w }
    else p
  | _ => p

/-- A byte with DC high. -/
def data (p : Panel) (b : UInt8) : Panel :=
  if p.command = ramwr then
    match p.high with
    | none => { p with high := some b }
    | some h => { p with high := none }.put (word h b)
  else { p with params := p.params ++ [b] }.address

/-- `st7789_data`, and `spi_write_blocking` with DC high. -/
def send (p : Panel) (bytes : List UInt8) : Panel := bytes.foldl data p

end Panel

/-- The two bytes of a pixel as they are sent. -/
def bytesOf (v : UInt16) : List UInt8 := [(v >>> 8).toUInt8, (v &&& 0xFF).toUInt8]

theorem word_bytes (v : UInt16) : word (v >>> 8).toUInt8 (v &&& 0xFF).toUInt8 = v := by
  have bound : v.toNat < 65536 := v.toNat_lt
  have high : (v >>> 8).toUInt8.toNat = v.toNat / 256 % 256 := by
    simp [Nat.shiftRight_eq_div_pow]
  have low : (v &&& 0xFF).toUInt8.toNat = v.toNat % 256 := by
    have masked : v.toNat % 256 &&& 255 = v.toNat % 256 % 256 :=
      Nat.and_two_pow_sub_one_eq_mod (v.toNat % 256) 8
    simpa using masked
  apply UInt16.toNat_inj.mp
  rw [word, high, low, UInt16.toNat_ofNat']
  omega

namespace Panel

section Stream

variable (p : Panel) (v : UInt16)

@[simp] theorem advance_command : p.advance.command = p.command := by
  unfold advance
  split_ifs <;> rfl

@[simp] theorem advance_high : p.advance.high = p.high := by
  unfold advance
  split_ifs <;> rfl

end Stream

/-- The two bytes of a pixel put it to the write pointer. -/
theorem send_pixel {p : Panel} (writing : p.command = ramwr) (whole : p.high = none) (v : UInt16) :
    p.send (bytesOf v) = p.put v := by
  have first : p.data (v >>> 8).toUInt8 = { p with high := some (v >>> 8).toUInt8 } := by
    simp only [data, writing, whole, if_true]
  have second : ({ p with high := some (v >>> 8).toUInt8 } : Panel).data (v &&& 0xFF).toUInt8 =
      ({ p with high := none } : Panel).put v := by
    simp only [data, writing, if_true, word_bytes]
  have same : ({ p with high := none } : Panel) = p := by
    rw [← whole]
  show (p.data _).data _ = _
  rw [first, second, same]

theorem send_append (p : Panel) (xs ys : List UInt8) : p.send (xs ++ ys) = (p.send xs).send ys :=
  List.foldl_append

/-- The bytes of a list of pixels put them one after another. -/
theorem send_pixels {p : Panel} (writing : p.command = ramwr) (whole : p.high = none)
    (vs : List UInt16) : p.send (vs.flatMap bytesOf) = vs.foldl put p := by
  induction vs generalizing p with
  | nil => rfl
  | cons v vs ih =>
    rw [List.flatMap_cons, send_append, send_pixel writing whole, List.foldl_cons]
    exact ih (by simp [put, writing]) (by simp [put, whole])

/-- Pixels that end with the window's last column fill the rest of the pointer's row, and the
pointer goes to the start of the next one. -/
theorem put_row {p : Panel} {vs : List UInt16} (some_pixel : vs ≠ [])
    (fits : p.col + vs.length = p.columns.last + 1) :
    vs.foldl put p = { p with
      gram := Function.update p.gram p.row fun c =>
        if p.col ≤ c then (vs[c - p.col]?).getD (p.gram p.row c) else p.gram p.row c
      col := p.columns.first
      row := if p.row < p.rows.last then p.row + 1 else p.rows.first } := by
  induction vs generalizing p with
  | nil => exact absurd rfl some_pixel
  | cons v vs ih =>
    by_cases last : vs = []
    · -- the last pixel goes into the last column, and the pointer wraps
      subst last
      have ends : ¬ p.col < p.columns.last := by
        simp only [List.length_singleton] at fits
        omega
      have painted : Function.update (p.gram p.row) p.col v = fun c =>
          if p.col ≤ c then ([v][c - p.col]?).getD (p.gram p.row c) else p.gram p.row c := by
        funext c
        by_cases here : c = p.col
        · simp [here]
        · by_cases right : p.col ≤ c
          · have beyond : c - p.col ≠ 0 := by omega
            simp [here, right, beyond]
          · simp [here, right]
      simp only [List.foldl_cons, List.foldl_nil, put, advance, ends, if_false, painted]
      split_ifs <;> rfl
    · -- the pointer stays in the row, and the induction hypothesis speaks of the columns behind it
      have inside : p.col < p.columns.last := by
        have := List.length_pos_iff.mpr last
        simp only [List.length_cons] at fits
        omega
      have next : p.put v = { p with
          gram := Function.update p.gram p.row (Function.update (p.gram p.row) p.col v)
          col := p.col + 1 } := by
        simp only [put, advance, inside, if_true]
      rw [List.foldl_cons, ih last (by simp [next] at fits ⊢; omega), next]
      congr 1
      funext r
      by_cases same : r = p.row
      · subst same
        funext c
        simp only [Function.update_self]
        by_cases left : c < p.col
        · have before : ¬ p.col ≤ c := by omega
          have earlier : ¬ p.col + 1 ≤ c := by omega
          rw [if_neg before, if_neg earlier, Function.update_of_ne (by omega)]
        · by_cases here : c = p.col
          · simp [here]
          · have right : p.col + 1 ≤ c := by omega
            have index : c - p.col = c - (p.col + 1) + 1 := by omega
            rw [if_pos right, if_pos (by omega), Function.update_of_ne here, index,
              List.getElem?_cons_succ]
      · simp [same]

end Panel

end PicoOS.Display
