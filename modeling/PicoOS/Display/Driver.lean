import Mathlib
import PicoOS.Display.Panel
import PicoOS.Display.Font

/-!
# The display driver

`display.c`. A drawing call is the list of its accesses to the driver's static
variables: which accesses it makes depends on its arguments, `bg_color` and
`write_cursor` alone, never on the framebuffer or the dirty rows. `none` is a
line that is never finished.
-/
namespace PicoOS.Display

/-- `PICOOS_SPLASH_TEXT`. -/
def splashText : List UInt8 := "picoOS 0.4.1".toList.map fun c => c.toNat.toUInt8

/-- The geometry of a display: `DISP_WIDTH`, `DISP_HEIGHT`, `DISP_COL_OFFSET` and
`DISP_ROW_OFFSET`, with the scale of the splash text. -/
structure Geometry where
  width : Nat
  height : Nat
  colOffset : Nat
  rowOffset : Nat
  splashScale : UInt8
  width_pos : 0 < width
  height_pos : 0 < height
  columns_fit : colOffset + width ≤ 65536
  rows_fit : rowOffset + height ≤ 65536
  splash_fits : splashText.length * 8 * splashScale.toNat ≤ width ∧ 8 * splashScale.toNat ≤ height

/-- Display Pack. -/
def pack : Geometry where
  width := 240
  height := 135
  colOffset := 40
  rowOffset := 53
  splashScale := 2
  width_pos := by decide
  height_pos := by decide
  columns_fit := by decide
  rows_fit := by decide
  splash_fits := by decide

/-- Display Pack 2. -/
def pack2 : Geometry where
  width := 320
  height := 240
  colOffset := 0
  rowOffset := 0
  splashScale := 3
  width_pos := by decide
  height_pos := by decide
  columns_fit := by decide
  rows_fit := by decide
  splash_fits := by decide

/-- `COLOR_BLACK`. -/
def colorBlack : UInt8 := 0x00

/-- `COLOR_WHITE`. -/
def colorWhite : UInt8 := 0xFF

/-- `COLOR_BLUE`. -/
def colorBlue : UInt8 := 0x03

/-- The driver's static variables, the backlight's level and the panel. -/
structure State where
  framebuffer : Nat → UInt8
  bgColor : UInt8
  initialized : Bool
  writeCursor : Nat
  dirtyMin : Nat
  dirtyMax : Nat
  backlight : UInt8
  panel : Panel

/-- An access to the static variables. A `markRows` is what one call of a drawing function marks
in a row: the rows go through `dirty_mark_row` one after another. -/
inductive Access
  | store (i : Nat) (color : UInt8)
  | markRows (ys : List Nat)
  | markAll
  | setCursor (n : Nat)
  | setBg (color : UInt8)
  deriving DecidableEq, Repr

namespace Geometry

variable (g : Geometry)

/-- The size of the framebuffer. -/
def fbSize : Nat := g.width * g.height

end Geometry

namespace State

variable (g : Geometry) (s : State)

/-- `dirty_mark_row`. -/
def dirtyMarkRow (y : Nat) : State :=
  { s with
    dirtyMin := if y < s.dirtyMin then y else s.dirtyMin
    dirtyMax := if y > s.dirtyMax then y else s.dirtyMax }

/-- `dirty_mark_all`. -/
def dirtyMarkAll : State := { s with dirtyMin := 0, dirtyMax := g.height - 1 }

/-- `dirty_reset`. -/
def dirtyReset : State := { s with dirtyMin := g.height, dirtyMax := 0 }

def access : Access → State
  | .store i color => { s with framebuffer := Function.update s.framebuffer i color }
  | .markRows ys => ys.foldl dirtyMarkRow s
  | .markAll => s.dirtyMarkAll g
  | .setCursor n => { s with writeCursor := n }
  | .setBg color => { s with bgColor := color }

def accesses (as : List Access) : State := as.foldl (access g) s

end State

/-- The static variables before `main`, with the panel as it happens to be. -/
def powerOn (g : Geometry) (panel : Panel) : State where
  framebuffer _ := 0
  bgColor := colorBlack
  initialized := false
  writeCursor := 0
  dirtyMin := g.height
  dirtyMax := 0
  backlight := 0
  panel := panel

section Draw

variable (g : Geometry)

/-- `memset(framebuffer, color, sizeof(framebuffer))`. -/
def memset (color : UInt8) : List Access := (List.range g.fbSize).map fun i => .store i color

/-- `draw_pixel_impl`. -/
def drawPixelImpl (x y : Int) (color : UInt8) : List Access :=
  if x < 0 ∨ y < 0 ∨ g.width ≤ x.toNat ∨ g.height ≤ y.toNat then []
  else [.store (y.toNat * g.width + x.toNat) color, .markRows [y.toNat]]

/-- The loop of `draw_line_impl`, for at most `fuel` pixels. -/
def lineLoop (x1 y1 dx dy sx sy : Int) (color : UInt8) :
    Nat → Int → Int → Int → Option (List Access)
  | 0, _, _, _ => none
  | fuel + 1, x0, y0, err =>
    if x0 = x1 ∧ y0 = y1 then some (drawPixelImpl g x0 y0 color)
    else
      let e2 := 2 * err
      let xStep := e2 ≥ dy
      let yStep := e2 ≤ dx
      let x0' := if xStep then x0 + sx else x0
      let y0' := if yStep then y0 + sy else y0
      let err := if xStep then err + dy else err
      let err := if yStep then err + dx else err
      (lineLoop x1 y1 dx dy sx sy color fuel x0' y0' err).map (drawPixelImpl g x0 y0 color ++ ·)

/-- `draw_line_impl`. -/
def drawLineImpl (x0 y0 x1 y1 : Int) (color : UInt8) : Option (List Access) :=
  let dx := if x1 > x0 then x1 - x0 else x0 - x1
  let dy := -(if y1 > y0 then y1 - y0 else y0 - y1)
  let sx := if x0 < x1 then 1 else -1
  let sy := if y0 < y1 then 1 else -1
  lineLoop g x1 y1 dx dy sx sy color ((dx - dy).toNat + 1) x0 y0 (dx + dy)

/-- `draw_rect_impl`. -/
def drawRectImpl (x y w h : Int) (color : UInt8) (filled : Bool) : Option (List Access) :=
  if filled then
    some ((List.range h.toNat).flatMap fun row =>
      (List.range w.toNat).flatMap fun col => drawPixelImpl g (x + col) (y + row) color)
  else do
    let top ← drawLineImpl g x y (x + w - 1) y color
    let right ← drawLineImpl g (x + w - 1) y (x + w - 1) (y + h - 1) color
    let bottom ← drawLineImpl g (x + w - 1) (y + h - 1) x (y + h - 1) color
    let left ← drawLineImpl g x (y + h - 1) x y color
    return top ++ right ++ bottom ++ left

/-- A scale, brought between 1 and 4. -/
def clampScale (scale : UInt8) : UInt8 := if scale < 1 then 1 else if scale > 4 then 4 else scale

/-- `draw_char_impl`. -/
def drawCharImpl (px py : Int) (c fg bg scale : UInt8) : List Access :=
  let c := if c < 0x20 ∨ c > 0x7E then 0x3F else c
  let scale := clampScale scale
  let glyph := font8x8.getD (c - 0x20).toNat []
  (List.range 8).flatMap fun row =>
    let bits := glyph.getD row 0
    (List.range 8).flatMap fun col =>
      let pixel := if bits.toNat.testBit col then fg else bg
      (List.range scale.toNat).flatMap fun sy =>
        (List.range scale.toNat).flatMap fun sx =>
          drawPixelImpl g (px + col * scale.toNat + sx) (py + row * scale.toNat + sy) pixel

/-- The loop of `draw_text_impl`, up to the string's NUL. -/
def textLoop (px : Int) (fg bg scale : UInt8) : List UInt8 → Int → Int → List Access
  | [], _, _ => []
  | c :: str, cx, cy =>
    let charW : Int := 8 * scale.toNat
    if c = 0 then []
    else if c = 0x0A then textLoop px fg bg scale str px (cy + charW)
    else
      let wrap := cx + charW > g.width
      let cx := if wrap then px else cx
      let cy := if wrap then cy + charW else cy
      if cy + charW > g.height then []
      else drawCharImpl g cx cy c fg bg scale ++ textLoop px fg bg scale str (cx + charW) cy

/-- `draw_text_impl`. -/
def drawTextImpl (px py : Int) (str : Option (List UInt8)) (fg bg scale : UInt8) : List Access :=
  match str with
  | none => []
  | some str => textLoop g px fg bg (clampScale scale) str px py

end Draw

/-- `disp_pixel_arg_t`. -/
structure PixelArg where
  x : UInt16
  y : UInt16
  color : UInt8

/-- `disp_line_arg_t`. -/
structure LineArg where
  x0 : UInt16
  y0 : UInt16
  x1 : UInt16
  y1 : UInt16
  color : UInt8

/-- `disp_rect_arg_t`. -/
structure RectArg where
  x : UInt16
  y : UInt16
  w : UInt16
  h : UInt16
  color : UInt8
  filled : UInt8

/-- `disp_text_arg_t`. -/
structure TextArg where
  x : UInt16
  y : UInt16
  color : UInt8
  bg : UInt8
  scale : UInt8
  str : Option (List UInt8)

/-- The buttons' GPIO levels, low while a button is pressed. -/
structure Levels where
  a : Bool
  b : Bool
  x : Bool
  y : Bool

/-- The commands of `display_ioctl`; an argument of `none` is NULL. -/
inductive Ioctl
  | clear
  | flush
  | setBg (arg : Option UInt8)
  | drawPixel (arg : Option PixelArg)
  | drawLine (arg : Option LineArg)
  | drawRect (arg : Option RectArg)
  | drawText (arg : Option TextArg)
  | setBl (arg : Option UInt8)
  | getBtns (arg : Option Levels)
  | getDims (arg : Option Unit)
  | unknown (cmd : UInt32)

/-- What a call has to do. -/
inductive Work
  | accesses (as : List Access)
  | flush
  | backlight (level : UInt8)

/-- The return value, and what is written through the argument. -/
structure Reply where
  rc : Int
  btns : Option UInt8 := none
  dims : Option (UInt16 × UInt16) := none
  deriving DecidableEq, Repr

/-- The bits `DISP_BTN_A` to `DISP_BTN_Y`. -/
def btnBits (l : Levels) : UInt8 :=
  (if l.a then 0 else 1) ||| (if l.b then 0 else 2) ||| (if l.x then 0 else 4) |||
    (if l.y then 0 else 8)

/-- `display_ioctl`. -/
def displayIoctl (g : Geometry) (s : State) : Ioctl → Option (Work × Reply)
  | .clear => some (.accesses (memset g s.bgColor ++ [.markAll]), { rc := 0 })
  | .flush => some (.flush, { rc := 0 })
  | .setBg (some color) => some (.accesses [.setBg color], { rc := 0 })
  | .drawPixel (some a) =>
    some (.accesses (drawPixelImpl g a.x.toNat a.y.toNat a.color), { rc := 0 })
  | .drawLine (some a) =>
    (drawLineImpl g a.x0.toNat a.y0.toNat a.x1.toNat a.y1.toNat a.color).map
      fun as => (.accesses as, { rc := 0 })
  | .drawRect (some a) =>
    (drawRectImpl g a.x.toNat a.y.toNat a.w.toNat a.h.toNat a.color (a.filled != 0)).map
      fun as => (.accesses as, { rc := 0 })
  | .drawText (some a) =>
    let scale := if a.scale = 0 then 1 else a.scale
    some (.accesses (drawTextImpl g a.x.toNat a.y.toNat a.str a.color a.bg scale), { rc := 0 })
  | .setBl (some level) => some (.backlight level, { rc := 0 })
  | .getBtns (some levels) => some (.accesses [], { rc := 0, btns := some (btnBits levels) })
  | .getDims (some ()) =>
    some (.accesses [], { rc := 0, dims := some (.ofNat g.width, .ofNat g.height) })
  | _ => some (.accesses [], { rc := -1 })

/-- The loop of `display_write`: its accesses, and `write_cursor` after it. -/
def writeLoop (fbSize : Nat) : Nat → List UInt8 → List Access × Nat
  | cursor, [] => ([], cursor)
  | cursor, byte :: buf =>
    if cursor < fbSize then
      let (as, last) := writeLoop fbSize (cursor + 1) buf
      (.store cursor byte :: .setCursor (cursor + 1) :: as, last)
    else ([], cursor)

/-- `display_write`, with a buffer of `len` bytes. -/
def displayWrite (g : Geometry) (s : State) (buf : Option (List UInt8)) : List Access × Int :=
  match buf with
  | none | some [] => ([], -1)
  | some buf =>
    let start := s.writeCursor
    let (as, cursor) := writeLoop g.fbSize start buf
    if cursor - start > 0 then
      (as ++ [.markRows [start / g.width, (cursor - 1) / g.width]], (cursor - start : Nat))
    else (as, 0)

section Flush

variable (g : Geometry)

/-- The RGB565 expansion of an RGB332 pixel. -/
def rgb565 (p : UInt8) : UInt16 :=
  let r3 := (p.toUInt16 >>> 5) &&& 0x07
  let g3 := (p.toUInt16 >>> 2) &&& 0x07
  let b2 := p.toUInt16 &&& 0x03
  let r5 := (r3 <<< 2) ||| (r3 >>> 1)
  let g6 := (g3 <<< 3) ||| g3
  let b5 := (b2 <<< 3) ||| (b2 <<< 1) ||| (b2 >>> 1)
  (r5 <<< 11) ||| (g6 <<< 5) ||| b5

/-- The parameters of CASET and RASET. -/
def windowBytes (first last : Nat) : List UInt8 :=
  let first := UInt16.ofNat first
  let last := UInt16.ofNat last
  bytesOf first ++ bytesOf last

/-- The column window: the full logical width. -/
def sendColumns (p : Panel) : Panel :=
  (p.cmd caset).send (windowBytes g.colOffset (g.colOffset + g.width - 1))

/-- The row window, for the logical rows from `first` to `last`. -/
def sendRows (first last : Nat) (p : Panel) : Panel :=
  (p.cmd raset).send (windowBytes (g.rowOffset + first) (g.rowOffset + last))

/-- `row_buf`, for row `y`. -/
def rowBuf (framebuffer : Nat → UInt8) (y : Nat) : List UInt8 :=
  (List.range g.width).flatMap fun x => bytesOf (rgb565 (framebuffer (y * g.width + x)))

/-- The rows from `first` to `last` of the loop. -/
def dirtyRows (first last : Nat) : List Nat := List.range' first (last + 1 - first)

/-- `display_flush_fb`. -/
def displayFlushFb (s : State) : State :=
  if s.dirtyMin > s.dirtyMax then s
  else
    let p := (sendRows g s.dirtyMin s.dirtyMax (sendColumns g s.panel)).cmd ramwr
    let p := (dirtyRows s.dirtyMin s.dirtyMax).foldl
      (fun p y => p.send (rowBuf g s.framebuffer y)) p
    { s with panel := p }.dirtyReset g

end Flush

section Open

variable (g : Geometry)

/-- `display_hw_init`. The panel's memory holds `gram` after its reset. -/
def displayHwInit (gram : Nat → Nat → UInt16) (s : State) : State :=
  let p := { s.panel with gram := gram }.cmd 0x01
  let p := p.cmd 0x11
  let p := (p.cmd 0x3A).send [0x55]
  let p := (p.cmd 0x36).send [0x70]
  let p := sendRows g 0 (g.height - 1) (sendColumns g p)
  let p := ((p.cmd 0x21).cmd 0x13).cmd 0x29
  { s with panel := p, backlight := 255 }.accesses g (memset g colorBlack)

/-- The splash: a blue fill and the centred title. -/
def splash : List Access :=
  let scale := g.splashScale
  let tx := (g.width - splashText.length * 8 * scale.toNat) / 2
  let ty := (g.height - 8 * scale.toNat) / 2
  memset g colorBlue ++ [.markAll] ++
    drawTextImpl g tx ty (some splashText) colorWhite colorBlue scale

/-- `display_open`. -/
def displayOpen (gram : Nat → Nat → UInt16) (s : State) : State :=
  let s :=
    if s.initialized then s
    else
      let s := { displayHwInit g gram s with initialized := true }
      displayFlushFb g (s.accesses g (splash g))
  { s with writeCursor := 0 }

end Open

/-- The calls of one thread. The reset of a first `display_open` leaves `gram` in the panel. -/
inductive Call
  | displayOpen (gram : Nat → Nat → UInt16)
  | displayWrite (buf : Option (List UInt8))
  | displayIoctl (cmd : Ioctl)

def State.work (g : Geometry) (s : State) : Work → State
  | .accesses as => s.accesses g as
  | .flush => displayFlushFb g s
  | .backlight level => { s with backlight := level }

/-- A call from start to end. -/
def State.call (g : Geometry) (s : State) : Call → Option State
  | .displayOpen gram => some (displayOpen g gram s)
  | .displayWrite buf => some (s.accesses g (displayWrite g s buf).1)
  | .displayIoctl cmd => (displayIoctl g s cmd).map fun r => s.work g r.1

def State.calls (g : Geometry) (s : State) (cs : List Call) : Option State :=
  cs.foldlM (State.call g) s

end PicoOS.Display
