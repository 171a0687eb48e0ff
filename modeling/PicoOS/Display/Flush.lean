import Mathlib
import PicoOS.Display.Drawing

/-!
# A flush of the dirty rows

The rows outside the dirty range show on the panel what the framebuffer holds,
at all times after the display is initialised; a flush sends the others.
-/
namespace PicoOS.Display

open Panel

/-- The pixels of row `y`, as they are to be shown. -/
def rowPixels (g : Geometry) (framebuffer : Nat → UInt8) (y : Nat) : List UInt16 :=
  (List.range g.width).map fun x => rgb565 (framebuffer (y * g.width + x))

theorem rowBuf_eq (g : Geometry) (framebuffer : Nat → UInt8) (y : Nat) :
    rowBuf g framebuffer y = (rowPixels g framebuffer y).flatMap bytesOf := by
  simp [rowBuf, rowPixels, List.flatMap_map]

section Window

variable (g : Geometry) (p : Panel)

/-- Four parameters go to the command that takes them. -/
theorem send_params {c : UInt8} (other : c ≠ ramwr) (a b d e : UInt8) :
    (p.cmd c).send [a, b, d, e] =
      ({ p with command := c, params := [a, b, d, e], high := none } : Panel).address := by
  simp only [cmd, other, if_false, send, List.foldl_cons, List.foldl_nil, data, address,
    List.nil_append, List.cons_append]

theorem word_ofNat {n : Nat} (low : n < 65536) :
    (word (UInt16.ofNat n >>> 8).toUInt8 (UInt16.ofNat n &&& 0xFF).toUInt8).toNat = n := by
  rw [word_bytes, UInt16.toNat_ofNat']
  exact Nat.mod_eq_of_lt low

theorem sendColumns_eq : sendColumns g p =
    { p with
      command := caset
      params := windowBytes g.colOffset (g.colOffset + g.width - 1)
      high := none
      columns := ⟨g.colOffset, g.colOffset + g.width - 1⟩ } := by
  have fit := g.columns_fit
  have pos := g.width_pos
  have first := word_ofNat (show g.colOffset < 65536 by omega)
  have last := word_ofNat (show g.colOffset + g.width - 1 < 65536 by omega)
  rw [sendColumns, windowBytes, bytesOf, bytesOf, List.cons_append, List.cons_append,
    List.nil_append, send_params p (by decide), address]
  simp only [first, last, if_true]

theorem sendRows_eq {first last : Nat} (ordered : first ≤ last) (inside : last < g.height) :
    sendRows g first last p =
    { p with
      command := raset
      params := windowBytes (g.rowOffset + first) (g.rowOffset + last)
      high := none
      rows := ⟨g.rowOffset + first, g.rowOffset + last⟩ } := by
  have fit := g.rows_fit
  have first_word := word_ofNat (show g.rowOffset + first < 65536 by omega)
  have last_word := word_ofNat (show g.rowOffset + last < 65536 by omega)
  have other : raset ≠ caset := by decide
  rw [sendRows, windowBytes, bytesOf, bytesOf, List.cons_append, List.cons_append,
    List.nil_append, send_params p (by decide), address]
  simp only [first_word, last_word, other, if_false, if_true]

/-- The panel as RAMWR leaves it, with the window on the rows from `first` to `last`. -/
def opened (first last : Nat) : Panel :=
  { p with
    command := ramwr
    params := []
    high := none
    columns := ⟨g.colOffset, g.colOffset + g.width - 1⟩
    rows := ⟨g.rowOffset + first, g.rowOffset + last⟩
    row := g.rowOffset + first
    col := g.colOffset }

theorem window_eq {first last : Nat} (ordered : first ≤ last) (inside : last < g.height) :
    (sendRows g first last (sendColumns g p)).cmd ramwr = opened g p first last := by
  rw [sendRows_eq g _ ordered inside, sendColumns_eq]
  simp only [cmd, if_true, opened]

end Window

/-- The panel is filled with rows as wide as the display. -/
structure Streaming (g : Geometry) (p : Panel) : Prop where
  writing : p.command = ramwr
  whole : p.high = none
  columns : p.columns = ⟨g.colOffset, g.colOffset + g.width - 1⟩
  col : p.col = g.colOffset

/-- The panel after a row of pixels: it goes to the row of the write pointer, which moves on. -/
def nextRow (g : Geometry) (p : Panel) (vs : List UInt16) : Panel :=
  { p with
    gram := Function.update p.gram p.row fun c =>
      if g.colOffset ≤ c then (vs[c - g.colOffset]?).getD (p.gram p.row c) else p.gram p.row c
    row := if p.row < p.rows.last then p.row + 1 else p.rows.first }

namespace Streaming

variable {g : Geometry} {p : Panel} {vs : List UInt16}

theorem send_row (h : Streaming g p) (length : vs.length = g.width) :
    p.send (vs.flatMap bytesOf) = nextRow g p vs := by
  have pos := g.width_pos
  have some_pixel : vs ≠ [] := by
    rintro rfl
    simp only [List.length_nil] at length
    omega
  have fits : p.col + vs.length = p.columns.last + 1 := by
    rw [h.col, h.columns, length]
    dsimp only
    omega
  rw [send_pixels h.writing h.whole, put_row some_pixel fits]
  simp only [h.col, h.columns, nextRow]

theorem next (h : Streaming g p) (vs : List UInt16) : Streaming g (nextRow g p vs) :=
  ⟨h.writing, h.whole, h.columns, h.col⟩

end Streaming

theorem opened_streaming (g : Geometry) (p : Panel) (first last : Nat) :
    Streaming g (opened g p first last) := ⟨rfl, rfl, rfl, rfl⟩

section Rows

variable {g : Geometry} {p : Panel} {vs : List UInt16}

theorem nextRow_row (more : p.row < p.rows.last) : (nextRow g p vs).row = p.row + 1 :=
  if_pos more

@[simp] theorem nextRow_rows : (nextRow g p vs).rows = p.rows := rfl

theorem nextRow_other {r : Nat} (other : r ≠ p.row) (c : Nat) :
    (nextRow g p vs).gram r c = p.gram r c := by
  simp only [nextRow, Function.update_of_ne other]

theorem nextRow_here {x : Nat} {v : UInt16} (pixel : vs[x]? = some v) :
    (nextRow g p vs).gram p.row (g.colOffset + x) = v := by
  have right : g.colOffset ≤ g.colOffset + x := Nat.le_add_right _ _
  simp only [nextRow, Function.update_self, right, if_true, Nat.add_sub_cancel_left, pixel,
    Option.getD_some]

end Rows

/-- The panel shows row `y` of the framebuffer. -/
def RowShown (g : Geometry) (s : State) (y : Nat) : Prop :=
  ∀ x < g.width, s.panel.gram (g.rowOffset + y) (g.colOffset + x) =
    rgb565 (s.framebuffer (y * g.width + x))

section Stream

variable {g : Geometry}

@[simp] theorem length_rowPixels (framebuffer : Nat → UInt8) (y : Nat) :
    (rowPixels g framebuffer y).length = g.width := by simp [rowPixels]

theorem getElem?_rowPixels (framebuffer : Nat → UInt8) (y : Nat) {x : Nat} (inside : x < g.width) :
    (rowPixels g framebuffer y)[x]? = some (rgb565 (framebuffer (y * g.width + x))) := by
  simp [rowPixels, inside]

/-- The loop over `n` rows from `first` on, which end with the window's last one. -/
theorem stream_rows (framebuffer : Nat → UInt8) {first n : Nat} {p : Panel} (h : Streaming g p)
    (row : 0 < n → p.row = g.rowOffset + first)
    (last : g.rowOffset + first + n = p.rows.last + 1) :
    (∀ y, first ≤ y → y < first + n → ∀ x < g.width,
      ((List.range' first n).foldl (fun p y => p.send (rowBuf g framebuffer y)) p).gram
        (g.rowOffset + y) (g.colOffset + x) = rgb565 (framebuffer (y * g.width + x))) ∧
    ∀ r c, r < g.rowOffset + first ∨ g.rowOffset + first + n ≤ r →
      ((List.range' first n).foldl (fun p y => p.send (rowBuf g framebuffer y)) p).gram r c =
        p.gram r c := by
  induction n generalizing first p with
  | zero => exact ⟨fun y _ _ => by omega, fun _ _ _ => rfl⟩
  | succ n ih =>
    have at_row := row (by omega)
    rw [List.range'_succ, List.foldl_cons, rowBuf_eq,
      h.send_row (length_rowPixels framebuffer first)]
    have row_next : 0 < n →
        (nextRow g p (rowPixels g framebuffer first)).row = g.rowOffset + (first + 1) := by
      intro more
      rw [nextRow_row (by omega)]
      omega
    obtain ⟨streamed, kept⟩ := @ih (first + 1) _ (h.next (rowPixels g framebuffer first)) row_next
      (by rw [nextRow_rows]; omega)
    constructor
    · intro y from_first before x inside
      by_cases this_row : y = first
      · -- the rows after it go elsewhere
        subst this_row
        rw [kept _ _ (by omega), ← at_row]
        exact nextRow_here (getElem?_rowPixels framebuffer y inside)
      · exact streamed y (by omega) (by omega) x inside
    · intro r c outside
      rw [kept r c (by omega), nextRow_other (by omega)]

/-- A flush shows the rows of the dirty range, and leaves the others as they were. -/
theorem flush_shows (s : State) (inside : s.dirtyMax < g.height) {y : Nat}
    (row : (s.dirtyMin ≤ y ∧ y ≤ s.dirtyMax) ∨ RowShown g s y) :
    RowShown g (displayFlushFb g s) y := by
  unfold displayFlushFb
  split
  · next clean =>
    exact row.resolve_left fun h => by omega
  · next dirty =>
    have ordered : s.dirtyMin ≤ s.dirtyMax := by omega
    dsimp only
    rw [window_eq g s.panel ordered inside]
    obtain ⟨streamed, kept⟩ := stream_rows s.framebuffer (n := s.dirtyMax + 1 - s.dirtyMin)
      (opened_streaming g s.panel s.dirtyMin s.dirtyMax) (fun _ => rfl)
      (by dsimp only [opened]; omega)
    intro x column
    by_cases in_range : s.dirtyMin ≤ y ∧ y ≤ s.dirtyMax
    · exact streamed y in_range.1 (by omega) x column
    · have shown := row.resolve_left in_range x column
      exact (kept _ _ (by omega)).trans shown

@[simp] theorem flush_framebuffer (s : State) :
    (displayFlushFb g s).framebuffer = s.framebuffer := by
  unfold displayFlushFb
  split <;> rfl

/-! ### Row by row -/

/-- `display_flush_fb` up to its loop. -/
def flushWindow (g : Geometry) (s : State) : State :=
  { s with panel := (sendRows g s.dirtyMin s.dirtyMax (sendColumns g s.panel)).cmd ramwr }

/-- The turn of its loop that sends row `y`. -/
def flushRow (g : Geometry) (y : Nat) (s : State) : State :=
  { s with panel := s.panel.send (rowBuf g s.framebuffer y) }

@[simp] theorem flushWindow_initialized (s : State) :
    (flushWindow g s).initialized = s.initialized := by rw [flushWindow]

@[simp] theorem flushWindow_framebuffer (s : State) :
    (flushWindow g s).framebuffer = s.framebuffer := by rw [flushWindow]

@[simp] theorem flushRow_initialized (y : Nat) (s : State) :
    (flushRow g y s).initialized = s.initialized := by rw [flushRow]

@[simp] theorem flushRow_framebuffer (y : Nat) (s : State) :
    (flushRow g y s).framebuffer = s.framebuffer := by rw [flushRow]

theorem flushRow_foldl (ys : List Nat) (s : State) :
    ys.foldl (fun s y => flushRow g y s) s =
      { s with panel := ys.foldl (fun p y => p.send (rowBuf g s.framebuffer y)) s.panel } := by
  induction ys generalizing s with
  | nil => rfl
  | cons y ys ih => rw [List.foldl_cons, ih, List.foldl_cons, flushRow]

/-- The flush is its steps, one after the other. -/
theorem displayFlushFb_rows (s : State) : displayFlushFb g s =
    if s.dirtyMin > s.dirtyMax then s
    else ((dirtyRows s.dirtyMin s.dirtyMax).foldl (fun s y => flushRow g y s)
      (flushWindow g s)).dirtyReset g := by
  simp only [displayFlushFb, flushRow_foldl, flushWindow]

/-- A flush that sends row `y` next. -/
structure Sending (g : Geometry) (y : Nat) (s : State) : Prop where
  streaming : Streaming g s.panel
  last : s.panel.rows.last = g.rowOffset + s.dirtyMax
  low : s.dirtyMin ≤ y
  high : y ≤ s.dirtyMax + 1
  row : y ≤ s.dirtyMax → s.panel.row = g.rowOffset + y

theorem flushWindow_eq {s : State} (dirty : s.dirtyMin ≤ s.dirtyMax) (inside : s.dirtyMax < g.height) :
    flushWindow g s = { s with panel := Display.opened g s.panel s.dirtyMin s.dirtyMax } := by
  rw [flushWindow, window_eq g s.panel dirty inside]

theorem Sending.start {s : State} (dirty : s.dirtyMin ≤ s.dirtyMax) (inside : s.dirtyMax < g.height) :
    Sending g s.dirtyMin (flushWindow g s) := by
  rw [flushWindow_eq dirty inside]
  exact ⟨opened_streaming g s.panel s.dirtyMin s.dirtyMax, rfl, Nat.le_refl _, by dsimp only; omega,
    fun _ => rfl⟩

/-- A turn of the loop shows its row, and leaves the others as they are. -/
theorem Sending.turn {y : Nat} {s : State} (h : Sending g y s) (more : y ≤ s.dirtyMax) :
    Sending g (y + 1) (flushRow g y s) ∧ RowShown g (flushRow g y s) y ∧
      ∀ r c, r ≠ g.rowOffset + y → (flushRow g y s).panel.gram r c = s.panel.gram r c := by
  have row := h.row more
  have sent : flushRow g y s =
      { s with panel := nextRow g s.panel (rowPixels g s.framebuffer y) } := by
    rw [flushRow, rowBuf_eq, h.streaming.send_row (length_rowPixels s.framebuffer y)]
  rw [sent]
  refine ⟨⟨h.streaming.next _, h.last, Nat.le_succ_of_le h.low, Nat.succ_le_succ more, fun next => ?_⟩,
    fun x inside => ?_, fun r c other => nextRow_other (by rwa [row]) c⟩
  · have before : s.panel.row < s.panel.rows.last := by
      rw [row, h.last]
      exact Nat.add_lt_add_left next _
    dsimp only
    rw [nextRow_row before, row, Nat.add_assoc]
  · dsimp only
    rw [← row]
    exact nextRow_here (getElem?_rowPixels s.framebuffer y inside)

end Stream

/-- Outside the dirty range and the rows of `stale`, the panel shows the framebuffer. -/
structure Mirrors (g : Geometry) (stale : Nat → Prop) (s : State) : Prop where
  inside : s.dirtyMax < g.height
  shown : ∀ y < g.height, ¬ stale y → ¬ (s.dirtyMin ≤ y ∧ y ≤ s.dirtyMax) → RowShown g s y

section Accesses

variable {g : Geometry} {s : State} {stale : Nat → Prop}

theorem dirtyMarkRow_eq (s : State) (y : Nat) : s.dirtyMarkRow y =
    { s with dirtyMin := min s.dirtyMin y, dirtyMax := max s.dirtyMax y } := by
  have low : (if y < s.dirtyMin then y else s.dirtyMin) = min s.dirtyMin y := by
    split_ifs <;> omega
  have high : (if y > s.dirtyMax then y else s.dirtyMax) = max s.dirtyMax y := by
    split_ifs <;> omega
  rw [State.dirtyMarkRow, low, high]

/-- Marks widen the dirty range up to each of the rows. -/
theorem markRows_eq (ys : List Nat) (s : State) : ∃ low high,
    ys.foldl State.dirtyMarkRow s = { s with dirtyMin := low, dirtyMax := high } ∧
    (low ≤ s.dirtyMin ∧ ∀ y ∈ ys, low ≤ y) ∧ (s.dirtyMax ≤ high ∧ ∀ y ∈ ys, y ≤ high) ∧
    (s.dirtyMax < g.height → (∀ y ∈ ys, y < g.height) → high < g.height) := by
  induction ys generalizing s with
  | nil => exact ⟨s.dirtyMin, s.dirtyMax, rfl, by simp, by simp, fun inside _ => inside⟩
  | cons y ys ih =>
    obtain ⟨low, high, marked, below, above, inside⟩ := ih (s.dirtyMarkRow y)
    rw [dirtyMarkRow_eq] at marked below above inside
    dsimp only at marked below above inside
    refine ⟨low, high, ?_, ?_, ?_, ?_⟩
    · rw [List.foldl_cons, dirtyMarkRow_eq, marked]
    · refine ⟨by omega, List.forall_mem_cons.mpr ⟨by omega, below.2⟩⟩
    · refine ⟨by omega, List.forall_mem_cons.mpr ⟨by omega, above.2⟩⟩
    · intro before valid
      have := valid y List.mem_cons_self
      exact inside (by omega) fun z member => valid z (List.mem_cons_of_mem y member)

/-- A store leaves the other rows as they are. -/
theorem store_shown {i y : Nat} (other : y ≠ i / g.width) {color : UInt8}
    (shown : RowShown g s y) : RowShown g (s.access g (.store i color)) y := by
  intro x column
  have elsewhere : y * g.width + x ≠ i := by
    rintro rfl
    apply other
    rw [Nat.mul_comm, Nat.mul_add_div g.width_pos, Nat.div_eq_of_lt column, Nat.add_zero]
  show _ = rgb565 (Function.update s.framebuffer i color _)
  rw [Function.update_of_ne elsewhere]
  exact shown x column

/-- Accesses that mark what they store to leave no other row stale than before. -/
theorem Mirrors.accesses {pending : Nat → Prop} {as : List Access} (marked : Marked g pending as)
    (h : Mirrors g (fun y => pending y ∨ stale y) s) : Mirrors g stale (s.accesses g as) := by
  induction as generalizing pending s with
  | nil => exact ⟨h.inside, fun y row fresh => h.shown y row fun | .inl p => marked y p | .inr l => fresh l⟩
  | cons a as ih =>
    cases a with
    | store i color =>
      apply ih marked.2
      refine ⟨h.inside, fun y row fresh clean => ?_⟩
      -- the row of the store is stale from now on, until it is marked
      have other : y ≠ i / g.width := fun same => fresh (.inl (.inr same))
      exact store_shown other (h.shown y row (fun old => fresh (old.imp_left .inl)) clean)
    | markRows ys =>
      obtain ⟨valid, covered, rest⟩ := marked
      obtain ⟨low, high, result, below, above, inside⟩ := markRows_eq (g := g) ys s
      apply ih rest
      rw [State.access, result]
      refine ⟨inside h.inside valid, fun y row fresh clean => ?_⟩
      -- a row with an unmarked store is now in the dirty range
      have unmarked : ¬ pending y := fun still => by
        obtain ⟨⟨a, first, after⟩, b, last, before⟩ := covered y still
        exact clean ⟨(below.2 a first).trans after, before.trans (above.2 b last)⟩
      apply h.shown y row
      · rintro (still | old)
        · exact unmarked still
        · exact fresh (.inr old)
      · exact fun dirty => clean ⟨below.1.trans dirty.1, dirty.2.trans above.1⟩
    | markAll =>
      apply ih marked
      refine ⟨Nat.sub_lt g.height_pos Nat.one_pos, fun y row _ clean => ?_⟩
      exact absurd ⟨Nat.zero_le y, Nat.le_sub_one_of_lt row⟩ clean
    | setCursor n => exact ih marked ⟨h.inside, h.shown⟩
    | setBg color => exact ih marked ⟨h.inside, h.shown⟩

@[simp] theorem accesses_initialized (as : List Access) :
    (s.accesses g as).initialized = s.initialized := by
  induction as generalizing s with
  | nil => rfl
  | cons a as ih =>
    have first : (s.access g a).initialized = s.initialized := by
      cases a with
      | markRows ys =>
        obtain ⟨low, high, result, -⟩ := markRows_eq (g := g) ys s
        rw [State.access, result]
      | store i color => rfl
      | markAll => rfl
      | setCursor n => rfl
      | setBg color => rfl
    exact ih.trans first

end Accesses

section Calls

variable {g : Geometry} {s : State}

/-- Every row is stale until the display is initialised. -/
def Ready (g : Geometry) (s : State) : Prop := Mirrors g (fun _ => s.initialized = false) s

theorem flush_mirrors {stale : Nat → Prop} (h : Mirrors g stale s) :
    Mirrors g stale (displayFlushFb g s) := by
  constructor
  · unfold displayFlushFb
    split
    · exact h.inside
    · exact g.height_pos
  · intro y row fresh _
    apply flush_shows s h.inside
    by_cases dirty : s.dirtyMin ≤ y ∧ y ≤ s.dirtyMax
    · exact .inl dirty
    · exact .inr (h.shown y row fresh dirty)

@[simp] theorem flush_initialized : (displayFlushFb g s).initialized = s.initialized := by
  unfold displayFlushFb
  split <;> rfl

/-- Work that marks what it stores to. -/
def Work.Marked (g : Geometry) : Work → Prop
  | .accesses as => Display.Marked g (fun _ => False) as
  | .flush | .backlight _ => True

/-- `display_ioctl` always returns, and what it draws it marks. -/
theorem displayIoctl_marked (g : Geometry) (s : State) (c : Ioctl) :
    ∃ w r, displayIoctl g s c = some (w, r) ∧ w.Marked g := by
  have nothing : Work.Marked g (.accesses []) := marked_nil (g := g)
  cases c with
  | clear => exact ⟨_, _, rfl, memset_marked s.bgColor marked_nil⟩
  | flush => exact ⟨_, _, rfl, trivial⟩
  | setBg arg =>
    cases arg with
    | none => exact ⟨_, _, rfl, nothing⟩
    | some color => exact ⟨_, _, rfl, marked_nil (g := g)⟩
  | drawPixel arg =>
    cases arg with
    | none => exact ⟨_, _, rfl, nothing⟩
    | some a => exact ⟨_, _, rfl, drawPixelImpl_marked _ _ _⟩
  | drawLine arg =>
    cases arg with
    | none => exact ⟨_, _, rfl, nothing⟩
    | some a =>
      obtain ⟨as, drawn⟩ := drawLineImpl_ends g a.x0.toNat a.y0.toNat a.x1.toNat a.y1.toNat a.color
      exact ⟨.accesses as, _, by rw [displayIoctl, drawn, Option.map_some],
        drawLineImpl_marked drawn⟩
  | drawRect arg =>
    cases arg with
    | none => exact ⟨_, _, rfl, nothing⟩
    | some a =>
      obtain ⟨as, drawn, marked⟩ := drawRectImpl_marked g a.x.toNat a.y.toNat a.w.toNat a.h.toNat
        a.color (a.filled != 0)
      exact ⟨.accesses as, _, by rw [displayIoctl, drawn, Option.map_some], marked⟩
  | drawText arg =>
    cases arg with
    | none => exact ⟨_, _, rfl, nothing⟩
    | some a => exact ⟨_, _, rfl, drawTextImpl_marked _ _ _ _ _ _⟩
  | setBl arg =>
    cases arg with
    | none => exact ⟨_, _, rfl, nothing⟩
    | some level => exact ⟨_, _, rfl, trivial⟩
  | getBtns arg =>
    cases arg with
    | none => exact ⟨_, _, rfl, nothing⟩
    | some levels => exact ⟨_, _, rfl, nothing⟩
  | getDims arg =>
    cases arg with
    | none => exact ⟨_, _, rfl, nothing⟩
    | some present => exact ⟨_, _, rfl, nothing⟩
  | unknown cmd => exact ⟨_, _, rfl, nothing⟩

theorem Ready.accesses (h : Ready g s) {as : List Access}
    (marked : Marked g (fun _ => False) as) : Ready g (s.accesses g as) := by
  unfold Ready
  rw [accesses_initialized]
  apply Mirrors.accesses marked
  exact ⟨h.inside, fun y row fresh => h.shown y row fun old => fresh (.inr old)⟩

theorem Ready.flush (h : Ready g s) : Ready g (displayFlushFb g s) := by
  unfold Ready
  rw [flush_initialized]
  exact flush_mirrors h

/-- The splash stores to the whole framebuffer and marks all of it. -/
theorem splash_marked (g : Geometry) : Marked g (fun _ => True) (splash g) := by
  unfold splash
  dsimp only
  rw [List.append_assoc]
  exact memset_marked colorBlue (drawTextImpl_marked _ _ _ _ _ _)

theorem Ready.displayOpen (h : Ready g s) (gram : Nat → Nat → UInt16) :
    Ready g (displayOpen g gram s) ∧ (displayOpen g gram s).initialized = true := by
  unfold Display.displayOpen
  dsimp only
  split
  · next already => exact ⟨⟨h.inside, h.shown⟩, already⟩
  · have inside : (displayHwInit g gram s).dirtyMax < g.height := by
      -- black is stored without a mark
      have : ∀ (is : List Nat) (t : State),
          (t.accesses g (is.map (.store · colorBlack))).dirtyMax = t.dirtyMax := by
        intro is
        induction is with
        | nil => exact fun _ => rfl
        | cons i is ih => exact fun t => ih _
      unfold displayHwInit
      dsimp only
      rw [memset, this]
      exact h.inside
    have drawn : Mirrors g (fun _ => False)
        (({ displayHwInit g gram s with initialized := true } : State).accesses g (splash g)) :=
      Mirrors.accesses (splash_marked g) ⟨inside, fun y _ fresh => absurd (.inl trivial) fresh⟩
    have flushed := flush_mirrors drawn
    refine ⟨⟨flushed.inside, fun y row _ => flushed.shown y row id⟩, ?_⟩
    show (displayFlushFb g _).initialized = true
    rw [flush_initialized, accesses_initialized]

/-- A call returns, and keeps the panel in step with the framebuffer. -/
theorem Ready.call (h : Ready g s) (c : Call) :
    ∃ t, s.call g c = some t ∧ Ready g t ∧ (s.initialized = true → t.initialized = true) := by
  cases c with
  | displayOpen gram =>
    have opened := h.displayOpen gram
    exact ⟨_, rfl, opened.1, fun _ => opened.2⟩
  | displayWrite buf =>
    refine ⟨_, rfl, h.accesses (displayWrite_marked s buf), ?_⟩
    rw [accesses_initialized]
    exact id
  | displayIoctl cmd =>
    obtain ⟨w, r, returned, marked⟩ := displayIoctl_marked g s cmd
    refine ⟨s.work g w, by rw [State.call, returned, Option.map_some], ?_⟩
    cases w with
    | accesses as =>
      refine ⟨h.accesses marked, ?_⟩
      rw [State.work, accesses_initialized]
      exact id
    | flush =>
      refine ⟨h.flush, ?_⟩
      rw [State.work, flush_initialized]
      exact id
    | backlight level => exact ⟨⟨h.inside, h.shown⟩, id⟩

theorem Ready.calls (h : Ready g s) (cs : List Call) :
    ∃ t, s.calls g cs = some t ∧ Ready g t ∧ (s.initialized = true → t.initialized = true) := by
  induction cs generalizing s with
  | nil => exact ⟨s, rfl, h, id⟩
  | cons c cs ih =>
    obtain ⟨t, returned, ready, still⟩ := h.call c
    obtain ⟨u, rest, last, still_last⟩ := ih ready
    refine ⟨u, ?_, last, still_last ∘ still⟩
    show (s.call g c >>= fun t => t.calls g cs) = some u
    rw [returned]
    exact rest

theorem powerOn_ready (g : Geometry) (panel : Panel) : Ready g (powerOn g panel) :=
  ⟨g.height_pos, fun _ _ fresh => absurd rfl fresh⟩

/-- After a `display_open` and whatever calls follow, the panel shows every row outside the dirty
range. -/
theorem calls_mirrors (g : Geometry) (panel : Panel) (before after : List Call)
    (gram : Nat → Nat → UInt16) :
    ∃ s, (powerOn g panel).calls g (before ++ .displayOpen gram :: after) = some s ∧
      Mirrors g (fun _ => False) s := by
  obtain ⟨s₁, ran_before, ready, -⟩ := (powerOn_ready g panel).calls before
  have opened := ready.displayOpen gram
  obtain ⟨s, ran_after, mirrors, still⟩ := opened.1.calls after
  have initialized := still opened.2
  refine ⟨s, ?_, mirrors.inside, fun y row _ => mirrors.shown y row (by simp [initialized])⟩
  rw [State.calls, List.foldlM_append]
  show ((powerOn g panel).calls g before >>= _) = _
  rw [ran_before]
  exact ran_after

theorem mirrors_of_calls {panel : Panel} {before after : List Call} {gram : Nat → Nat → UInt16}
    (reached : (powerOn g panel).calls g (before ++ .displayOpen gram :: after) = some s) :
    Mirrors g (fun _ => False) s := by
  obtain ⟨t, ran, mirrors⟩ := calls_mirrors g panel before after gram
  obtain rfl := Option.some.inj (reached.symm.trans ran)
  exact mirrors

/-- After a `display_open` and whatever calls follow, the panel shows every row outside the dirty
range, and a flush makes it show the whole framebuffer. -/
theorem flush_shows_framebuffer (g : Geometry) (panel : Panel) (before after : List Call)
    (gram : Nat → Nat → UInt16) :
    ∃ s, (powerOn g panel).calls g (before ++ .displayOpen gram :: after) = some s ∧
      (∀ y < g.height, ¬ (s.dirtyMin ≤ y ∧ y ≤ s.dirtyMax) → RowShown g s y) ∧
      ∃ t, s.call g (.displayIoctl .flush) = some t ∧ t.framebuffer = s.framebuffer ∧
        ∀ y < g.height, RowShown g t y := by
  obtain ⟨s, ran, mirrors⟩ := calls_mirrors g panel before after gram
  refine ⟨s, ran, fun y row => mirrors.shown y row id, displayFlushFb g s, rfl,
    flush_framebuffer s, ?_⟩
  intro y row
  apply flush_shows s mirrors.inside
  by_cases dirty : s.dirtyMin ≤ y ∧ y ≤ s.dirtyMax
  · exact .inl dirty
  · exact .inr (mirrors.shown y row id dirty)

end Calls

end PicoOS.Display
