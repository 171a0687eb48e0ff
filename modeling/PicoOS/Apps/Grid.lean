import PicoOS.Display.Flush

/-!
# The grid of cray-one

`draw_block` and `paint_node_blocks` on the display driver. The blocks and the
lines between them tile the screen: the framebuffer is the picture of one colour
for each block, and a block that is drawn changes no colour but its own.
-/
namespace PicoOS.Apps.Cluster

open PicoOS.Display

def gridCols : Nat := 9
def gridRows : Nat := 7
def gridTotal : Nat := gridCols * gridRows
def blockPad : Nat := 1

/-- `RGB332`. -/
def rgb332 (r g b : UInt8) : UInt8 :=
  (r &&& (0xE0 : UInt8)) ||| ((g &&& (0xE0 : UInt8)) >>> 3) ||| ((b &&& (0xC0 : UInt8)) >>> 6)

def colorGridBg : UInt8 := rgb332 48 48 48

/-- A display with room for the pads of the blocks. -/
structure Screen extends Geometry where
  wide : 2 * gridCols ≤ width
  high : 2 * gridRows ≤ height

section
variable (g : Screen)

def blockW : Nat := g.width / gridCols
def blockH : Nat := g.height / gridRows

/-- `draw_block`. -/
def drawBlock (blockIdx : Nat) (color : UInt8) : Call :=
  let col := blockIdx % gridCols
  let row := blockIdx / gridCols
  .displayIoctl (.drawRect (some {
    x := .ofNat (col * blockW g + blockPad)
    y := .ofNat (row * blockH g + blockPad)
    w := .ofNat (blockW g - 2 * blockPad)
    h := .ofNat (blockH g - 2 * blockPad)
    color := color
    filled := 1 }))

/-- The loop of `paint_node_blocks`. -/
def paintLoop (maxnodes : Nat) (colors : List UInt8) (numColors : Nat) :
    Nat → Nat → Nat → List Call
  | 0, _, _ => []
  | fuel + 1, b, i =>
    if b < gridTotal then
      drawBlock g b (colors.getD (i % numColors) 0) ::
        paintLoop maxnodes colors numColors fuel (b + maxnodes) (i + 1)
    else
      []

/-- `paint_node_blocks`. -/
def paintNodeBlocks (maxnodes nodeid : Nat) (colors : List UInt8) (numColors : Nat) : List Call :=
  paintLoop g maxnodes colors numColors gridTotal nodeid 0

/-- `draw_initial_grid`; the reset of a first `display_open` leaves `gram` in the panel. -/
def drawInitialGrid (gram : Nat → Nat → UInt16) (maxnodes nodeid : Nat) (myColors : List UInt8) :
    List Call :=
  [.displayOpen gram, .displayIoctl (.setBg (some colorGridBg)), .displayIoctl .clear] ++
    (List.range gridTotal).map (drawBlock g · colorBlack) ++
    paintNodeBlocks g maxnodes nodeid myColors maxnodes ++ [.displayIoctl .flush]

/-! ### Pictures -/

/-- The block that a pixel lies in; the others are on the lines. -/
def blockAt (x y : Nat) : Option Nat :=
  let col := x / blockW g
  let row := y / blockH g
  if col < gridCols ∧ row < gridRows ∧ 1 ≤ x % blockW g ∧ x % blockW g + 1 < blockW g ∧
      1 ≤ y % blockH g ∧ y % blockH g + 1 < blockH g then
    some (row * gridCols + col)
  else
    none

/-- The colour of a pixel, where each block has one. -/
def picture (cells : Nat → UInt8) (x y : Nat) : UInt8 :=
  match blockAt g x y with
  | some b => cells b
  | none => colorGridBg

/-- The framebuffer holds the picture. -/
def Painted (cells : Nat → UInt8) (s : State) : Prop :=
  ∀ y < g.height, ∀ x < g.width, s.framebuffer (y * g.width + x) = picture g cells x y

end

section
variable {g : Geometry} {s : State} {as : List Access} {c : UInt8}

/-- Accesses that store one colour only. -/
theorem accesses_fill (one : ∀ i d, Access.store i d ∈ as → d = c) (i : Nat) :
    (s.accesses g as).framebuffer i = if Access.store i c ∈ as then c else s.framebuffer i := by
  induction as generalizing s with
  | nil => simp [State.accesses]
  | cons a as ih =>
    have rest := ih (s := s.access g a) fun j d member => one j d (List.mem_cons_of_mem a member)
    have step : (s.accesses g (a :: as)).framebuffer i =
        ((s.access g a).accesses g as).framebuffer i := rfl
    rw [step, rest]
    cases a with
    | store j d =>
      obtain rfl : d = c := one j d List.mem_cons_self
      by_cases here : i = j
      · subst here
        simp [State.access]
      · simp [State.access, here]
    | markRows ys =>
      obtain ⟨low, high, marked, -⟩ := markRows_eq (g := g) ys s
      simp [State.access, marked]
    | markAll | setCursor | setBg => simp [State.access, State.dirtyMarkAll]

/-- What is drawn is not shown yet. -/
theorem accesses_panel (as : List Access) : (s.accesses g as).panel = s.panel := by
  induction as generalizing s with
  | nil => rfl
  | cons a as ih =>
    have rest := ih (s := s.access g a)
    have step : (s.accesses g (a :: as)).panel = ((s.access g a).accesses g as).panel := rfl
    rw [step, rest]
    cases a with
    | markRows ys =>
      obtain ⟨low, high, marked, -⟩ := markRows_eq (g := g) ys s
      simp [State.access, marked]
    | store | markAll | setCursor | setBg => rfl

/-- The place of a pixel in the framebuffer is its own. -/
theorem index_inj {w x y x' y' : Nat} (inside : x < w) (inside' : x' < w)
    (same : y * w + x = y' * w + x') : y = y' ∧ x = x' := by
  have row : y = y' := by
    have := congrArg (· / w) same
    simpa [Nat.mul_comm _ w, Nat.mul_add_div (Nat.zero_lt_of_lt inside), Nat.div_eq_of_lt inside,
      Nat.div_eq_of_lt inside'] using this
  subst row
  exact ⟨rfl, Nat.add_left_cancel same⟩

/-- What a filled rectangle stores to. -/
theorem store_mem_fill {x y w h i : Nat} {d : UInt8} {fill : List Access}
    (drawn : drawRectImpl g x y w h c true = some fill) :
    Access.store i d ∈ fill ↔ d = c ∧ ∃ row < h, ∃ col < w, x + col < g.width ∧
      y + row < g.height ∧ i = (y + row) * g.width + (x + col) := by
  rw [drawRectImpl, if_pos rfl, Option.some.injEq] at drawn
  subst drawn
  simp only [List.bind_eq_flatMap, List.pure_def, List.mem_flatMap, List.mem_singleton,
    List.mem_range, Int.toNat_natCast, drawPixelImpl]
  constructor
  · rintro ⟨_, ⟨row, lower, rfl⟩, _, ⟨col, left, rfl⟩, stored⟩
    split at stored
    next => cases stored
    next inside =>
      simp only [List.mem_cons, Access.store.injEq, reduceCtorEq, List.not_mem_nil, or_false]
        at stored
      exact ⟨stored.2, row, lower, col, left, by omega, by omega, stored.1⟩
  · rintro ⟨rfl, row, lower, col, left, wide, high, rfl⟩
    refine ⟨row, ⟨row, lower, rfl⟩, col, ⟨col, left, rfl⟩, ?_⟩
    rw [if_neg (by omega)]
    exact List.mem_cons_self

/-- A filled rectangle gives its colour to the pixels in it. -/
theorem fill_framebuffer {x y w h : Nat} {fill : List Access}
    (drawn : drawRectImpl g x y w h c true = some fill) {px py : Nat} (wide : px < g.width)
    (high : py < g.height) :
    (s.accesses g fill).framebuffer (py * g.width + px) =
      if x ≤ px ∧ px < x + w ∧ y ≤ py ∧ py < y + h then c
      else s.framebuffer (py * g.width + px) := by
  rw [accesses_fill fun i d member => ((store_mem_fill drawn).mp member).1]
  congr 1
  rw [store_mem_fill drawn, eq_iff_iff]
  constructor
  · rintro ⟨-, row, lower, col, left, inside, -, same⟩
    obtain ⟨rfl, rfl⟩ := index_inj wide inside same
    omega
  · intro inside
    refine ⟨rfl, py - y, by omega, px - x, by omega, by omega, by omega, ?_⟩
    rw [Nat.add_sub_cancel' inside.2.2.1, Nat.add_sub_cancel' inside.1]

end

/-! ### Blocks -/

section
variable {g : Screen} {s : State}

theorem blockW_bounds (g : Screen) : 2 ≤ blockW g ∧ 9 * blockW g ≤ g.width := by
  constructor
  · exact (Nat.le_div_iff_mul_le (by decide)).mpr g.wide
  · exact Nat.mul_div_le ..

theorem blockH_bounds (g : Screen) : 2 ≤ blockH g ∧ 7 * blockH g ≤ g.height := by
  constructor
  · exact (Nat.le_div_iff_mul_le (by decide)).mpr g.high
  · exact Nat.mul_div_le ..

/-- One coordinate of a block: `k` is its column or row. -/
theorem span_iff {size k p : Nat} (some : 2 ≤ size) :
    (k * size + blockPad ≤ p ∧ p < k * size + blockPad + (size - 2 * blockPad)) ↔
      p / size = k ∧ 1 ≤ p % size ∧ p % size + 1 < size := by
  have parts := Nat.div_add_mod p size
  have below := Nat.mod_lt p (show 0 < size by omega)
  rw [blockPad]
  constructor
  · rintro ⟨from_, upto⟩
    have quotient : p / size = k := by
      apply Nat.div_eq_of_lt_le
      · omega
      · rw [Nat.succ_mul]
        omega
    rw [quotient, Nat.mul_comm] at parts
    omega
  · rintro ⟨rfl, pad, pad'⟩
    rw [Nat.mul_comm] at parts
    omega

/-- The rectangle of `draw_block` is its block. -/
theorem in_block_iff {b x y : Nat} (block : b < gridTotal) :
    (b % gridCols * blockW g + blockPad ≤ x ∧
        x < b % gridCols * blockW g + blockPad + (blockW g - 2 * blockPad) ∧
      b / gridCols * blockH g + blockPad ≤ y ∧
        y < b / gridCols * blockH g + blockPad + (blockH g - 2 * blockPad)) ↔
      blockAt g x y = some b := by
  have across := span_iff (k := b % gridCols) (p := x) (blockW_bounds g).1
  have down := span_iff (k := b / gridCols) (p := y) (blockH_bounds g).1
  rw [← and_assoc, across, down, blockAt]
  simp only [Option.ite_none_right_eq_some, Option.some.injEq]
  simp only [gridTotal, gridCols, gridRows] at block ⊢
  generalize x / blockW g = col, y / blockH g = row
  omega

/-- `draw_block` changes the colour of its block. -/
theorem drawBlock_call {b : Nat} (block : b < gridTotal) (c : UInt8) {cells : Nat → UInt8}
    (ready : Ready g.toGeometry s) (painted : Painted g cells s) :
    ∃ t, s.call g.toGeometry (drawBlock g b c) = some t ∧ Ready g.toGeometry t ∧
      t.initialized = s.initialized ∧ t.panel = s.panel ∧
      Painted g (Function.update cells b c) t := by
  obtain ⟨wide, width⟩ := blockW_bounds g
  obtain ⟨high, height⟩ := blockH_bounds g
  have columns := g.columns_fit
  have rows := g.rows_fit
  have pad : blockPad = 1 := rfl
  have col : b % gridCols ≤ 8 := Nat.le_of_lt_succ (Nat.mod_lt b (by decide))
  have row : b / gridCols ≤ 6 := Nat.le_of_lt_succ (Nat.div_lt_of_lt_mul block)
  have left : b % gridCols * blockW g ≤ 8 * blockW g := Nat.mul_le_mul_right _ col
  have top : b / gridCols * blockH g ≤ 6 * blockH g := Nat.mul_le_mul_right _ row
  -- No coordinate is cut off.
  have x : (UInt16.ofNat (b % gridCols * blockW g + blockPad)).toNat =
      b % gridCols * blockW g + blockPad := UInt16.toNat_ofNat_of_lt' (show _ < 65536 by omega)
  have y : (UInt16.ofNat (b / gridCols * blockH g + blockPad)).toNat =
      b / gridCols * blockH g + blockPad := UInt16.toNat_ofNat_of_lt' (show _ < 65536 by omega)
  have w : (UInt16.ofNat (blockW g - 2 * blockPad)).toNat = blockW g - 2 * blockPad :=
    UInt16.toNat_ofNat_of_lt' (show _ < 65536 by omega)
  have h : (UInt16.ofNat (blockH g - 2 * blockPad)).toNat = blockH g - 2 * blockPad :=
    UInt16.toNat_ofNat_of_lt' (show _ < 65536 by omega)
  obtain ⟨fill, drawn, marked⟩ := drawRectImpl_marked g.toGeometry
    (b % gridCols * blockW g + blockPad : Nat) (b / gridCols * blockH g + blockPad : Nat)
    (blockW g - 2 * blockPad : Nat) (blockH g - 2 * blockPad : Nat) c true
  have called : s.call g.toGeometry (drawBlock g b c) = some (s.accesses g.toGeometry fill) := by
    simp only [State.call, drawBlock, displayIoctl, x, y, w, h]
    rw [show ((1 : UInt8) != 0) = true from rfl, drawn]
    rfl
  refine ⟨_, called, ready.accesses marked, accesses_initialized fill, accesses_panel fill, ?_⟩
  intro py lower px inside
  rw [fill_framebuffer drawn inside lower, painted py lower px inside]
  by_cases here : blockAt g px py = some b
  · rw [if_pos ((in_block_iff block).mpr here)]
    simp [picture, here]
  · rw [if_neg (mt (in_block_iff block).mp here)]
    cases at_ : blockAt g px py with
    | none => simp [picture, at_]
    | some d =>
      have other : d ≠ b := fun same => here (by rw [at_, same])
      simp [picture, at_, other]

/-! ### Nodes -/

/-- The colours after the first `k` blocks of a node have been painted. -/
def repaint (maxnodes nodeid : Nat) (colors : Nat → UInt8) (k : Nat) (cells : Nat → UInt8)
    (b : Nat) : UInt8 :=
  if b % maxnodes = nodeid ∧ b / maxnodes < k then colors (b / maxnodes) else cells b

/-- The colours after all of them have been. -/
def recolor (maxnodes nodeid : Nat) (colors : Nat → UInt8) (cells : Nat → UInt8) (b : Nat) :
    UInt8 :=
  if b % maxnodes = nodeid then colors (b / maxnodes) else cells b

variable {maxnodes nodeid : Nat} {colors cells cells' : Nat → UInt8}

theorem blockAt_lt {x y b : Nat} (h : blockAt g x y = some b) : b < gridTotal := by
  simp only [blockAt, Option.ite_none_right_eq_some, Option.some.injEq] at h
  simp only [gridTotal, gridCols, gridRows] at h ⊢
  omega

theorem picture_congr (same : ∀ b < gridTotal, cells b = cells' b) (x y : Nat) :
    picture g cells x y = picture g cells' x y := by
  unfold picture
  split
  next b at_ => exact same b (blockAt_lt at_)
  next => rfl

theorem Painted.congr (painted : Painted g cells s) (same : ∀ b < gridTotal, cells b = cells' b) :
    Painted g cells' s := by
  intro y lower x inside
  rw [painted y lower x inside]
  exact picture_congr same x y

theorem repaint_zero : repaint maxnodes nodeid colors 0 cells = cells := by
  funext b
  simp [repaint]

variable (colors) in
theorem update_repaint (below : nodeid < maxnodes) (k : Nat) :
    Function.update (repaint maxnodes nodeid colors k cells) (nodeid + maxnodes * k) (colors k) =
      repaint maxnodes nodeid colors (k + 1) cells := by
  have owner : (nodeid + maxnodes * k) % maxnodes = nodeid := by
    rw [Nat.add_mul_mod_self_left, Nat.mod_eq_of_lt below]
  have place : (nodeid + maxnodes * k) / maxnodes = k := by
    rw [Nat.add_mul_div_left _ _ (Nat.zero_lt_of_lt below), Nat.div_eq_of_lt below, Nat.zero_add]
  funext b
  by_cases here : b = nodeid + maxnodes * k
  · subst here
    simp [repaint, owner, place]
  · rw [Function.update_of_ne here, repaint, repaint]
    have apart : b % maxnodes = nodeid → b / maxnodes ≠ k := by
      rintro rfl rfl
      exact here (Nat.mod_add_div b maxnodes).symm
    by_cases own : b % maxnodes = nodeid
    · have := apart own
      simp only [own, true_and]
      congr 1
      rw [eq_iff_iff]
      omega
    · simp [own]

/-- Past the last block nothing is left to paint. -/
theorem repaint_all {k : Nat} (last : gridTotal ≤ nodeid + maxnodes * k) {b : Nat}
    (block : b < gridTotal) :
    repaint maxnodes nodeid colors k cells b = recolor maxnodes nodeid colors cells b := by
  unfold repaint recolor
  by_cases own : b % maxnodes = nodeid
  · have early : b / maxnodes < k := by
      apply Nat.lt_of_not_le
      intro late
      have parts := Nat.mod_add_div b maxnodes
      have := Nat.mul_le_mul_left maxnodes late
      omega
    simp [own, early]
  · simp [own]

theorem calls_cons (g : Geometry) (s : State) (c : Call) (cs : List Call) :
    s.calls g (c :: cs) = (s.call g c).bind fun t => t.calls g cs := rfl

theorem calls_append (g : Geometry) (s : State) (cs ds : List Call) :
    s.calls g (cs ++ ds) = (s.calls g cs).bind fun t => t.calls g ds :=
  List.foldlM_append ..

/-- The rest of the loop of `paint_node_blocks`, after `k` turns. -/
theorem paintLoop_calls (below : nodeid < maxnodes) {vector : List UInt8} {numColors fuel k : Nat}
    (enough : gridTotal ≤ nodeid + maxnodes * k + fuel) (ready : Ready g.toGeometry s)
    (painted : Painted g
      (repaint maxnodes nodeid (fun k => vector.getD (k % numColors) 0) k cells) s) :
    ∃ t, s.calls g.toGeometry
        (paintLoop g maxnodes vector numColors fuel (nodeid + maxnodes * k) k) = some t ∧
      Ready g.toGeometry t ∧ t.initialized = s.initialized ∧
      Painted g (recolor maxnodes nodeid (fun k => vector.getD (k % numColors) 0) cells) t := by
  induction fuel generalizing k s with
  | zero => exact ⟨s, rfl, ready, rfl, painted.congr fun b block => repaint_all enough block⟩
  | succ fuel ih =>
    rw [paintLoop]
    split
    next more =>
      obtain ⟨t, drawn, ready, initialized, -, painted⟩ := drawBlock_call more
        (vector.getD (k % numColors) 0) ready painted
      rw [update_repaint (fun k => vector.getD (k % numColors) 0) below k] at painted
      have next : nodeid + maxnodes * k + maxnodes = nodeid + maxnodes * (k + 1) := by
        rw [Nat.mul_succ, Nat.add_assoc]
      obtain ⟨u, rest, ready, still, painted⟩ := ih (k := k + 1) (by omega) ready painted
      rw [calls_cons, drawn, next]
      exact ⟨u, rest, ready, still.trans initialized, painted⟩
    next last =>
      exact ⟨s, rfl, ready, rfl, painted.congr fun b block => repaint_all (by omega) block⟩

theorem paintNodeBlocks_calls (below : nodeid < maxnodes) (vector : List UInt8) (numColors : Nat)
    (ready : Ready g.toGeometry s) (painted : Painted g cells s) :
    ∃ t, s.calls g.toGeometry (paintNodeBlocks g maxnodes nodeid vector numColors) = some t ∧
      Ready g.toGeometry t ∧ t.initialized = s.initialized ∧
      Painted g (recolor maxnodes nodeid (fun k => vector.getD (k % numColors) 0) cells) t := by
  apply paintLoop_calls below (k := 0) (by omega) ready
  rwa [repaint_zero]

/-! ### The panel -/

/-- The panel shows the picture. -/
def Shown (g : Screen) (cells : Nat → UInt8) (s : State) : Prop :=
  ∀ y < g.height, ∀ x < g.width,
    s.panel.gram (g.rowOffset + y) (g.colOffset + x) = rgb565 (picture g cells x y)

theorem flush_call (ready : Ready g.toGeometry s) (initialized : s.initialized = true)
    (painted : Painted g cells s) :
    ∃ t, s.call g.toGeometry (.displayIoctl .flush) = some t ∧ Ready g.toGeometry t ∧
      t.initialized = true ∧ Painted g cells t ∧ Shown g cells t := by
  refine ⟨displayFlushFb g.toGeometry s, rfl, ready.flush, by rw [flush_initialized, initialized],
    ?_, ?_⟩
  · intro y lower x inside
    rw [flush_framebuffer, painted y lower x inside]
  · intro y lower x inside
    have shows : RowShown g.toGeometry (displayFlushFb g.toGeometry s) y := by
      apply flush_shows s ready.inside
      by_cases dirty : s.dirtyMin ≤ y ∧ y ≤ s.dirtyMax
      · exact .inl dirty
      · exact .inr (ready.shown y lower (by simp [initialized]) dirty)
    rw [shows x inside, flush_framebuffer, painted y lower x inside]

/-- The panel shows one picture above row `y`, and another one from there on. -/
def ShownTo (g : Screen) (above below : Nat → UInt8) (y : Nat) (s : State) : Prop :=
  ∀ r < g.height, ∀ x < g.width, s.panel.gram (g.rowOffset + r) (g.colOffset + x) =
    rgb565 (picture g (if r < y then above else below) x r)

theorem Shown.shownTo (shown : Shown g cells s) (y : Nat) : ShownTo g cells cells y s := by
  intro r lower x inside
  rw [ite_self]
  exact shown r lower x inside

/-- Rows outside the dirty range show what is painted. -/
theorem row_painted (painted : Painted g cells s) {y : Nat} (lower : y < g.height)
    (row : RowShown g.toGeometry s y) {x : Nat} (inside : x < g.width) :
    s.panel.gram (g.rowOffset + y) (g.colOffset + x) = rgb565 (picture g cells x y) := by
  rw [row x inside, painted y lower x inside]

/-- A clean display shows what is painted. -/
theorem flush_clean (ready : Ready g.toGeometry s) (initialized : s.initialized = true)
    (painted : Painted g cells s) (clean : s.dirtyMax < s.dirtyMin) : Shown g cells s := by
  intro y lower x inside
  exact row_painted painted lower (ready.shown y lower (by simp [initialized]) (by omega)) inside

/-- The window of a flush: what is drawn is shown above it. -/
theorem flush_starts {front : Nat → UInt8} (ready : Ready g.toGeometry s)
    (initialized : s.initialized = true) (painted : Painted g cells s) (shown : Shown g front s)
    (dirty : s.dirtyMin ≤ s.dirtyMax) :
    Ready g.toGeometry (flushWindow g.toGeometry s) ∧
      Painted g cells (flushWindow g.toGeometry s) ∧
      Sending g.toGeometry s.dirtyMin (flushWindow g.toGeometry s) ∧
      ShownTo g cells front s.dirtyMin (flushWindow g.toGeometry s) := by
  refine ⟨?_, fun r lower x inside => ?_, Sending.start dirty ready.inside, fun r lower x inside => ?_⟩
  · rw [flushWindow_eq dirty ready.inside]
    exact ⟨ready.inside, ready.shown⟩
  · rw [flushWindow_framebuffer]
    exact painted r lower x inside
  · rw [flushWindow_eq dirty ready.inside]
    change s.panel.gram _ _ = _
    split
    next above =>
      exact row_painted painted lower (ready.shown r lower (by simp [initialized]) (by omega)) inside
    next => exact shown r lower x inside

/-- A row of a flush. -/
theorem flush_row {front : Nat → UInt8} {y : Nat} (ready : Ready g.toGeometry s)
    (painted : Painted g cells s) (sending : Sending g.toGeometry y s)
    (shown : ShownTo g cells front y s) (more : y ≤ s.dirtyMax) :
    Ready g.toGeometry (flushRow g.toGeometry y s) ∧
      Painted g cells (flushRow g.toGeometry y s) ∧
      Sending g.toGeometry (y + 1) (flushRow g.toGeometry y s) ∧
      ShownTo g cells front (y + 1) (flushRow g.toGeometry y s) := by
  obtain ⟨next, row, others⟩ := sending.turn more
  have painted' : Painted g cells (flushRow g.toGeometry y s) := by
    intro r lower x inside
    rw [flushRow_framebuffer]
    exact painted r lower x inside
  refine ⟨⟨ready.inside, fun r lower stale clean x inside => ?_⟩, painted', next,
    fun r lower x inside => ?_⟩
  · -- the row that is sent is a dirty one
    have other : r ≠ y := fun eq => clean (by rw [eq]; exact ⟨sending.low, more⟩)
    rw [others _ _ (by omega)]
    exact ready.shown r lower stale clean x inside
  · by_cases here : r = y
    · subst here
      rw [if_pos (Nat.lt_succ_self r)]
      exact row_painted painted' lower row inside
    · rw [others _ _ (by omega), shown r lower x inside]
      by_cases above : r < y
      · rw [if_pos above, if_pos (by omega)]
      · rw [if_neg above, if_neg (by omega)]

/-- The end of a flush. -/
theorem flush_ends {front : Nat → UInt8} {y : Nat} (ready : Ready g.toGeometry s)
    (initialized : s.initialized = true) (painted : Painted g cells s)
    (sending : Sending g.toGeometry y s) (shown : ShownTo g cells front y s)
    (last : ¬ y ≤ s.dirtyMax) :
    Ready g.toGeometry (s.dirtyReset g.toGeometry) ∧ Shown g cells (s.dirtyReset g.toGeometry) := by
  have all : Shown g cells s := by
    intro r lower x inside
    by_cases above : r < y
    · have here := shown r lower x inside
      rwa [if_pos above] at here
    · have low := sending.low
      exact row_painted painted lower (ready.shown r lower (by simp [initialized]) (by omega)) inside
  refine ⟨⟨g.height_pos, fun r lower _ _ x inside => ?_⟩, all⟩
  exact (all r lower x inside).trans (congrArg rgb565 (painted r lower x inside).symm)

/-- The blocks of a list, all black. -/
theorem black_calls (bs : List Nat) (blocks : ∀ b ∈ bs, b < gridTotal) (ready : Ready g.toGeometry s)
    (painted : Painted g cells s) :
    ∃ t, s.calls g.toGeometry (bs.map (drawBlock g · colorBlack)) = some t ∧
      Ready g.toGeometry t ∧ t.initialized = s.initialized ∧
      Painted g (fun b => if b ∈ bs then colorBlack else cells b) t := by
  induction bs generalizing s cells with
  | nil => exact ⟨s, rfl, ready, rfl, by simpa using painted⟩
  | cons b bs ih =>
    rw [List.forall_mem_cons] at blocks
    obtain ⟨t, drawn, ready, initialized, -, painted⟩ := drawBlock_call blocks.1 colorBlack ready
      painted
    obtain ⟨u, rest, ready, still, painted⟩ := ih blocks.2 ready painted
    rw [List.map_cons, calls_cons, drawn]
    refine ⟨u, rest, ready, still.trans initialized, painted.congr fun d _ => ?_⟩
    by_cases here : d = b
    · subst here
      simp
    · simp [here]

/-- CLEAR after SET_BG: every pixel has the colour of the lines. -/
theorem clear_painted (s : State) :
    ∃ t, s.calls g.toGeometry
        [.displayIoctl (.setBg (some colorGridBg)), .displayIoctl .clear] = some t ∧
      Painted g (fun _ => colorGridBg) t := by
  refine ⟨_, rfl, fun y lower x inside => ?_⟩
  have place : y * g.width + x < g.fbSize := by
    have := Nat.mul_le_mul_right g.width (Nat.succ_le_of_lt lower)
    rw [Nat.succ_mul] at this
    rw [Geometry.fbSize, Nat.mul_comm g.width]
    omega
  have fills : (State.accesses g.toGeometry { s with bgColor := colorGridBg }
      (memset g.toGeometry colorGridBg ++ [.markAll])).framebuffer (y * g.width + x) =
        colorGridBg := by
    rw [accesses_fill (c := colorGridBg) fun i d member =>
      (show i < g.fbSize ∧ colorGridBg = d by simpa [memset] using member).2.symm]
    simp [memset, place]
  have lines : picture g (fun _ => colorGridBg) x y = colorGridBg := by
    unfold picture
    split <;> rfl
  rw [lines]
  exact fills

/-- `draw_initial_grid` shows the own colours, and all other blocks black. -/
theorem drawInitialGrid_calls (below : nodeid < maxnodes) (gram : Nat → Nat → UInt16)
    (vector : List UInt8) (ready : Ready g.toGeometry s) :
    ∃ t, s.calls g.toGeometry (drawInitialGrid g gram maxnodes nodeid vector) = some t ∧
      Ready g.toGeometry t ∧ t.initialized = true ∧
      Painted g (recolor maxnodes nodeid (fun k => vector.getD (k % maxnodes) 0)
        fun _ => colorBlack) t ∧
      Shown g (recolor maxnodes nodeid (fun k => vector.getD (k % maxnodes) 0)
        fun _ => colorBlack) t := by
  -- one fact for each part of the call list, from the open to the flush
  obtain ⟨opened, initialized⟩ := ready.displayOpen gram
  obtain ⟨t, cleared, painted⟩ := clear_painted (g := g) (displayOpen g.toGeometry gram s)
  obtain ⟨_, again, ready, still⟩ := opened.calls
    [.displayIoctl (.setBg (some colorGridBg)), .displayIoctl .clear]
  obtain rfl := Option.some.inj (cleared.symm.trans again)
  obtain ⟨u, blacked, ready, kept, painted⟩ := black_calls (List.range gridTotal)
    (fun b member => List.mem_range.mp member) ready painted
  have black : Painted g (fun _ => colorBlack) u := painted.congr fun b block => by simp [block]
  obtain ⟨v, own, ready, kept', painted⟩ := paintNodeBlocks_calls below vector maxnodes ready black
  obtain ⟨w, flushed, ready, initialized, painted, shown⟩ := flush_call ready
    (kept'.trans (kept.trans (still initialized))) painted
  refine ⟨w, ?_, ready, initialized, painted, shown⟩
  have parts : drawInitialGrid g gram maxnodes nodeid vector = [.displayOpen gram] ++
      ([.displayIoctl (.setBg (some colorGridBg)), .displayIoctl .clear] ++
        ((List.range gridTotal).map (drawBlock g · colorBlack) ++
          (paintNodeBlocks g maxnodes nodeid vector maxnodes ++ [.displayIoctl .flush]))) := by
    simp [drawInitialGrid]
  have opens : s.calls g.toGeometry [.displayOpen gram] = some (displayOpen g.toGeometry gram s) :=
    rfl
  have flushes : v.calls g.toGeometry [.displayIoctl .flush] = some w := by
    rw [calls_cons, flushed]
    rfl
  rw [parts]
  simp only [calls_append, opens, cleared, blacked, own, flushes, Option.bind_some]

end

end PicoOS.Apps.Cluster
