import Mathlib
import PicoOS.Display.Race

/-!
# Marks that a flush loses

Alone, the two parties of the race do what the calls do. Together they lose a
mark, unless their steps are in order.
-/
namespace PicoOS.Display

open Panel

section Alone

variable (g : Geometry) {s : State} {pc : FlushPc} {d : Drawer}

theorem flush_one (r : Race) (n : Nat) :
    Run.exec (Race.step g) r (List.replicate (n + 1) .flush) =
      Run.exec (Race.step g) (r.step g .flush) (List.replicate n .flush) := rfl

theorem flush_more (r : Race) (m n : Nat) :
    Run.exec (Race.step g) r (List.replicate (m + n) .flush) =
      Run.exec (Race.step g) (Run.exec (Race.step g) r (List.replicate m .flush))
        (List.replicate n .flush) := by
  rw [List.replicate_add, Run.exec_append]

/-- `row_buf` is filled pixel by pixel. -/
theorem expand_alone (y : Nat) {n : Nat} (short : n ≤ g.width) :
    Run.exec (Race.step g) ⟨s, .expand y [], d⟩ (List.replicate n .flush) =
      ⟨s, .expand y ((List.range n).map fun x => rgb565 (s.framebuffer (y * g.width + x))), d⟩ := by
  induction n with
  | zero => rfl
  | succ n ih =>
    rw [flush_more, ih (by omega), flush_one]
    have more : n < g.width := short
    simp only [Race.step, flushStep, List.length_map, List.length_range, more, if_true,
      List.replicate_zero, Run.exec_nil, List.range_succ, List.map_append, List.map_cons,
      List.map_nil]

/-- A row of the loop. -/
theorem row_alone {y : Nat} (more : y ≤ s.dirtyMax) :
    Run.exec (Race.step g) ⟨s, .loopTest y, d⟩ (List.replicate (g.width + 2) .flush) =
      ⟨{ s with panel := s.panel.send (rowBuf g s.framebuffer y) }, .loopTest (y + 1), d⟩ := by
  rw [show g.width + 2 = 1 + g.width + 1 by omega, flush_more, flush_more]
  have test : Run.exec (Race.step g) ⟨s, .loopTest y, d⟩ (List.replicate 1 .flush) =
      ⟨s, .expand y [], d⟩ := by
    simp only [List.replicate_one, Run.exec_cons, Run.exec_nil, Race.step, flushStep, more, if_true]
  rw [test, expand_alone g y (le_refl g.width)]
  simp only [List.replicate_one, Run.exec_cons, Run.exec_nil, Race.step, flushStep,
    List.length_map, List.length_range, lt_irrefl, if_false, rowBuf_eq, rowPixels]

/-- The panel after the rows `ys` of the framebuffer. -/
def sendRowsOf (p : Panel) (framebuffer : Nat → UInt8) (ys : List Nat) : Panel :=
  ys.foldl (fun p y => p.send (rowBuf g framebuffer y)) p

/-- The loop, from row `y` to the last one. -/
theorem rows_alone {y n : Nat} (last : y + n = s.dirtyMax + 1) :
    ∃ steps, Run.exec (Race.step g) ⟨s, .loopTest y, d⟩ (List.replicate steps .flush) =
      ⟨{ s with panel := sendRowsOf g s.panel s.framebuffer (List.range' y n) }, .resetMin, d⟩ := by
  induction n generalizing s y with
  | zero =>
    have ended : ¬ y ≤ s.dirtyMax := by omega
    refine ⟨1, ?_⟩
    simp only [List.replicate_one, Run.exec_cons, Run.exec_nil, Race.step, flushStep, ended,
      if_false, List.range'_zero, sendRowsOf, List.foldl_nil]
  | succ n ih =>
    obtain ⟨steps, rest⟩ := @ih { s with panel := s.panel.send (rowBuf g s.framebuffer y) } (y + 1)
      (by dsimp only; omega)
    refine ⟨g.width + 2 + steps, ?_⟩
    rw [flush_more, row_alone g (by omega), rest, List.range'_succ, sendRowsOf, sendRowsOf,
      List.foldl_cons]

theorem check_alone (s : State) (d : Drawer) :
    Run.exec (Race.step g) ⟨s, .checkMin, d⟩ (List.replicate 2 .flush) =
      ⟨s, if s.dirtyMin > s.dirtyMax then .done else .rowStart, d⟩ := rfl

theorem window_alone (s : State) (d : Drawer) :
    Run.exec (Race.step g) ⟨s, .rowStart, d⟩ (List.replicate 3 .flush) =
      ⟨{ s with panel := (sendRows g s.dirtyMin s.dirtyMax (sendColumns g s.panel)).cmd ramwr },
        .loopTest s.dirtyMin, d⟩ := by
  simp only [flush_one, Race.step, flushStep, List.replicate_zero, Run.exec_nil]

/-- Alone, the flush is `display_flush_fb`. -/
theorem flush_alone (s : State) (d : Drawer) :
    ∃ steps, Run.exec (Race.step g) ⟨s, .checkMin, d⟩ (List.replicate steps .flush) =
      ⟨displayFlushFb g s, .done, d⟩ := by
  by_cases clean : s.dirtyMin > s.dirtyMax
  · refine ⟨2, ?_⟩
    rw [check_alone, if_pos clean, displayFlushFb, if_pos clean]
  · let p := (sendRows g s.dirtyMin s.dirtyMax (sendColumns g s.panel)).cmd ramwr
    have last : s.dirtyMin + (s.dirtyMax + 1 - s.dirtyMin) = s.dirtyMax + 1 := by omega
    obtain ⟨steps, rows⟩ := @rows_alone g { s with panel := p } d s.dirtyMin _ last
    refine ⟨2 + (3 + (steps + 2)), ?_⟩
    rw [flush_more, check_alone, if_neg clean, flush_more, window_alone, flush_more, rows,
      displayFlushFb, if_neg clean]
    rfl

theorem draw_one (r : Race) (n : Nat) :
    Run.exec (Race.step g) r (List.replicate (n + 1) .draw) =
      Run.exec (Race.step g) (r.step g .draw) (List.replicate n .draw) := rfl

theorem draw_more (r : Race) (m n : Nat) :
    Run.exec (Race.step g) r (List.replicate (m + n) .draw) =
      Run.exec (Race.step g) (Run.exec (Race.step g) r (List.replicate m .draw))
        (List.replicate n .draw) := by
  rw [List.replicate_add, Run.exec_append]

/-- A test and its assignment. -/
theorem test_alone (s : State) (y : Nat) (ops : List MarkOp) (rest : List Access) :
    ∃ steps, Run.exec (Race.step g) ⟨s, pc, ⟨.ifMin y :: .ifMax y :: ops, rest⟩⟩
      (List.replicate steps .draw) = ⟨s.dirtyMarkRow y, pc, ⟨ops, rest⟩⟩ := by
  by_cases below : y < s.dirtyMin
  · by_cases above : y > s.dirtyMax
    · refine ⟨4, ?_⟩
      simp only [draw_one, Race.step, drawStep, MarkOp.run, below, above, if_true,
        List.singleton_append, List.nil_append, List.replicate_zero, Run.exec_nil,
        State.dirtyMarkRow]
    · refine ⟨3, ?_⟩
      simp only [draw_one, Race.step, drawStep, MarkOp.run, below, above, if_true, if_false,
        List.singleton_append, List.nil_append, List.replicate_zero, Run.exec_nil,
        State.dirtyMarkRow]
  · by_cases above : y > s.dirtyMax
    · refine ⟨3, ?_⟩
      simp only [draw_one, Race.step, drawStep, MarkOp.run, below, above, if_true, if_false,
        List.singleton_append, List.nil_append, List.replicate_zero, Run.exec_nil,
        State.dirtyMarkRow]
    · refine ⟨2, ?_⟩
      simp only [draw_one, Race.step, drawStep, MarkOp.run, below, above, if_false,
        List.nil_append, List.replicate_zero, Run.exec_nil, State.dirtyMarkRow]

/-- The marks of a list of rows. -/
theorem marks_alone (s : State) (ys : List Nat) (rest : List Access) :
    ∃ steps, Run.exec (Race.step g)
      ⟨s, pc, ⟨ys.flatMap fun y => [.ifMin y, .ifMax y], rest⟩⟩ (List.replicate steps .draw) =
      ⟨ys.foldl State.dirtyMarkRow s, pc, ⟨[], rest⟩⟩ := by
  induction ys generalizing s with
  | nil => exact ⟨0, rfl⟩
  | cons y ys ih =>
    obtain ⟨m, first⟩ := test_alone g s y
      (ys.flatMap fun y => [.ifMin y, .ifMax y]) rest
    obtain ⟨n, others⟩ := ih (s.dirtyMarkRow y)
    refine ⟨m + n, ?_⟩
    rw [draw_more, List.flatMap_cons]
    exact (congrArg (Run.exec (Race.step g) · (List.replicate n .draw)) first).trans others

/-- Alone, the drawing call makes its accesses one after another. -/
theorem draw_alone (s : State) (as : List Access) :
    ∃ steps, Run.exec (Race.step g) ⟨s, pc, ⟨[], as⟩⟩ (List.replicate steps .draw) =
      ⟨s.accesses g as, pc, ⟨[], []⟩⟩ := by
  induction as generalizing s with
  | nil => exact ⟨0, rfl⟩
  | cons a as ih =>
    obtain ⟨n, others⟩ := ih (s.access g a)
    cases a with
    | store i color => exact ⟨n + 1, others⟩
    | setCursor m => exact ⟨n + 1, others⟩
    | setBg color => exact ⟨n + 1, others⟩
    | markAll => exact ⟨n + 3, others⟩
    | markRows ys =>
      obtain ⟨m, marks⟩ := marks_alone g s ys as
      refine ⟨1 + m + n, ?_⟩
      rw [draw_more, draw_more]
      exact (congrArg (Run.exec (Race.step g) · (List.replicate n .draw)) marks).trans others

end Alone

section Pixel

variable (g : Geometry)

theorem accesses_min_le (s : State) (as : List Access) :
    (s.accesses g as).dirtyMin ≤ s.dirtyMin := by
  induction as generalizing s with
  | nil => exact le_refl _
  | cons a as ih =>
    have first : (s.access g a).dirtyMin ≤ s.dirtyMin := by
      cases a with
      | markRows ys =>
        obtain ⟨low, high, result, below, -⟩ := markRows_eq (g := g) ys s
        rw [State.access, result]
        exact below.1
      | markAll => exact Nat.zero_le _
      | store i color => exact le_refl _
      | setCursor n => exact le_refl _
      | setBg color => exact le_refl _
    exact (ih _).trans first

theorem flush_resets {s : State} (dirty : s.dirtyMin ≤ s.dirtyMax) :
    (displayFlushFb g s).dirtyMin = g.height ∧ (displayFlushFb g s).dirtyMax = 0 := by
  rw [displayFlushFb, if_neg (by omega)]
  exact ⟨rfl, rfl⟩

/-- The first `display_open` leaves nothing dirty. -/
theorem open_clean (panel : Panel) (gram : Nat → Nat → UInt16) :
    (displayOpen g gram (powerOn g panel)).dirtyMin = g.height ∧
      (displayOpen g gram (powerOn g panel)).dirtyMax = 0 := by
  have dirty : ∀ t : State, (t.accesses g (splash g)).dirtyMin ≤ (t.accesses g (splash g)).dirtyMax := by
    intro t
    have all : (t.accesses g (memset g colorBlue ++ [.markAll])).dirtyMin = 0 := by
      rw [State.accesses, List.foldl_append]
      rfl
    have low : (t.accesses g (splash g)).dirtyMin ≤ 0 := by
      rw [splash, State.accesses, List.foldl_append]
      exact (accesses_min_le g _ _).trans all.le
    omega
  exact flush_resets g (dirty _)

/-- The state after a pixel in the first row, where nothing was dirty. -/
theorem pixel_drawn {s : State} (low : s.dirtyMin = g.height) (high : s.dirtyMax = 0)
    (color : UInt8) : s.accesses g [.store 0 color, .markRows [0]] =
      { s with framebuffer := Function.update s.framebuffer 0 color, dirtyMin := 0, dirtyMax := 0 } := by
  simp only [State.accesses, State.access, List.foldl_cons, List.foldl_nil, dirtyMarkRow_eq, low,
    high, Nat.min_zero, Nat.max_self]

/-- The flush of the first row, up to its reset. -/
theorem first_row_sent {s : State} {d : Drawer} (low : s.dirtyMin = 0) (high : s.dirtyMax = 0) :
    Run.exec (Race.step g) ⟨s, .checkMin, d⟩ (List.replicate (2 + (3 + (g.width + 2 + 1))) .flush) =
      ⟨{ s with panel := nextRow g (opened g s.panel 0 0) (rowPixels g s.framebuffer 0) },
        .resetMin, d⟩ := by
  have window := window_eq g s.panel (le_refl 0) g.height_pos
  have sent := (opened_streaming g s.panel 0 0).send_row (length_rowPixels s.framebuffer 0)
  have clean : ¬ s.dirtyMin > s.dirtyMax := by omega
  have ended : ¬ 1 ≤ 0 := by omega
  rw [flush_more, check_alone, if_neg clean, flush_more, window_alone, low, high, window,
    flush_more, row_alone g (Nat.zero_le _), rowBuf_eq]
  dsimp only
  rw [sent]
  simp only [flush_one, Race.step, flushStep, Nat.zero_add, ended, if_false, List.replicate_zero,
    Run.exec_nil]

/-- A mark of the first row that finds it in the range, before the flush empties the range. -/
theorem first_row_lost {s : State} (low : s.dirtyMin = 0) (high : s.dirtyMax = 0) (color : UInt8) :
    Run.exec (Race.step g) ⟨s, .resetMin, ⟨[], [.store 0 color, .markRows [0]]⟩⟩
      (List.replicate 4 .draw ++ List.replicate 2 .flush) =
      ⟨{ s with
          framebuffer := Function.update s.framebuffer 0 color
          dirtyMin := g.height
          dirtyMax := 0 }, .done, ⟨[], []⟩⟩ := by
  rw [Run.exec_append]
  simp only [draw_one, flush_one, Race.step, drawStep, flushStep, markOps, State.access,
    List.flatMap_cons, List.flatMap_nil, List.append_nil, MarkOp.run, low, high, lt_irrefl,
    if_false, List.nil_append, List.replicate_zero, Run.exec_nil]

end Pixel

/-- A pixel of the first row. -/
def firstPixel (color : UInt8) : Call := .displayIoctl (.drawPixel (some ⟨0, 0, color⟩))

theorem firstPixel_drawing (s : State) (color : UInt8) :
    drawing pack s (firstPixel color) = some [.store 0 color, .markRows [0]] := by
  simp [drawing, firstPixel, displayIoctl, drawPixelImpl, pack]

theorem firstPixel_call (s : State) (color : UInt8) :
    s.call pack (firstPixel color) = some (s.accesses pack [.store 0 color, .markRows [0]]) := by
  simp [State.call, State.work, firstPixel, displayIoctl, drawPixelImpl, pack]

/-- A panel without power. -/
def offPanel : Panel where
  gram _ _ := 0
  columns := ⟨0, 0⟩
  rows := ⟨0, 0⟩
  command := 0
  params := []
  row := 0
  col := 0
  high := none

/-- A Display Pack after `display_open`. -/
def opened0 : State := displayOpen pack (fun _ _ => 0) (powerOn pack offPanel)

/-- A Display Pack with a white pixel to flush. -/
def whitePixel : State := opened0.accesses pack [.store 0 colorWhite, .markRows [0]]

theorem whitePixel_reached : (powerOn pack offPanel).calls pack
    ([] ++ .displayOpen (fun _ _ => 0) :: [firstPixel colorWhite]) = some whitePixel := by
  have opens : (powerOn pack offPanel).call pack (.displayOpen fun _ _ => 0) = some opened0 := rfl
  simp only [List.nil_append, State.calls, List.foldlM_cons, List.foldlM_nil, opens,
    Option.bind_eq_bind, Option.bind_some, firstPixel_call, Option.pure_def, whitePixel]

theorem whitePixel_eq : whitePixel = { opened0 with
    framebuffer := Function.update opened0.framebuffer 0 colorWhite, dirtyMin := 0, dirtyMax := 0 } :=
  have clean := open_clean pack offPanel fun _ _ => 0
  pixel_drawn pack clean.1 clean.2 colorWhite

/-- A flush on one core and a drawing call on the other, in order, from any state after the display
is initialised: when both have returned, a row that differs from the panel is in the dirty
range. -/
theorem dirty_marks_kept (g : Geometry) (panel : Panel) (before after : List Call)
    (gram : Nat → Nat → UInt16) {s : State} (c : Call) {as : List Access} {turns : List Turn}
    (reached : (powerOn g panel).calls g (before ++ .displayOpen gram :: after) = some s)
    (draws : drawing g s c = some as)
    (order : Run.Along (Race.step g) (InOrder g) (Race.start s as) turns)
    (finished : (Run.exec (Race.step g) (Race.start s as) turns).Finished) :
    ∀ y < g.height, ¬ RowShown g (Run.exec (Race.step g) (Race.start s as) turns).mem y →
      (Run.exec (Race.step g) (Race.start s as) turns).mem.dirtyMin ≤ y ∧
        y ≤ (Run.exec (Race.step g) (Race.start s as) turns).mem.dirtyMax := by
  intro y row stale
  have mirrors := mirrors_of_calls reached
  exact ((kept_start mirrors (drawing_marked draws)).run order).finished finished row stale

/-- A flush of nothing, and a black pixel after it. -/
def keptTurns : List Turn := [.flush, .flush, .draw, .draw, .draw, .draw, .draw]

theorem keptTurns_order {s : State} (low : s.dirtyMin = pack.height) (high : s.dirtyMax = 0) :
    Run.Along (Race.step pack) (InOrder pack)
      (Race.start s [.store 0 colorBlack, .markRows [0]]) keptTurns ∧
    Run.exec (Race.step pack) (Race.start s [.store 0 colorBlack, .markRows [0]]) keptTurns =
      ⟨{ s with
          framebuffer := Function.update s.framebuffer 0 colorBlack
          dirtyMin := 0
          dirtyMax := 0 }, .done, ⟨[], []⟩⟩ := by
  have above : 0 < s.dirtyMin := by
    rw [low]
    exact pack.height_pos
  simp only [keptTurns, Run.along_cons, Run.along_nil, Run.exec_cons, Run.exec_nil, Race.start,
    Race.step, flushStep, drawStep, markOps, State.access, List.flatMap_cons, List.flatMap_nil,
    List.append_nil, MarkOp.run, above, high, lt_irrefl, if_true, if_false,
    List.nil_append, List.singleton_append, InOrder, KeepsBounds, FlushPc.Sending,
    false_implies, and_self]

/-- A Display Pack whose panel shows the white pixel. -/
def flushedPixel : State := displayFlushFb pack whitePixel

theorem flushedPixel_reached : (powerOn pack offPanel).calls pack
    ([] ++ .displayOpen (fun _ _ => 0) :: [firstPixel colorWhite, .displayIoctl .flush]) =
      some flushedPixel := by
  have drawn := whitePixel_reached
  simp only [List.nil_append, State.calls, List.foldlM_cons, List.foldlM_nil] at drawn ⊢
  cases opens : (powerOn pack offPanel).call pack (.displayOpen fun _ _ => 0) with
  | none => simp [opens] at drawn
  | some s =>
    simp only [opens, Option.bind_eq_bind, Option.bind_some, Option.pure_def,
      Option.bind_fun_some] at drawn ⊢
    rw [drawn]
    rfl

/-- Flushing one white pixel leaves it on the panel and no row dirty. -/
theorem flush_pixel {s : State} (low : s.dirtyMin = 0) (high : s.dirtyMax = 0)
    (white : s.framebuffer 0 = colorWhite) :
    (displayFlushFb pack s).dirtyMin = pack.height ∧ (displayFlushFb pack s).dirtyMax = 0 ∧
      (displayFlushFb pack s).panel.gram (pack.rowOffset + 0) (pack.colOffset + 0) =
        rgb565 colorWhite := by
  have dirty : ¬ s.dirtyMin > s.dirtyMax := by omega
  have shown : RowShown pack (displayFlushFb pack s) 0 :=
    flush_shows s (high.trans_lt pack.height_pos) (.inl ⟨low.le, Nat.zero_le _⟩)
  have pixel := shown 0 pack.width_pos
  rw [flush_framebuffer, Nat.zero_mul, Nat.zero_add, white] at pixel
  have clean : (displayFlushFb pack s).dirtyMin = pack.height ∧
      (displayFlushFb pack s).dirtyMax = 0 := by
    rw [displayFlushFb, if_neg dirty]
    exact ⟨rfl, rfl⟩
  exact ⟨clean.1, clean.2, pixel⟩

theorem flushedPixel_spec :
    flushedPixel.dirtyMin = pack.height ∧ flushedPixel.dirtyMax = 0 ∧
      flushedPixel.panel.gram (pack.rowOffset + 0) (pack.colOffset + 0) = rgb565 colorWhite := by
  rw [flushedPixel]
  apply flush_pixel <;> simp only [whitePixel_eq, Function.update_self]

/-- The panel has the white pixel, the framebuffer the black one. -/
theorem keptTurns_stale {s : State} (low : s.dirtyMin = pack.height) (high : s.dirtyMax = 0)
    (pixel : s.panel.gram (pack.rowOffset + 0) (pack.colOffset + 0) = rgb565 colorWhite) :
    (Run.exec (Race.step pack)
      (Race.start s [.store 0 colorBlack, .markRows [0]]) keptTurns).Finished ∧
    ¬ RowShown pack (Run.exec (Race.step pack)
      (Race.start s [.store 0 colorBlack, .markRows [0]]) keptTurns).mem 0 := by
  rw [(keptTurns_order low high).2]
  constructor
  · exact ⟨rfl, rfl, rfl⟩
  · intro now
    have drawn := now 0 pack.width_pos
    dsimp only at drawn
    rw [pixel, Nat.zero_mul, Nat.zero_add, Function.update_self] at drawn
    exact absurd drawn (by decide)

theorem dirty_marks_kept_pixel :
    ¬ RowShown pack (Run.exec (Race.step pack)
      (Race.start flushedPixel [.store 0 colorBlack, .markRows [0]]) keptTurns).mem 0 ∧
    (Run.exec (Race.step pack)
      (Race.start flushedPixel [.store 0 colorBlack, .markRows [0]]) keptTurns).mem.dirtyMin ≤ 0 ∧
    0 ≤ (Run.exec (Race.step pack)
      (Race.start flushedPixel [.store 0 colorBlack, .markRows [0]]) keptTurns).mem.dirtyMax := by
  obtain ⟨low, high, pixel⟩ := flushedPixel_spec
  obtain ⟨finished, stale⟩ := keptTurns_stale low high pixel
  exact ⟨stale, dirty_marks_kept pack offPanel [] [firstPixel colorWhite, .displayIoctl .flush]
    (fun _ _ => 0) (firstPixel colorBlack) flushedPixel_reached
    (firstPixel_drawing flushedPixel colorBlack) (keptTurns_order low high).1 finished 0
    pack.height_pos stale⟩

/-- A black pixel is drawn over the white one while this is flushed: after its row is sent, and
before the range is reset. -/
def lostTurns (g : Geometry) : List Turn :=
  List.replicate (2 + (3 + (g.width + 2 + 1))) .flush ++
    (List.replicate 4 .draw ++ List.replicate 2 .flush)

theorem lostTurns_run (g : Geometry) {s : State} (low : s.dirtyMin = 0) (high : s.dirtyMax = 0) :
    Run.exec (Race.step g) (Race.start s [.store 0 colorBlack, .markRows [0]]) (lostTurns g) =
      ⟨{ s with
          panel := nextRow g (opened g s.panel 0 0) (rowPixels g s.framebuffer 0)
          framebuffer := Function.update s.framebuffer 0 colorBlack
          dirtyMin := g.height
          dirtyMax := 0 }, .done, ⟨[], []⟩⟩ := by
  have sent := first_row_sent g (d := ⟨[], [.store 0 colorBlack, .markRows [0]]⟩) low high
  have lost := first_row_lost g (s := { s with
    panel := nextRow g (opened g s.panel 0 0) (rowPixels g s.framebuffer 0) })
    low high colorBlack
  rw [lostTurns, Run.exec_append]
  exact (congrArg (Run.exec (Race.step g) ·
    (List.replicate 4 .draw ++ List.replicate 2 .flush)) sent).trans lost

/-- The panel keeps the white pixel, and no row is dirty. -/
theorem dirty_mark_lost :
    ∃ (s : State) (as : List Access),
      (powerOn pack offPanel).calls pack
        ([] ++ .displayOpen (fun _ _ => 0) :: [firstPixel colorWhite]) = some s ∧
      drawing pack s (firstPixel colorBlack) = some as ∧
      (Run.exec (Race.step pack) (Race.start s as) (lostTurns pack)).Finished ∧
      ¬ RowShown pack (Run.exec (Race.step pack) (Race.start s as) (lostTurns pack)).mem 0 ∧
      ¬ ((Run.exec (Race.step pack) (Race.start s as) (lostTurns pack)).mem.dirtyMin ≤ 0 ∧
        0 ≤ (Run.exec (Race.step pack) (Race.start s as) (lostTurns pack)).mem.dirtyMax) := by
  have low : whitePixel.dirtyMin = 0 := by rw [whitePixel_eq]
  have high : whitePixel.dirtyMax = 0 := by rw [whitePixel_eq]
  have pixel : whitePixel.framebuffer 0 = colorWhite := by simp [whitePixel_eq]
  refine ⟨whitePixel, _, whitePixel_reached, firstPixel_drawing whitePixel colorBlack, ?_⟩
  rw [lostTurns_run pack low high]
  refine ⟨⟨rfl, rfl, rfl⟩, fun shown => ?_, by dsimp only [pack]; omega⟩
  have first := getElem?_rowPixels (g := pack) whitePixel.framebuffer 0 pack.width_pos
  rw [Nat.zero_mul, Nat.zero_add, pixel] at first
  have kept : (nextRow pack (opened pack whitePixel.panel 0 0)
      (rowPixels pack whitePixel.framebuffer 0)).gram (pack.rowOffset + 0) (pack.colOffset + 0) =
      rgb565 colorWhite := nextRow_here first
  have shows := shown 0 pack.width_pos
  rw [kept] at shows
  dsimp only at shows
  rw [Nat.zero_mul, Nat.zero_add, Function.update_self] at shows
  exact absurd shows (by decide)

end PicoOS.Display
