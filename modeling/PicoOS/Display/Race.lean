import Mathlib
import PicoOS.Lib.Run
import PicoOS.Display.Flush

/-!
# A flush while the other core draws

The accesses of `display_flush_fb` to the dirty range, the framebuffer and the
panel, one at a time, and between them those of a drawing call on the other
core: nothing excludes one from the other.
-/
namespace PicoOS.Display

open Panel

/-- Where the flush stands: the variable it is about to access. -/
inductive FlushPc
  | checkMin
  | checkMax (first : Nat)
  | rowStart
  | rowEnd (first : Nat)
  | loopStart
  | loopTest (y : Nat)
  /-- `row_buf` holds the first pixels of row `y`. -/
  | expand (y : Nat) (pixels : List UInt16)
  | resetMin
  | resetMax
  | done

/-- The accesses of `dirty_mark_row` and `dirty_mark_all`. -/
inductive MarkOp
  | ifMin (y : Nat)
  | setMin (y : Nat)
  | ifMax (y : Nat)
  | setMax (y : Nat)

/-- The drawing call: what is left of the mark under way, and of the call after it. -/
structure Drawer where
  ops : List MarkOp
  rest : List Access

structure Race where
  mem : State
  flusher : FlushPc
  drawer : Drawer

/-- Who takes the next step. -/
inductive Turn
  | flush
  | draw
  deriving DecidableEq, Repr

/-- An access of a mark; a test that succeeds has its assignment to do next. -/
def MarkOp.run (s : State) : MarkOp → State × List MarkOp
  | .ifMin y => (s, if y < s.dirtyMin then [.setMin y] else [])
  | .setMin y => ({ s with dirtyMin := y }, [])
  | .ifMax y => (s, if y > s.dirtyMax then [.setMax y] else [])
  | .setMax y => ({ s with dirtyMax := y }, [])

/-- The accesses a mark is made of. -/
def markOps (g : Geometry) : Access → Option (List MarkOp)
  | .markRows ys => some (ys.flatMap fun y => [.ifMin y, .ifMax y])
  | .markAll => some [.setMin 0, .setMax (g.height - 1)]
  | .store _ _ | .setCursor _ | .setBg _ => none

section Step

variable (g : Geometry)

/-- `display_flush_fb`, one access. -/
def flushStep (s : State) : FlushPc → State × FlushPc
  | .checkMin => (s, .checkMax s.dirtyMin)
  | .checkMax first => (s, if first > s.dirtyMax then .done else .rowStart)
  | .rowStart => ({ s with panel := sendColumns g s.panel }, .rowEnd s.dirtyMin)
  | .rowEnd first =>
    ({ s with panel := (sendRows g first s.dirtyMax s.panel).cmd ramwr }, .loopStart)
  | .loopStart => (s, .loopTest s.dirtyMin)
  | .loopTest y => (s, if y ≤ s.dirtyMax then .expand y [] else .resetMin)
  | .expand y pixels =>
    if pixels.length < g.width then
      (s, .expand y (pixels ++ [rgb565 (s.framebuffer (y * g.width + pixels.length))]))
    else ({ s with panel := s.panel.send (pixels.flatMap bytesOf) }, .loopTest (y + 1))
  | .resetMin => ({ s with dirtyMin := g.height }, .resetMax)
  | .resetMax => ({ s with dirtyMax := 0 }, .done)
  | .done => (s, .done)

/-- The drawing call, one access, or the call of a mark. -/
def drawStep (s : State) (d : Drawer) : State × Drawer :=
  match d.ops with
  | op :: ops => ((op.run s).1, { d with ops := (op.run s).2 ++ ops })
  | [] =>
    match d.rest with
    | [] => (s, d)
    | a :: rest =>
      match markOps g a with
      | some ops => (s, { ops := ops, rest := rest })
      | none => (s.access g a, { ops := [], rest := rest })

namespace Race

def step (r : Race) : Turn → Race
  | .flush =>
    let (mem, flusher) := flushStep g r.mem r.flusher
    { r with mem := mem, flusher := flusher }
  | .draw =>
    let (mem, drawer) := drawStep g r.mem r.drawer
    { r with mem := mem, drawer := drawer }

/-- Both calls have returned. -/
def Finished (r : Race) : Prop := r.flusher = .done ∧ r.drawer.ops = [] ∧ r.drawer.rest = []

/-- One core calls the flush, the other one makes the accesses of a drawing call. -/
def start (s : State) (as : List Access) : Race := ⟨s, .checkMin, ⟨[], as⟩⟩

end Race

end Step

/-- The accesses of a drawing call, through `display_write` or `display_ioctl`. -/
def drawing (g : Geometry) (s : State) : Call → Option (List Access)
  | .displayOpen _ => none
  | .displayWrite buf => some (displayWrite g s buf).1
  | .displayIoctl cmd =>
    match displayIoctl g s cmd with
    | some (.accesses as, _) => some as
    | _ => none

theorem drawing_marked {g : Geometry} {s : State} {c : Call} {as : List Access}
    (draws : drawing g s c = some as) : Marked g (fun _ => False) as := by
  cases c with
  | displayOpen gram => cases draws
  | displayWrite buf =>
    obtain rfl := Option.some.inj draws
    exact displayWrite_marked s buf
  | displayIoctl cmd =>
    obtain ⟨w, r, returned, marked⟩ := displayIoctl_marked g s cmd
    rw [drawing, returned] at draws
    cases w with
    | accesses bs =>
      obtain rfl := Option.some.inj draws
      exact marked
    | flush => cases draws
    | backlight level => cases draws

section Order

/-- The access will bring `dirty_min` down to `y`. -/
def MarkOp.Lowers (y : Nat) : MarkOp → Prop
  | .ifMin v | .setMin v => v ≤ y
  | .ifMax _ | .setMax _ => False

/-- The access will bring `dirty_max` up to `y`. -/
def MarkOp.Raises (y : Nat) : MarkOp → Prop
  | .ifMin _ | .setMin _ => False
  | .ifMax v | .setMax v => y ≤ v

/-- What is left of the mark covers row `y`, wherever the dirty range stands. -/
def ToMark (ops : List MarkOp) (y : Nat) : Prop :=
  (∃ op ∈ ops, op.Lowers y) ∧ ∃ op ∈ ops, op.Raises y

/-- Row `y` is in the dirty range, once the mark under way is done. -/
def Covered (s : State) (ops : List MarkOp) (y : Nat) : Prop :=
  (s.dirtyMin ≤ y ∨ ∃ op ∈ ops, op.Lowers y) ∧ (y ≤ s.dirtyMax ∨ ∃ op ∈ ops, op.Raises y)

variable (g : Geometry)

/-- The panel shows the pixel. -/
def PixelShown (s : State) (y x : Nat) : Prop :=
  s.panel.gram (g.rowOffset + y) (g.colOffset + x) = rgb565 (s.framebuffer (y * g.width + x))

/-- The flush has read its window and not yet reset the dirty range. -/
def FlushPc.Sending : FlushPc → Prop
  | .checkMin | .checkMax _ | .rowStart | .rowEnd _ | .done => False
  | .loopStart | .loopTest _ | .expand _ _ | .resetMin | .resetMax => True

/-- The panel will show what the pixel is now when the flush is over: the flush has still to read
it, or has read it as it is. -/
def Reaches (s : State) (y x : Nat) : FlushPc → Prop
  | .loopStart => (s.dirtyMin ≤ y ∧ y ≤ s.dirtyMax) ∨ PixelShown g s y x
  | .loopTest k => (k ≤ y ∧ y ≤ s.dirtyMax) ∨ PixelShown g s y x
  | .expand k pixels =>
    (k < y ∧ y ≤ s.dirtyMax) ∨
    (y = k ∧ ∀ v, pixels[x]? = some v → v = rgb565 (s.framebuffer (y * g.width + x))) ∨
    (y ≠ k ∧ PixelShown g s y x)
  | _ => PixelShown g s y x

/-- The bounds the flush has taken its window from and has still to read stay as they are. -/
def KeepsBounds (s t : State) : FlushPc → Prop
  | .rowEnd _ => t.dirtyMin = s.dirtyMin
  | .loopStart => t.dirtyMin = s.dirtyMin ∧ t.dirtyMax = s.dirtyMax
  | .loopTest _ | .expand _ _ => t.dirtyMax = s.dirtyMax
  | .checkMin | .checkMax _ | .rowStart | .resetMin | .resetMax | .done => True

/-- The order of steps in which no mark is lost. A step of a mark moves no bound the flush is
using, and takes place while rows are sent only for rows that will be shown as they are; the
window is not read between the steps of a mark of rows that are neither in it nor shown. -/
def InOrder (r : Race) : Turn → Prop
  | .draw =>
    match r.drawer.ops with
    | [] => True
    | op :: ops =>
      KeepsBounds r.mem (op.run r.mem).1 r.flusher ∧
      (r.flusher.Sending → ∀ y < g.height, ToMark (op :: ops) y →
        ¬ ToMark ((op.run r.mem).2 ++ ops) y → ∀ x < g.width, Reaches g r.mem y x r.flusher)
  | .flush =>
    match r.flusher with
    | .rowEnd _ => ∀ y < g.height, Covered r.mem r.drawer.ops y →
        (r.mem.dirtyMin ≤ y ∧ y ≤ r.mem.dirtyMax) ∨ ToMark r.drawer.ops y ∨ RowShown g r.mem y
    | _ => True

end Order

/-! ## The invariant -/

/-- The row an access of a mark is about. -/
def MarkOp.row : MarkOp → Nat
  | .ifMin y | .setMin y | .ifMax y | .setMax y => y

/-- What is left of a mark: only its first access may be an assignment, save for the second one of
`dirty_mark_all`, and an assignment widens the range. -/
structure OpsFit (g : Geometry) (s : State) (ops : List MarkOp) : Prop where
  valid : ∀ op ∈ ops, op.row < g.height
  low : ∀ v, ops.head? = some (.setMin v) → v ≤ s.dirtyMin
  high : ∀ v, ops.head? = some (.setMax v) → s.dirtyMax ≤ v
  tail : ∀ op ∈ ops.tail, (∀ v, op ≠ .setMin v) ∧ ∀ v, op = .setMax v → v = g.height - 1

/-- What the flush knows of the dirty range and the panel. -/
def FlushFits (g : Geometry) (s : State) : FlushPc → Prop
  | .checkMin | .resetMin | .resetMax | .done => True
  | .checkMax first => s.dirtyMin ≤ first
  | .rowStart => s.dirtyMin ≤ s.dirtyMax
  | .rowEnd first => first = s.dirtyMin ∧ s.dirtyMin ≤ s.dirtyMax ∧
      ∃ p, s.panel = sendColumns g p
  | .loopStart => s.dirtyMin ≤ s.dirtyMax ∧ Streaming g s.panel ∧
      s.panel.rows = ⟨g.rowOffset + s.dirtyMin, g.rowOffset + s.dirtyMax⟩ ∧
      s.panel.row = g.rowOffset + s.dirtyMin
  | .loopTest y => Streaming g s.panel ∧ s.panel.rows.last = g.rowOffset + s.dirtyMax ∧
      (y ≤ s.dirtyMax → s.panel.row = g.rowOffset + y)
  | .expand y pixels => Streaming g s.panel ∧ s.panel.rows.last = g.rowOffset + s.dirtyMax ∧
      y ≤ s.dirtyMax ∧ s.panel.row = g.rowOffset + y ∧ pixels.length ≤ g.width

/-- The pixel is shown, or will be by this flush, or its row by the next one. -/
def Fine (g : Geometry) (r : Race) (y x : Nat) : Prop :=
  (r.flusher.Sending ∧ (Reaches g r.mem y x r.flusher ∨ ToMark r.drawer.ops y)) ∨
  (¬ r.flusher.Sending ∧ (PixelShown g r.mem y x ∨ Covered r.mem r.drawer.ops y))

structure Kept (g : Geometry) (r : Race) : Prop where
  inside : r.mem.dirtyMax < g.height
  ops : OpsFit g r.mem r.drawer.ops
  flush : FlushFits g r.mem r.flusher
  pixels : ∃ pending, Marked g pending r.drawer.rest ∧
    ∀ y < g.height, ∀ x < g.width, Fine g r y x ∨ pending y

section Draw

variable {g : Geometry} {s : State} {op : MarkOp} {ops : List MarkOp}

/-- An access of a mark only widens the dirty range, and what it was to cover is covered, or will
be by the assignment that follows. -/
theorem run_widens (fit : OpsFit g s (op :: ops)) :
    (op.run s).1.dirtyMin ≤ s.dirtyMin ∧ s.dirtyMax ≤ (op.run s).1.dirtyMax ∧
    (∀ y, op.Lowers y → (op.run s).1.dirtyMin ≤ y ∨ ∃ more ∈ (op.run s).2, more.Lowers y) ∧
    ∀ y, op.Raises y → y ≤ (op.run s).1.dirtyMax ∨ ∃ more ∈ (op.run s).2, more.Raises y := by
  cases op with
  | ifMin v =>
    refine ⟨le_refl _, le_refl _, fun y lowers => ?_, fun y raises => raises.elim⟩
    by_cases below : v < s.dirtyMin
    · exact .inr ⟨.setMin v, by simp [MarkOp.run, below], lowers⟩
    · exact .inl (by dsimp only [MarkOp.run]; have : v ≤ y := lowers; omega)
  | setMin v =>
    exact ⟨fit.low v rfl, le_refl _, fun y lowers => .inl lowers, fun y raises => raises.elim⟩
  | ifMax v =>
    refine ⟨le_refl _, le_refl _, fun y lowers => lowers.elim, fun y raises => ?_⟩
    by_cases above : v > s.dirtyMax
    · exact .inr ⟨.setMax v, by simp [MarkOp.run, above], raises⟩
    · exact .inl (by dsimp only [MarkOp.run]; have : y ≤ v := raises; omega)
  | setMax v =>
    exact ⟨le_refl _, fit.high v rfl, fun y lowers => lowers.elim, fun y raises => .inl raises⟩

@[simp] theorem run_panel : (op.run s).1.panel = s.panel := by cases op <;> rfl

@[simp] theorem run_framebuffer : (op.run s).1.framebuffer = s.framebuffer := by cases op <;> rfl

theorem run_inside (fit : OpsFit g s (op :: ops)) (inside : s.dirtyMax < g.height) :
    (op.run s).1.dirtyMax < g.height := by
  cases op with
  | setMax v => exact fit.valid _ List.mem_cons_self
  | ifMin v => exact inside
  | setMin v => exact inside
  | ifMax v => exact inside

theorem run_fits (fit : OpsFit g s (op :: ops)) (inside : s.dirtyMax < g.height) :
    OpsFit g (op.run s).1 ((op.run s).2 ++ ops) := by
  have tail := fit.tail
  rw [List.tail_cons] at tail
  have now := run_inside fit inside
  -- without a new assignment the next access is one that was in the tail
  have later : OpsFit g (op.run s).1 ops := by
    refine ⟨fun o member => fit.valid o (List.mem_cons_of_mem op member), ?_, ?_, ?_⟩
    · intro v first
      exact absurd rfl ((tail _ (List.mem_of_mem_head? first)).1 v)
    · intro v first
      have := (tail _ (List.mem_of_mem_head? first)).2 v rfl
      omega
    · exact fun o member => tail o (List.mem_of_mem_tail member)
  cases op with
  | setMin v => exact later
  | setMax v => exact later
  | ifMin v =>
    by_cases below : v < s.dirtyMin
    · have valid := fit.valid (.ifMin v) List.mem_cons_self
      simp only [MarkOp.run, below, if_true, List.singleton_append]
      refine ⟨?_, ?_, ?_, tail⟩
      · rintro o (_ | member)
        · exact valid
        · exact later.valid o (by assumption)
      · rintro w ⟨⟩
        exact below.le
      · rintro w ⟨⟩
    · simpa only [MarkOp.run, below, if_false, List.nil_append] using later
  | ifMax v =>
    by_cases above : v > s.dirtyMax
    · have valid := fit.valid (.ifMax v) List.mem_cons_self
      simp only [MarkOp.run, above, if_true, List.singleton_append]
      refine ⟨?_, ?_, ?_, tail⟩
      · rintro o (_ | member)
        · exact valid
        · exact later.valid o (by assumption)
      · rintro w ⟨⟩
      · rintro w ⟨⟩
        exact above.le
    · simpa only [MarkOp.run, above, if_false, List.nil_append] using later

/-- An access of a mark leaves a row that was to be covered so. -/
theorem run_covered (fit : OpsFit g s (op :: ops)) {y : Nat} (h : Covered s (op :: ops) y) :
    Covered (op.run s).1 ((op.run s).2 ++ ops) y := by
  obtain ⟨below, above, lowers, raises⟩ := run_widens fit
  constructor
  · rcases h.1 with low | ⟨o, member, low⟩
    · exact .inl (below.trans low)
    · rcases List.mem_cons.mp member with rfl | member
      · rcases lowers y low with now | ⟨more, next, low⟩
        · exact .inl now
        · exact .inr ⟨more, List.mem_append_left _ next, low⟩
      · exact .inr ⟨o, List.mem_append_right _ member, low⟩
  · rcases h.2 with high | ⟨o, member, high⟩
    · exact .inl (high.trans above)
    · rcases List.mem_cons.mp member with rfl | member
      · rcases raises y high with now | ⟨more, next, high⟩
        · exact .inl now
        · exact .inr ⟨more, List.mem_append_left _ next, high⟩
      · exact .inr ⟨o, List.mem_append_right _ member, high⟩

end Draw

section DrawStep

variable {g : Geometry} {s t : State} {pc : FlushPc}

theorem FlushFits.widened (h : FlushFits g s pc) (panel : t.panel = s.panel)
    (low : t.dirtyMin ≤ s.dirtyMin) (high : s.dirtyMax ≤ t.dirtyMax)
    (keeps : KeepsBounds s t pc) : FlushFits g t pc := by
  cases pc with
  | checkMin => trivial
  | checkMax first => exact low.trans h
  | rowStart => exact low.trans (le_trans h high)
  | rowEnd first =>
    obtain ⟨read, ordered, q, columns⟩ := h
    exact ⟨read.trans keeps.symm, low.trans (ordered.trans high), q, panel.trans columns⟩
  | loopStart =>
    obtain ⟨ordered, streaming, rows, row⟩ := h
    obtain ⟨same_min, same_max⟩ := keeps
    rw [FlushFits, panel, same_min, same_max]
    exact ⟨ordered, streaming, rows, row⟩
  | loopTest y =>
    have same_max : t.dirtyMax = s.dirtyMax := keeps
    rw [FlushFits, panel, same_max]
    exact h
  | expand y pixels =>
    have same_max : t.dirtyMax = s.dirtyMax := keeps
    rw [FlushFits, panel, same_max]
    exact h
  | resetMin => trivial
  | resetMax => trivial
  | done => trivial

theorem pixelShown_congr {y x : Nat} (panel : t.panel = s.panel)
    (pixel : t.framebuffer (y * g.width + x) = s.framebuffer (y * g.width + x))
    (shown : PixelShown g s y x) : PixelShown g t y x := by
  rw [PixelShown, panel, pixel]
  exact shown

/-- Wider bounds and a pixel that stays as it is: it still reaches the panel. -/
theorem Reaches.widened {y x : Nat} (h : Reaches g s y x pc) (panel : t.panel = s.panel)
    (pixel : t.framebuffer (y * g.width + x) = s.framebuffer (y * g.width + x))
    (low : t.dirtyMin ≤ s.dirtyMin) (high : s.dirtyMax ≤ t.dirtyMax) : Reaches g t y x pc := by
  cases pc with
  | loopStart =>
    rcases h with ⟨first, last⟩ | shown
    · exact .inl ⟨low.trans first, last.trans high⟩
    · exact .inr (pixelShown_congr panel pixel shown)
  | loopTest k =>
    rcases h with ⟨first, last⟩ | shown
    · exact .inl ⟨first, last.trans high⟩
    · exact .inr (pixelShown_congr panel pixel shown)
  | expand k pixels =>
    rcases h with ⟨first, last⟩ | ⟨here, read⟩ | ⟨other, shown⟩
    · exact .inl ⟨first, last.trans high⟩
    · refine .inr (.inl ⟨here, fun v member => ?_⟩)
      rw [pixel]
      exact read v member
    · exact .inr (.inr ⟨other, pixelShown_congr panel pixel shown⟩)
  | checkMin => exact pixelShown_congr panel pixel h
  | checkMax first => exact pixelShown_congr panel pixel h
  | rowStart => exact pixelShown_congr panel pixel h
  | rowEnd first => exact pixelShown_congr panel pixel h
  | resetMin => exact pixelShown_congr panel pixel h
  | resetMax => exact pixelShown_congr panel pixel h
  | done => exact pixelShown_congr panel pixel h

/-- A step of a mark, in order. -/
theorem Kept.mark {r : Race} (h : Kept g r) {op : MarkOp} {ops : List MarkOp}
    (under_way : r.drawer.ops = op :: ops)
    (keeps : KeepsBounds r.mem (op.run r.mem).1 r.flusher)
    (reaches : r.flusher.Sending → ∀ y < g.height, ToMark (op :: ops) y →
      ¬ ToMark ((op.run r.mem).2 ++ ops) y → ∀ x < g.width, Reaches g r.mem y x r.flusher) :
    Kept g { r with
      mem := (op.run r.mem).1
      drawer := { r.drawer with ops := (op.run r.mem).2 ++ ops } } := by
  have fit := h.ops
  rw [under_way] at fit
  obtain ⟨low, high, -, -⟩ := run_widens fit
  obtain ⟨pending, marked, fine⟩ := h.pixels
  refine ⟨run_inside fit h.inside, run_fits fit h.inside,
    h.flush.widened run_panel low high keeps, pending, marked, ?_⟩
  intro y row x column
  rcases fine y row x column with (⟨sending, ok⟩ | ⟨idle, ok⟩) | later
  · have before : Reaches g r.mem y x r.flusher ∨ ToMark ((op.run r.mem).2 ++ ops) y := by
      rcases ok with now | to_mark
      · exact .inl now
      · rw [under_way] at to_mark
        by_cases still : ToMark ((op.run r.mem).2 ++ ops) y
        · exact .inr still
        · exact .inl (reaches sending y row to_mark still x column)
    refine .inl (.inl ⟨sending, before.imp_left fun now => ?_⟩)
    exact now.widened run_panel (by rw [run_framebuffer]) low high
  · refine .inl (.inr ⟨idle, ?_⟩)
    rcases ok with shown | covered
    · exact .inl (pixelShown_congr run_panel (by rw [run_framebuffer]) shown)
    · rw [under_way] at covered
      exact .inr (run_covered fit covered)
  · exact .inr later

/-- The call of a mark: what is pending becomes what the mark is to cover. -/
theorem markOps_covers {a : Access} {ops : List MarkOp} (mark : markOps g a = some ops)
    {pending : Nat → Prop} {rest : List Access} (marked : Marked g pending (a :: rest)) :
    (∀ y < g.height, pending y → ToMark ops y) ∧ OpsFit g s ops ∧
      Marked g (fun _ => False) rest := by
  cases a with
  | store i color => cases mark
  | setCursor n => cases mark
  | setBg color => cases mark
  | markAll =>
    obtain rfl := Option.some.inj mark
    have pos := g.height_pos
    refine ⟨fun y row _ => ⟨⟨_, List.mem_cons_self, Nat.zero_le y⟩, .setMax (g.height - 1), by simp, ?_⟩,
      ⟨?_, ?_, ?_, ?_⟩, marked⟩
    · exact Nat.le_sub_one_of_lt row
    · intro op member
      simp only [List.mem_cons, List.not_mem_nil, or_false] at member
      rcases member with rfl | rfl
      · exact pos
      · exact Nat.sub_lt pos Nat.one_pos
    · rintro v ⟨⟩
      exact Nat.zero_le _
    · rintro v ⟨⟩
    · intro op member
      obtain rfl := List.mem_singleton.mp member
      refine ⟨by rintro v ⟨⟩, ?_⟩
      rintro v ⟨⟩
      rfl
  | markRows ys =>
    obtain rfl := Option.some.inj mark
    obtain ⟨valid, covered, rest_marked⟩ := marked
    have tests : ∀ op ∈ ys.flatMap (fun y => [MarkOp.ifMin y, MarkOp.ifMax y]),
        op.row < g.height ∧ (∀ v, op ≠ .setMin v) ∧ ∀ v, op ≠ .setMax v := by
      intro op member
      obtain ⟨y, of_ys, here⟩ := List.mem_flatMap.mp member
      simp only [List.mem_cons, List.not_mem_nil, or_false] at here
      rcases here with rfl | rfl
      · exact ⟨valid y of_ys, by rintro v ⟨⟩, by rintro v ⟨⟩⟩
      · exact ⟨valid y of_ys, by rintro v ⟨⟩, by rintro v ⟨⟩⟩
    refine ⟨?_, ⟨fun op member => (tests op member).1, ?_, ?_, ?_⟩, rest_marked⟩
    · intro y _ still
      obtain ⟨⟨a, of_ys, low⟩, b, of_ys', high⟩ := covered y still
      exact ⟨⟨.ifMin a, List.mem_flatMap.mpr ⟨a, of_ys, by simp⟩, low⟩,
        .ifMax b, List.mem_flatMap.mpr ⟨b, of_ys', by simp⟩, high⟩
    · intro v first
      exact absurd rfl ((tests _ (List.mem_of_mem_head? first)).2.1 v)
    · intro v first
      exact absurd rfl ((tests _ (List.mem_of_mem_head? first)).2.2 v)
    · intro op member
      have test := tests op (List.mem_of_mem_tail member)
      exact ⟨test.2.1, fun v same => absurd same (test.2.2 v)⟩

/-- The call of a mark covers what has been stored to. -/
theorem Kept.call {r : Race} (h : Kept g r) {a : Access} {ops : List MarkOp} {rest : List Access}
    (mark : markOps g a = some ops) (idle : r.drawer.ops = []) (next : r.drawer.rest = a :: rest) :
    Kept g { r with drawer := { ops := ops, rest := rest } } := by
  obtain ⟨pending, marked, fine⟩ := h.pixels
  rw [next] at marked
  obtain ⟨covers, fit, rest_marked⟩ := markOps_covers (s := r.mem) mark marked
  refine ⟨h.inside, fit, h.flush, _, rest_marked, fun y row x column => .inl ?_⟩
  rcases fine y row x column with (⟨sending, reaches | to_mark⟩ | ⟨ended, shown | covered⟩) | later
  · exact .inl ⟨sending, .inl reaches⟩
  · -- no mark was under way
    rw [idle] at to_mark
    obtain ⟨⟨op, none, _⟩, _⟩ := to_mark
    cases none
  · exact .inr ⟨ended, .inl shown⟩
  · rw [idle] at covered
    obtain ⟨low | ⟨op, none, _⟩, high | ⟨op', none', _⟩⟩ := covered
    · exact .inr ⟨ended, .inr ⟨.inl low, .inl high⟩⟩
    · cases none'
    · cases none
    · cases none
  · have to_mark := covers y row later
    by_cases sending : r.flusher.Sending
    · exact .inl ⟨sending, .inr to_mark⟩
    · exact .inr ⟨sending, .inr ⟨.inr to_mark.1, .inr to_mark.2⟩⟩

/-- A pixel that is not stored to stays fine. -/
theorem Fine.unstored {r : Race} {y x : Nat} (h : Fine g r y x) {t : State} {rest : List Access}
    (panel : t.panel = r.mem.panel) (low : t.dirtyMin = r.mem.dirtyMin)
    (high : t.dirtyMax = r.mem.dirtyMax)
    (pixel : t.framebuffer (y * g.width + x) = r.mem.framebuffer (y * g.width + x)) :
    Fine g { r with mem := t, drawer := ⟨r.drawer.ops, rest⟩ } y x := by
  rcases h with ⟨sending, ok⟩ | ⟨ended, ok⟩
  · exact .inl ⟨sending, ok.imp_left fun now => now.widened panel pixel low.le high.ge⟩
  · refine .inr ⟨ended, ok.imp (pixelShown_congr panel pixel) fun covered => ?_⟩
    rw [Covered, low, high]
    exact covered

theorem KeepsBounds.of_eq (low : t.dirtyMin = s.dirtyMin) (high : t.dirtyMax = s.dirtyMax) :
    KeepsBounds s t pc := by
  cases pc with
  | rowEnd first => exact low
  | loopStart => exact ⟨low, high⟩
  | loopTest y => exact high
  | expand y pixels => exact high
  | checkMin => trivial
  | checkMax first => trivial
  | rowStart => trivial
  | resetMin => trivial
  | resetMax => trivial
  | done => trivial

/-- A step that leaves the panel and the dirty range alone, and stores only to rows that are then
pending. -/
theorem Kept.stored {r : Race} (h : Kept g r) {t : State} {rest : List Access}
    {pending : Nat → Prop} (panel : t.panel = r.mem.panel) (low : t.dirtyMin = r.mem.dirtyMin)
    (high : t.dirtyMax = r.mem.dirtyMax) (marked : Marked g pending rest)
    (pixels : ∀ y < g.height, ∀ x < g.width, pending y ∨ (Fine g r y x ∧
      t.framebuffer (y * g.width + x) = r.mem.framebuffer (y * g.width + x))) :
    Kept g { r with mem := t, drawer := ⟨r.drawer.ops, rest⟩ } := by
  refine ⟨high.trans_lt h.inside, ⟨h.ops.valid, ?_, ?_, h.ops.tail⟩,
    h.flush.widened panel low.le high.ge (.of_eq low high), pending, marked, ?_⟩
  · intro v first
    exact (h.ops.low v first).trans low.ge
  · intro v first
    exact high.le.trans (h.ops.high v first)
  · intro y row x column
    rcases pixels y row x column with later | ⟨fine, same⟩
    · exact .inr later
    · exact .inl (fine.unstored panel low high same)

/-- An access that is no mark. -/
theorem Kept.access {r : Race} (h : Kept g r) {a : Access} {rest : List Access}
    (plain : markOps g a = none) (next : r.drawer.rest = a :: rest) :
    Kept g { r with mem := r.mem.access g a, drawer := ⟨r.drawer.ops, rest⟩ } := by
  obtain ⟨pending, marked, fine⟩ := h.pixels
  rw [next] at marked
  cases a with
  | markRows ys => cases plain
  | markAll => cases plain
  | setCursor n =>
    exact h.stored rfl rfl rfl marked fun y row x column =>
      (fine y row x column).symm.imp_right fun ok => ⟨ok, rfl⟩
  | setBg color =>
    exact h.stored rfl rfl rfl marked fun y row x column =>
      (fine y row x column).symm.imp_right fun ok => ⟨ok, rfl⟩
  | store i color =>
    refine h.stored rfl rfl rfl marked.2 fun y row x column => ?_
    by_cases here : y = i / g.width
    · exact .inl (.inr here)
    · have elsewhere : y * g.width + x ≠ i := by
        rintro rfl
        apply here
        rw [Nat.mul_comm, Nat.mul_add_div g.width_pos, Nat.div_eq_of_lt column, Nat.add_zero]
      rcases fine y row x column with ok | later
      · exact .inr ⟨ok, Function.update_of_ne elsewhere _ _⟩
      · exact .inl (.inl later)

/-- A step of the drawing call, in order. -/
theorem Kept.draw {r : Race} (h : Kept g r) (order : InOrder g r .draw) :
    Kept g (r.step g .draw) := by
  unfold Race.step drawStep
  unfold InOrder at order
  dsimp only at order ⊢
  cases under_way : r.drawer.ops with
  | cons op ops =>
    rw [under_way] at order
    exact h.mark under_way order.1 order.2
  | nil =>
    cases next : r.drawer.rest with
    | nil => exact h
    | cons a rest =>
      dsimp only
      cases mark : markOps g a with
      | some ops => exact h.call mark under_way next
      | none =>
        have kept := h.access mark next
        rw [under_way] at kept
        exact kept

end DrawStep

section FlushStep

variable {g : Geometry}

/-- A step of the flush leaves the drawing call where it stands. -/
theorem Kept.of_flush {r : Race} (h : Kept g r) {t : State} {pc : FlushPc}
    (inside : t.dirtyMax < g.height) (low : r.mem.dirtyMin ≤ t.dirtyMin ∨ t.dirtyMin = g.height)
    (high : t.dirtyMax ≤ r.mem.dirtyMax) (flush : FlushFits g t pc)
    (pixels : ∀ y < g.height, ∀ x < g.width, Fine g r y x →
      Fine g { r with mem := t, flusher := pc } y x) :
    Kept g { r with mem := t, flusher := pc } := by
  obtain ⟨pending, marked, fine⟩ := h.pixels
  refine ⟨inside, ⟨h.ops.valid, ?_, ?_, h.ops.tail⟩, flush, pending, marked,
    fun y row x column => (fine y row x column).imp_left (pixels y row x column)⟩
  · intro v first
    have below := h.ops.low v first
    have valid : v < g.height := h.ops.valid _ (List.mem_of_mem_head? first)
    show v ≤ t.dirtyMin
    omega
  · intro v first
    exact high.trans (h.ops.high v first)

theorem ToMark.covered {s : State} {ops : List MarkOp} {y : Nat} (h : ToMark ops y) :
    Covered s ops y := ⟨.inr h.1, .inr h.2⟩

/-- Before it reads its window the flush changes nothing. -/
theorem Fine.before {r : Race} {y x : Nat} (h : Fine g r y x) (idle : ¬ r.flusher.Sending)
    {t : State} {pc : FlushPc} (still : ¬ pc.Sending) (gram : t.panel.gram = r.mem.panel.gram)
    (pixel : t.framebuffer = r.mem.framebuffer) (low : t.dirtyMin = r.mem.dirtyMin)
    (high : t.dirtyMax = r.mem.dirtyMax) : Fine g { r with mem := t, flusher := pc } y x := by
  rcases h with ⟨sending, _⟩ | ⟨_, ok⟩
  · exact absurd sending idle
  · refine .inr ⟨still, ok.imp (fun shown => ?_) fun covered => ?_⟩
    · rw [PixelShown, gram, pixel]
      exact shown
    · rw [Covered, low, high]
      exact covered

/-- While the flush sends, it is enough to follow the pixels that reach the panel. -/
theorem Fine.sending {r : Race} {y x : Nat} (h : Fine g r y x) (sending : r.flusher.Sending)
    {t : State} {pc : FlushPc} (still : pc.Sending)
    (reaches : Reaches g r.mem y x r.flusher → Reaches g t y x pc) :
    Fine g { r with mem := t, flusher := pc } y x := by
  rcases h with ⟨_, ok⟩ | ⟨ended, _⟩
  · exact .inl ⟨still, ok.imp_left reaches⟩
  · exact absurd sending ended

/-- The test of the row loop. -/
theorem reaches_test {s : State} {k y x : Nat} (h : Reaches g s y x (.loopTest k)) :
    Reaches g s y x (if k ≤ s.dirtyMax then .expand k [] else .resetMin) := by
  split
  · by_cases here : y = k
    · exact .inr (.inl ⟨here, fun v none => by simp at none⟩)
    · rcases h with ⟨first, last⟩ | shown
      · exact .inl ⟨by omega, last⟩
      · exact .inr (.inr ⟨here, shown⟩)
  · exact h.resolve_left fun rows => by omega

/-- A pixel goes into `row_buf`. -/
theorem reaches_expand {s : State} {k y x : Nat} {pixels : List UInt16}
    (h : Reaches g s y x (.expand k pixels)) :
    Reaches g s y x (.expand k
      (pixels ++ [rgb565 (s.framebuffer (k * g.width + pixels.length))])) := by
  rcases h with later | ⟨rfl, read⟩ | shown
  · exact .inl later
  · refine .inr (.inl ⟨rfl, fun v member => ?_⟩)
    by_cases old : x < pixels.length
    · rw [List.getElem?_append_left old] at member
      exact read v member
    · rw [List.getElem?_append_right (by omega), List.getElem?_singleton] at member
      split at member
      · have here : x = pixels.length := by omega
        rw [here]
        exact (Option.some.inj member).symm
      · cases member
  · exact .inr (.inr shown)

/-- `row_buf` is sent. -/
theorem reaches_sent {s : State} {k y x : Nat} {pixels : List UInt16} (column : x < g.width)
    (full : pixels.length = g.width) (row : s.panel.row = g.rowOffset + k)
    (h : Reaches g s y x (.expand k pixels)) :
    Reaches g { s with panel := nextRow g s.panel pixels } y x (.loopTest (k + 1)) := by
  rcases h with ⟨after, last⟩ | ⟨rfl, read⟩ | ⟨other, shown⟩
  · exact .inl ⟨after, last⟩
  · have pixel := List.getElem?_eq_getElem (show x < pixels.length by omega)
    refine .inr ?_
    rw [PixelShown, ← row, nextRow_here pixel]
    exact read _ pixel
  · refine .inr ?_
    rw [PixelShown, nextRow_other (by omega)]
    exact shown

/-- A step of the flush, in order. -/
theorem Kept.flush_step {r : Race} (h : Kept g r) (order : InOrder g r .flush) :
    Kept g (r.step g .flush) := by
  obtain ⟨mem, flusher, drawer⟩ := r
  have fits := h.flush
  have inside := h.inside
  unfold Race.step
  unfold InOrder at order
  dsimp only at order fits inside ⊢
  cases flusher with
  | checkMin =>
    exact h.of_flush inside (.inl (le_refl _)) (le_refl _) (le_refl mem.dirtyMin)
      fun y _ x _ fine => fine.before id id rfl rfl rfl rfl
  | checkMax first =>
    by_cases empty : first > mem.dirtyMax
    · simp only [flushStep, empty, if_true]
      exact h.of_flush inside (.inl (le_refl _)) (le_refl _) trivial
        fun y _ x _ fine => fine.before id id rfl rfl rfl rfl
    · simp only [flushStep, empty, if_false]
      have ordered : mem.dirtyMin ≤ mem.dirtyMax := le_trans fits (by omega)
      exact h.of_flush inside (.inl (le_refl _)) (le_refl _) ordered
        fun y _ x _ fine => fine.before id id rfl rfl rfl rfl
  | rowStart =>
    have same : (sendColumns g mem.panel).gram = mem.panel.gram := by rw [sendColumns_eq]
    exact h.of_flush inside (.inl (le_refl _)) (le_refl _) ⟨rfl, fits, _, rfl⟩
      fun y _ x _ fine => fine.before id id same rfl rfl rfl
  | rowEnd first =>
    obtain ⟨rfl, ordered, p, columns⟩ := fits
    have window : (sendRows g mem.dirtyMin mem.dirtyMax mem.panel).cmd ramwr =
        opened g p mem.dirtyMin mem.dirtyMax := by
      rw [columns]
      exact window_eq g p ordered inside
    have gram : mem.panel.gram = p.gram := by rw [columns, sendColumns_eq]
    simp only [flushStep, window]
    refine h.of_flush inside (.inl (le_refl _)) (le_refl _)
      ⟨ordered, opened_streaming g p _ _, rfl, rfl⟩ fun y row x column fine => ?_
    have shown_still : PixelShown g mem y x →
        PixelShown g { mem with panel := opened g p mem.dirtyMin mem.dirtyMax } y x := by
      intro shown
      rw [PixelShown, gram] at shown
      exact shown
    rcases fine with ⟨sending, _⟩ | ⟨_, shown | covered⟩
    · exact sending.elim
    · exact .inl ⟨trivial, .inl (.inr (shown_still shown))⟩
    · rcases order y row covered with dirty | to_mark | shown
      · exact .inl ⟨trivial, .inl (.inl dirty)⟩
      · exact .inl ⟨trivial, .inr to_mark⟩
      · exact .inl ⟨trivial, .inl (.inr (shown_still (shown x column)))⟩
  | loopStart =>
    obtain ⟨ordered, streaming, rows, row⟩ := fits
    have last : mem.panel.rows.last = g.rowOffset + mem.dirtyMax := by rw [rows]
    exact h.of_flush inside (.inl (le_refl _)) (le_refl _) ⟨streaming, last, fun _ => row⟩
      fun y _ x _ fine => fine.sending trivial trivial id
  | loopTest k =>
    obtain ⟨streaming, last, row⟩ := fits
    have fits_next : FlushFits g mem (if k ≤ mem.dirtyMax then .expand k [] else .resetMin) := by
      split
      · next more => exact ⟨streaming, last, more, row more, Nat.zero_le _⟩
      · trivial
    have still : (if k ≤ mem.dirtyMax then FlushPc.expand k [] else .resetMin).Sending := by
      split
      · trivial
      · trivial
    exact h.of_flush inside (.inl (le_refl _)) (le_refl _) fits_next
      fun y _ x _ fine => fine.sending trivial still reaches_test
  | expand k pixels =>
    obtain ⟨streaming, last, more, row, short⟩ := fits
    by_cases rest : pixels.length < g.width
    · simp only [flushStep, rest, if_true]
      refine h.of_flush inside (.inl (le_refl _)) (le_refl _)
        ⟨streaming, last, more, row, ?_⟩ fun y _ x _ fine => fine.sending trivial trivial reaches_expand
      rw [List.length_append, List.length_singleton]
      exact rest
    · have full : pixels.length = g.width := by omega
      simp only [flushStep, rest, if_false, streaming.send_row full]
      have next_row : k + 1 ≤ mem.dirtyMax →
          (nextRow g mem.panel pixels).row = g.rowOffset + (k + 1) := by
        intro further
        rw [nextRow_row (by omega)]
        omega
      exact h.of_flush inside (.inl (le_refl _)) (le_refl _)
        ⟨streaming.next pixels, last, next_row⟩
        fun y _ x column fine => fine.sending trivial trivial (reaches_sent column full row)
  | resetMin =>
    exact h.of_flush inside (.inr rfl) (le_refl _) trivial
      fun y _ x _ fine => fine.sending trivial trivial id
  | resetMax =>
    refine h.of_flush g.height_pos (.inl (le_refl _)) (Nat.zero_le _) trivial
      fun y _ x _ fine => ?_
    rcases fine with ⟨_, shown | to_mark⟩ | ⟨ended, _⟩
    · exact .inr ⟨id, .inl shown⟩
    · exact .inr ⟨id, .inr to_mark.covered⟩
    · exact absurd trivial ended
  | done => exact h

end FlushStep

/-- What is kept when a flush and a drawing call begin. -/
theorem kept_start {g : Geometry} {s : State} {as : List Access}
    (mirrors : Mirrors g (fun _ => False) s) (marked : Marked g (fun _ => False) as) :
    Kept g (Race.start s as) := by
  refine ⟨mirrors.inside, ⟨?_, ?_, ?_, ?_⟩, trivial, _, marked, fun y row x column => .inl ?_⟩
  · rintro op ⟨⟩
  · rintro v ⟨⟩
  · rintro v ⟨⟩
  · rintro op ⟨⟩
  · refine .inr ⟨id, ?_⟩
    by_cases dirty : s.dirtyMin ≤ y ∧ y ≤ s.dirtyMax
    · exact .inr ⟨.inl dirty.1, .inl dirty.2⟩
    · exact .inl (mirrors.shown y row id dirty x column)

theorem Kept.run {g : Geometry} {r : Race} (h : Kept g r) {turns : List Turn}
    (order : Run.Along (Race.step g) (InOrder g) r turns) :
    Kept g (Run.exec (Race.step g) r turns) := by
  induction turns generalizing r with
  | nil => exact h
  | cons t turns ih =>
    apply ih _ order.2
    cases t with
    | flush => exact h.flush_step order.1
    | draw => exact h.draw order.1

/-- When both calls have returned, a row that the panel does not show is in the dirty range. -/
theorem Kept.finished {g : Geometry} {r : Race} (h : Kept g r) (finished : r.Finished) {y : Nat}
    (row : y < g.height) (stale : ¬ RowShown g r.mem y) :
    r.mem.dirtyMin ≤ y ∧ y ≤ r.mem.dirtyMax := by
  obtain ⟨pending, marked, fine⟩ := h.pixels
  obtain ⟨flushed, no_ops, no_rest⟩ := finished
  rw [no_rest] at marked
  simp only [RowShown, not_forall] at stale
  obtain ⟨x, column, hidden⟩ := stale
  rcases fine y row x column with (⟨sending, _⟩ | ⟨_, shown | covered⟩) | later
  · rw [flushed] at sending
    exact sending.elim
  · exact absurd shown hidden
  · rw [no_ops] at covered
    obtain ⟨low | ⟨op, none, _⟩, high | ⟨op', none', _⟩⟩ := covered
    · exact ⟨low, high⟩
    · cases none'
    · cases none
    · cases none
  · exact absurd later (marked y)

end PicoOS.Display
