import Mathlib
import PicoOS.Lib.CString
import PicoOS.Lib.Runs

/-!
# Reading a text line by line

The loop that a reader of a text goes through: it looks for the end of a line,
treats the line, and skips to the next one. What it computes is said over the
lines of the text, the runs between line ends.
-/
namespace Lines

open CString Runs

/-- A line feed or a carriage return. -/
def isEol (c : UInt8) : Bool := c == 0x0A || c == 0x0D

variable {σ : Type}

/-- The loop with its body, which gets where a line starts and how long it is, and says whether the
loop is left; `none` leaves the text or does not end. -/
def eachLine (buf : List UInt8) (body : Nat → Nat → σ → Option (σ × Bool)) :
    Nat → Nat → σ → Option σ
  | 0, _, _ => none
  | fuel + 1, p, s => do
    let c ← buf[p]?
    if c = 0 then return s
    let eol ← scan buf (fun c => c != 0 && !isEol c) p
    let (s, stop) ← body p (eol - p) s
    if stop then return s
    let p ← scan buf isEol eol
    eachLine buf body fuel p s

/-- What the loop does with the lines. -/
def stepLines (step : List UInt8 → σ → σ × Bool) : List (List UInt8) → σ → σ
  | [], s => s
  | line :: lines, s =>
    if (step line s).2 then (step line s).1 else stepLines step lines (step line s).1

/-- A line of a text of at most `n` bytes, with its place: a line end or the NUL stands behind it. -/
structure Stands (buf : List UInt8) (n : Nat) (pre line : List UInt8) : Prop where
  short : line.length ≤ n
  nul : 0 ∉ line
  inside : ∀ c ∈ line, isEol c = false
  ends : ∃ c post, buf = pre ++ line ++ c :: post ∧ (c = 0 ∨ isEol c = true)

/-! ### A line and the line ends behind it -/

/-- A text begins with a line, which may be empty, and with all line ends that follow it. -/
theorem cut_line (m : List UInt8) :
    ∃ w e t, m = w ++ (e ++ t) ∧ (∀ c ∈ w, isEol c = false) ∧ (∀ c ∈ e, isEol c = true) ∧
      (∀ c ∈ t.head?, isEol c = false) ∧ (e = [] → t = []) := by
  obtain ⟨w, t, rfl, word, ends⟩ := span_eq (fun c => !isEol c) m
  obtain ⟨e, t, rfl, skip, other⟩ := span_eq isEol t
  refine ⟨w, e, t, rfl, fun c member => by simpa using word c member, skip, other, ?_⟩
  rintro rfl
  -- The line has stopped at a line end, so there is one to skip.
  cases t with
  | nil => rfl
  | cons c t =>
    have stopped := ends c rfl
    rw [Bool.not_eq_false', other c rfl] at stopped
    cases stopped

/-- Cutting off a line makes the text shorter. -/
theorem cut_shorter {w e t : List UInt8} (last : e = [] → t = []) (done : w ++ (e ++ t) ≠ []) :
    t.length < w.length + (e.length + t.length) := by
  by_cases held : e = []
  · rw [held, last held, List.append_nil, List.append_nil] at done
    have := List.length_pos_iff.mpr done
    rw [last held, List.length_nil]
    omega
  · have := List.length_pos_iff.mpr held
    omega

/-- The lines of a text: the first one, unless it is empty, and those behind its ends. -/
theorem runs_line {w e t : List UInt8} (full : ∀ c ∈ w, isEol c = false)
    (skip : ∀ c ∈ e, isEol c = true) (last : e = [] → t = []) :
    runs isEol (w ++ (e ++ t)) = if w = [] then runs isEol t else w :: runs isEol t := by
  by_cases held : w = []
  · rw [if_pos held, held, List.nil_append, runs_skip skip]
  · have ends : ∀ c ∈ (e ++ t).head?, isEol c = true := by
      intro c head
      cases e with
      | nil =>
        rw [last rfl] at head
        cases head
      | cons b e =>
        cases head
        exact skip _ List.mem_cons_self
    rw [if_neg held, runs_run held full ends, runs_skip skip]

/-! ### The loop -/

variable {buf pre m rest : List UInt8} {body : Nat → Nat → σ → Option (σ × Bool)}

/-- One round of the loop: the line is treated, and the next round starts behind its ends. -/
theorem eachLine_line {w e t : List UInt8} {s s' : σ} {stop : Bool} {fuel : Nat}
    (shape : buf = pre ++ (w ++ (e ++ t)) ++ 0 :: rest) (nul : 0 ∉ w ++ (e ++ t))
    (full : ∀ c ∈ w, isEol c = false) (skip : ∀ c ∈ e, isEol c = true)
    (other : ∀ c ∈ t.head?, isEol c = false) (last : e = [] → t = [])
    (done : w ++ (e ++ t) ≠ []) (treated : body pre.length w.length s = some (s', stop)) :
    eachLine buf body (fuel + 1) pre.length s =
      if stop then some s' else eachLine buf body fuel (pre ++ (w ++ e)).length s' := by
  -- The first byte is not the NUL.
  obtain ⟨b, v, first⟩ := List.exists_cons_of_ne_nil done
  have here : buf[pre.length]? = some b := by
    rw [shape, first, List.append_assoc, List.cons_append]
    exact at_append pre b _
  have nonzero : b ≠ 0 := by
    rintro rfl
    exact nul (first ▸ List.mem_cons_self)
  rw [List.mem_append, List.mem_append, not_or, not_or] at nul
  -- The line ends at a line end or at the NUL.
  obtain ⟨c, post, behind, ends⟩ : ∃ c post, e ++ t ++ 0 :: rest = c :: post ∧
      (c = 0 ∨ isEol c = true) := by
    cases e with
    | cons c e => exact ⟨c, _, rfl, .inr (skip c List.mem_cons_self)⟩
    | nil => exact ⟨0, rest, by rw [last rfl]; rfl, .inl rfl⟩
  have pass : ∀ b ∈ w, (fun c => c != 0 && !isEol c) b = true := fun b member => by
    have other : b ≠ 0 := fun zero => nul.1 (zero ▸ member)
    simp [full b member, other]
  have halt : (fun c => c != 0 && !isEol c) c = false := by
    rcases ends with rfl | eol
    · rfl
    · simp [eol]
  have line : buf = pre ++ w ++ c :: post := by
    rw [← behind, shape]
    simp
  have found := scan_append pre post pass halt
  rw [← line] at found
  -- The line ends are skipped up to the next line or to the NUL.
  obtain ⟨d, post', rest_eq, halt'⟩ : ∃ d post', t ++ 0 :: rest = d :: post' ∧
      isEol d = false := by
    cases t with
    | nil => exact ⟨0, rest, rfl, rfl⟩
    | cons d t => exact ⟨d, _, rfl, other d rfl⟩
  have next : buf = pre ++ w ++ e ++ d :: post' := by
    rw [← rest_eq, shape]
    simp
  have skipped := scan_append (pre ++ w) post' skip halt'
  rw [← next, List.length_append] at skipped
  have place : (pre ++ (w ++ e)).length = pre.length + w.length + e.length := by
    rw [List.length_append, List.length_append, Nat.add_assoc]
  rw [eachLine, place]
  simp only [here, found, Option.bind_eq_bind, Option.bind_some, if_neg nonzero,
    Nat.add_sub_cancel_left, treated, skipped]
  rfl

/-- A body that treats each line as `step` does: the loop ends, and has done so with each line up to
where it is left. -/
theorem eachLine_runs (Inv : σ → Prop) (step : List UInt8 → σ → σ × Bool) {n : Nat}
    (reads : ∀ pre line s, Stands buf n pre line → Inv s →
      body pre.length line.length s = some (step line s))
    (keeps : ∀ line s, Inv s → Inv (step line s).1) (blank : ∀ s, step [] s = (s, false))
    {fuel : Nat} (shape : buf = pre ++ m ++ 0 :: rest) (nul : 0 ∉ m) (short : m.length ≤ n)
    (enough : m.length < fuel) {s : σ} (inv : Inv s) :
    eachLine buf body fuel pre.length s = some (stepLines step (runs isEol m) s) := by
  induction fuel generalizing pre m s with
  | zero => omega
  | succ fuel ih =>
    by_cases done : m = []
    · subst done
      rw [List.append_nil] at shape
      have here : buf[pre.length]? = some 0 := shape ▸ at_append pre 0 rest
      rw [eachLine, here]
      rfl
    · obtain ⟨w, e, t, rfl, full, skip, other, last⟩ := cut_line m
      have shorter := cut_shorter last done
      simp only [List.length_append] at enough short
      have stands : Stands buf n pre w := by
        refine ⟨by omega, fun member => nul (List.mem_append_left _ member), full, ?_⟩
        cases e with
        | nil => exact ⟨0, rest, by rw [shape, last rfl]; simp, .inl rfl⟩
        | cons c e => exact ⟨c, e ++ t ++ 0 :: rest, by rw [shape]; simp,
            .inr (skip c List.mem_cons_self)⟩
      rw [eachLine_line shape nul full skip other last done (reads pre w s stands inv)]
      -- An empty line changes nothing, and is none of the runs.
      have lines : stepLines step (runs isEol (w ++ (e ++ t))) s =
          if (step w s).2 then (step w s).1 else stepLines step (runs isEol t) (step w s).1 := by
        rw [runs_line full skip last]
        by_cases held : w = []
        · rw [if_pos held, held, blank]
          rfl
        · rw [if_neg held, stepLines]
      rw [lines]
      split
      · rfl
      · have nul' : 0 ∉ t := fun member => nul (by simp [member])
        refine ih ?_ nul' (by omega) (by omega) (keeps w s inv)
        rw [shape]
        simp

/-- The loop over a whole text, which a NUL ends. -/
theorem eachLine_text (Inv : σ → Prop) (step : List UInt8 → σ → σ × Bool)
    (body : Nat → Nat → σ → Option (σ × Bool)) {m : List UInt8} (rest : List UInt8)
    (reads : ∀ pre line s, Stands (m ++ 0 :: rest) m.length pre line → Inv s →
      body pre.length line.length s = some (step line s))
    (keeps : ∀ line s, Inv s → Inv (step line s).1) (blank : ∀ s, step [] s = (s, false))
    (nul : 0 ∉ m) {s : σ} (inv : Inv s) :
    eachLine (m ++ 0 :: rest) body ((m ++ 0 :: rest).length + 1) 0 s =
      some (stepLines step (runs isEol m) s) := by
  have shape : m ++ 0 :: rest = [] ++ m ++ 0 :: rest := rfl
  have enough : m.length < (m ++ 0 :: rest).length + 1 := by
    rw [List.length_append]
    omega
  exact eachLine_runs Inv step reads keeps blank shape nul (le_refl _) enough inv

/-- A body that never leaves the loop treats every line. -/
theorem stepLines_all {step : List UInt8 → σ → σ × Bool}
    (goes : ∀ line s, (step line s).2 = false) (lines : List (List UInt8)) (s : σ) :
    stepLines step lines s = lines.foldl (fun s line => (step line s).1) s := by
  induction lines generalizing s with
  | nil => rfl
  | cons line lines ih => rw [stepLines, goes, if_neg Bool.false_ne_true, ih, List.foldl_cons]

end Lines
