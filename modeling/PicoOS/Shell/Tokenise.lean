import Mathlib
import PicoOS.Lib.CString
import PicoOS.Lib.Runs

/-!
# Splitting a command line

`tokenise` in place: behind each token that it finds a NUL overwrites a blank, so
that the tokens become strings.
-/
namespace PicoOS.Shell

open CString Runs

/-- A space or a tab. -/
def isBlank (c : UInt8) : Bool := c == 0x20 || c == 0x09

/-- The outer loop of `tokenise`: the line and `argv`; `none` leaves the line or does not end. -/
def tokeniseLoop (maxArgc : Int) :
    Nat → List UInt8 → Nat → List Nat → Option (List UInt8 × List Nat)
  | 0, _, _, _ => none
  | fuel + 1, text, p, argv => do
    let c ← text[p]?
    if c ≠ 0 ∧ argv.length < maxArgc then
      let p ← scan text isBlank p
      let c ← text[p]?
      if c = 0 then return (text, argv)
      let argv := argv ++ [p]
      let p ← scan text (fun c => c != 0 && !isBlank c) p
      let c ← text[p]?
      if c ≠ 0 then
        let text ← store text p [0]
        tokeniseLoop maxArgc fuel text (p + 1) argv
      else tokeniseLoop maxArgc fuel text p argv
    else return (text, argv)

/-- `tokenise`. -/
def tokenise (text : List UInt8) (maxArgc : Int) : Option (List UInt8 × List Nat) :=
  tokeniseLoop maxArgc (text.length + 1) text 0 []

/-- The line `m` behind `pre` once its first `k` tokens are strings: only blanks have changed. -/
structure Splits (pre m rest : List UInt8) (k : Nat) (m' : List UInt8) : Prop where
  length : m'.length = m.length
  kept : ∀ i : Nat, m'[i]? = m[i]? ∨ m[i]?.any isBlank = true ∧ m'[i]? = some 0
  tokens : ∀ i ∈ (starts isBlank m).take k,
    strAt (pre ++ m' ++ 0 :: rest) (pre.length + i) = some (run isBlank m i)

section

variable {pre u w t m rest m' : List UInt8} {k : Nat}

/-- The first token of a line starts behind its blanks. -/
theorem starts_token (blank : ∀ c ∈ u, isBlank c = true) (held : w ≠ [])
    (full : ∀ c ∈ w, isBlank c = false) (ends : ∀ c ∈ t.head?, isBlank c = true) :
    starts isBlank (u ++ (w ++ t)) =
      u.length :: (starts isBlank t).map ((u ++ w).length + ·) := by
  rw [starts_skip blank, starts_run held full ends, List.map_cons, List.map_map, Nat.add_zero]
  congr 2
  funext i
  simp only [Function.comp, List.length_append]
  omega

/-- A token with a NUL behind it. -/
theorem strAt_token (nul : 0 ∉ w) (post : List UInt8) :
    strAt (pre ++ (u ++ w) ++ 0 :: post) (pre.length + u.length) = some w := by
  have found := strAt_append (pre ++ u) post nul
  rwa [List.length_append, List.append_assoc pre u w] at found

/-- The last token of a line has its NUL already. -/
theorem Splits.last (blank : ∀ c ∈ u, isBlank c = true) (held : w ≠ [])
    (full : ∀ c ∈ w, isBlank c = false) (nul : 0 ∉ w) :
    Splits pre (u ++ w) rest k (u ++ w) := by
  refine ⟨rfl, fun i => .inl rfl, fun i member => ?_⟩
  have ends : ∀ c ∈ ([] : List UInt8).head?, isBlank c = true := fun c head => by cases head
  have first := starts_token blank held full ends
  rw [List.append_nil, starts_nil, List.map_nil] at first
  rw [first] at member
  obtain rfl := List.mem_singleton.mp (List.mem_of_mem_take member)
  have found := run_append isBlank u (w ++ []) 0
  rw [run_zero full ends, Nat.add_zero, List.append_nil] at found
  rw [found]
  exact strAt_token nul rest

/-- A token gets its NUL, and the rest of the line is split. -/
theorem Splits.token {c : UInt8} (blank : ∀ c ∈ u, isBlank c = true) (held : w ≠ [])
    (full : ∀ c ∈ w, isBlank c = false) (nul : 0 ∉ w) (ends : isBlank c = true)
    (split : Splits (pre ++ (u ++ w) ++ [0]) t rest k m') :
    Splits pre (u ++ (w ++ c :: t)) rest (k + 1) (u ++ w ++ 0 :: m') := by
  have ends' : ∀ b ∈ (c :: t).head?, isBlank b = true := fun b head => by
    cases head
    exact ends
  have shape : u ++ (w ++ c :: t) = (u ++ w) ++ c :: t := (List.append_assoc ..).symm
  refine ⟨?_, fun i => ?_, fun i member => ?_⟩
  · simp [split.length]
  · rw [shape]
    by_cases front : i < (u ++ w).length
    · rw [List.getElem?_append_left front, List.getElem?_append_left front]
      exact .inl rfl
    · obtain ⟨j, rfl⟩ := Nat.exists_eq_add_of_le (Nat.le_of_not_lt front)
      rw [List.getElem?_append_right (Nat.le_add_right ..), Nat.add_sub_cancel_left,
        List.getElem?_append_right (Nat.le_add_right ..), Nat.add_sub_cancel_left]
      cases j with
      | zero => exact .inr ⟨by simpa using ends, rfl⟩
      | succ j => exact split.kept j
  · rw [starts_token blank held full ends', List.take_succ_cons, List.mem_cons] at member
    rcases member with rfl | member
    · have found := run_append isBlank u (w ++ c :: t) 0
      rw [run_zero full ends', Nat.add_zero] at found
      have bytes : pre ++ (u ++ w ++ 0 :: m') ++ 0 :: rest =
          pre ++ (u ++ w) ++ 0 :: (m' ++ 0 :: rest) := by simp
      rw [found, bytes]
      exact strAt_token nul _
    · -- A later token, behind the NUL that was written.
      rw [starts_cons ends, List.map_map, ← List.map_take] at member
      obtain ⟨j, inside, rfl⟩ := List.mem_map.mp member
      have found := run_append isBlank (u ++ w ++ [c]) t j
      have bytes : pre ++ (u ++ w ++ 0 :: m') ++ 0 :: rest =
          pre ++ (u ++ w) ++ [0] ++ m' ++ 0 :: rest := by simp
      have place : pre.length + ((u ++ w).length + (1 + j)) =
          (pre ++ (u ++ w) ++ [0]).length + j := by
        simp only [List.length_append, List.length_singleton]
        omega
      have line : u ++ (w ++ c :: t) = u ++ w ++ [c] ++ t := by simp
      have index : (u ++ w).length + (1 + j) = (u ++ w ++ [c]).length + j := by
        simp only [List.length_append, List.length_singleton]
        omega
      simp only [Function.comp]
      rw [bytes, place, split.tokens j inside, index, line, found]

/-! ### The loop -/

variable {maxArgc : Int} {fuel : Nat} {argv : List Nat}

/-- A byte of the line behind `pre`. -/
theorem byte_at (pre : List UInt8) (held : m ≠ []) (nul : 0 ∉ m) (post : List UInt8) :
    ∃ c, (pre ++ m ++ post)[pre.length]? = some c ∧ c ∈ m ∧ c ≠ 0 := by
  obtain ⟨c, m, rfl⟩ := List.exists_cons_of_ne_nil held
  refine ⟨c, ?_, List.mem_cons_self, fun zero => nul (zero ▸ List.mem_cons_self)⟩
  rw [List.append_assoc, List.cons_append]
  exact at_append pre c _

/-- The loop stops at `max_argc` tokens. -/
theorem tokeniseLoop_full (full : ¬ (argv.length : Int) < maxArgc) :
    tokeniseLoop maxArgc (fuel + 1) (pre ++ m ++ 0 :: rest) pre.length argv =
      some (pre ++ m ++ 0 :: rest, argv) := by
  simp [tokeniseLoop, full]

/-- The loop stops where only blanks are left. -/
theorem tokeniseLoop_blank (blank : ∀ c ∈ u, isBlank c = true) :
    tokeniseLoop maxArgc (fuel + 1) (pre ++ u ++ 0 :: rest) pre.length argv =
      some (pre ++ u ++ 0 :: rest, argv) := by
  have skipped := scan_append pre rest blank (show isBlank 0 = false from rfl)
  have behind : (pre ++ u ++ 0 :: rest)[pre.length + u.length]? = some 0 := by
    rw [← List.length_append]
    exact at_append (pre ++ u) 0 rest
  obtain ⟨c, here⟩ : ∃ c, (pre ++ u ++ 0 :: rest)[pre.length]? = some c := by
    rw [← Option.isSome_iff_exists, List.getElem?_eq_getElem (by simp)]
    rfl
  rw [tokeniseLoop]
  simp only [here, skipped, behind, Option.bind_eq_bind, Option.bind_some, if_true]
  split <;> rfl

/-- The loop finds a token, up to the byte `c`. -/
theorem tokeniseLoop_token {c : UInt8} {post : List UInt8} (more : (argv.length : Int) < maxArgc)
    (nul : 0 ∉ u ++ w) (blank : ∀ c ∈ u, isBlank c = true) (held : w ≠ [])
    (full : ∀ c ∈ w, isBlank c = false) (ends : c = 0 ∨ isBlank c = true) :
    tokeniseLoop maxArgc (fuel + 1) (pre ++ (u ++ w) ++ c :: post) pre.length argv =
      if c = 0 then tokeniseLoop maxArgc fuel (pre ++ (u ++ w) ++ c :: post)
        (pre ++ (u ++ w)).length (argv ++ [pre.length + u.length])
      else tokeniseLoop maxArgc fuel (pre ++ (u ++ w) ++ [0] ++ post)
        (pre ++ (u ++ w) ++ [0]).length (argv ++ [pre.length + u.length]) := by
  rw [List.mem_append, not_or] at nul
  have both : u ++ w ≠ [] := by simp [held]
  have nul' : 0 ∉ u ++ w := by simp [nul]
  obtain ⟨a, first, _, nonzero⟩ := byte_at pre both nul' (c :: post)
  have text : pre ++ (u ++ w) ++ c :: post = pre ++ u ++ w ++ c :: post := by simp
  obtain ⟨b, w₀, rfl⟩ := List.exists_cons_of_ne_nil held
  have skipped := scan_append pre (w₀ ++ c :: post) blank (full b List.mem_cons_self)
  have start : (pre ++ u ++ b :: w₀ ++ c :: post)[pre.length + u.length]? = some b := by
    rw [← List.length_append, List.append_assoc _ (b :: w₀), List.cons_append]
    exact at_append (pre ++ u) b _
  rw [← List.length_append] at start
  have some_b : b ≠ 0 := fun zero => nul.2 (zero ▸ List.mem_cons_self)
  have word : ∀ d ∈ b :: w₀, (fun c => c != 0 && !isBlank c) d = true := fun d member => by
    have other : d ≠ 0 := fun zero => nul.2 (zero ▸ member)
    simp [full d member, other]
  have stop : (fun c => c != 0 && !isBlank c) c = false := by
    rcases ends with rfl | blank
    · rfl
    · simp [blank]
  have ended := scan_append (pre ++ u) post word stop
  have last := at_append (pre ++ u ++ b :: w₀) c post
  rw [← List.length_append] at ended
  have written : store (pre ++ u ++ b :: w₀ ++ c :: post) (pre ++ u ++ b :: w₀).length [0] =
      some (pre ++ u ++ b :: w₀ ++ [0] ++ post) := by
    have one : [(0 : UInt8)].length = [c].length := rfl
    have stored := store_append (pre ++ u ++ b :: w₀) post one
    rwa [List.append_assoc _ [c], List.singleton_append] at stored
  have same : pre ++ u ++ b :: (w₀ ++ c :: post) = pre ++ u ++ b :: w₀ ++ c :: post := by simp
  rw [same, ← List.length_append] at skipped
  rw [text] at first
  rw [text, ← List.append_assoc pre u, ← List.length_append, tokeniseLoop]
  simp only [first, skipped, start, Option.bind_eq_bind, Option.bind_some, ended, last, written,
    if_pos (And.intro nonzero more), if_neg some_b]
  have behind : (pre ++ u ++ b :: w₀ ++ [0]).length = (pre ++ u ++ b :: w₀).length + 1 := by
    rw [List.length_append, List.length_singleton]
  by_cases zero : c = 0
  · rw [if_neg (not_not.mpr zero), if_pos zero]
  · rw [if_pos zero, if_neg zero, behind]

end

theorem tokeniseLoop_splits (maxArgc : Int) {fuel : Nat} (pre m rest : List UInt8) (argv : List Nat)
    (nul : 0 ∉ m) (enough : m.length < fuel) :
    ∃ m', tokeniseLoop maxArgc fuel (pre ++ m ++ 0 :: rest) pre.length argv =
        some (pre ++ m' ++ 0 :: rest, argv ++
          ((starts isBlank m).take (maxArgc - argv.length).toNat).map (pre.length + ·)) ∧
      Splits pre m rest (maxArgc - argv.length).toNat m' := by
  induction fuel generalizing pre m argv with
  | zero => omega
  | succ fuel ih =>
    by_cases more : (argv.length : Int) < maxArgc
    · obtain ⟨u, v, rfl, blank, other⟩ := span_eq isBlank m
      have left : (maxArgc - argv.length).toNat =
          (maxArgc - (argv ++ [pre.length + u.length]).length).toNat + 1 := by
        rw [List.length_append, List.length_singleton]
        omega
      obtain ⟨w, t, rfl, word, ends⟩ := span_eq (fun c => !isBlank c) v
      have full : ∀ c ∈ w, isBlank c = false := fun c member => by simpa using word c member
      have ends : ∀ c ∈ t.head?, isBlank c = true := fun c head => by simpa using ends c head
      rw [List.length_append, List.length_append] at enough
      by_cases held : w = []
      · -- Only blanks: a first byte of `t` would be both.
        subst held
        cases t with
        | nil =>
          simp only [List.append_nil] at nul ⊢
          have none : starts isBlank (u ++ []) = _ := starts_skip blank
          rw [List.append_nil, starts_nil, List.map_nil] at none
          rw [none, List.take_nil, List.map_nil, List.append_nil]
          refine ⟨u, tokeniseLoop_blank blank, rfl, fun i => .inl rfl, fun i member => ?_⟩
          rw [none, List.take_nil] at member
          cases member
        | cons c t => exact absurd (ends c rfl) (by simp [other c rfl])
      · cases t with
        | nil =>
          rw [List.append_nil] at nul ⊢
          have ended : ∀ c ∈ ([] : List UInt8).head?, isBlank c = true := nofun
          have first := starts_token blank held full ended
          rw [List.append_nil, starts_nil, List.map_nil] at first
          have some_left := List.length_pos_iff.mpr held
          obtain ⟨m', ran, split⟩ := ih (pre ++ (u ++ w)) []
            (argv ++ [pre.length + u.length]) List.not_mem_nil (by rw [List.length_nil]; omega)
          cases List.length_eq_zero_iff.mp split.length
          rw [List.append_nil, starts_nil, List.take_nil, List.map_nil, List.append_nil] at ran
          rw [tokeniseLoop_token more nul blank held full (.inl rfl), if_pos rfl, ran, left, first,
            List.take_succ_cons, List.take_nil, List.map_singleton]
          have nul_w : 0 ∉ w := fun member => nul (List.mem_append_right u member)
          exact ⟨u ++ w, rfl, .last blank held full nul_w⟩
        | cons c t =>
          have some_c : c ≠ 0 := fun zero => nul (by simp [zero])
          have bytes : pre ++ (u ++ (w ++ c :: t)) ++ 0 :: rest =
              pre ++ (u ++ w) ++ c :: (t ++ 0 :: rest) := by simp
          have nul_w : 0 ∉ u ++ w := fun member => nul (by
            rw [← List.append_assoc]
            exact List.mem_append_left _ member)
          have nul_t : 0 ∉ t := fun member => nul (by simp [member])
          rw [List.length_cons] at enough
          obtain ⟨m', ran, split⟩ := ih (pre ++ (u ++ w) ++ [0]) t
            (argv ++ [pre.length + u.length]) nul_t (by omega)
          rw [List.append_assoc _ t] at ran
          have blank_c := ends c rfl
          rw [bytes, tokeniseLoop_token more nul_w blank held full (.inr blank_c), if_neg some_c, ran, left,
            starts_token blank held full ends]
          refine ⟨u ++ w ++ 0 :: m', ?_, .token blank held full
            (fun member => nul_w (List.mem_append_right u member)) blank_c split⟩
          have offsets : ((fun i => pre.length + i) ∘ fun i => (u ++ w).length + i) ∘
              (fun i => 1 + i) = fun i => (pre ++ (u ++ w) ++ [0]).length + i := by
            funext i
            simp only [Function.comp, List.length_append, List.length_singleton]
            omega
          rw [starts_cons blank_c, List.take_succ_cons, ← List.map_take, ← List.map_take, List.map_cons,
            List.map_map, List.map_map, offsets]
          simp
    · have none_left : (maxArgc - argv.length).toNat = 0 := by omega
      rw [none_left, List.take_zero, List.map_nil, List.append_nil]
      exact ⟨m, tokeniseLoop_full more, rfl, fun i => .inl rfl, nofun⟩

/-- `tokenise` splits any line: `argv` points to the first `max_argc` maximal runs of non-blanks, each
a string of its own now, and nothing outside the line has changed. -/
theorem tokenise_exact (line rest : List UInt8) (maxArgc : Int) (nul : 0 ∉ line) :
    ∃ line' argv, tokenise (line ++ 0 :: rest) maxArgc = some (line' ++ 0 :: rest, argv) ∧
      line'.length = line.length ∧
      argv = (starts isBlank line).take maxArgc.toNat ∧
      argv.map (strAt (line' ++ 0 :: rest)) = ((runs isBlank line).take maxArgc.toNat).map some := by
  have enough : line.length < (line ++ 0 :: rest).length + 1 := by
    rw [List.length_append]
    omega
  obtain ⟨line', ran, split⟩ := tokeniseLoop_splits maxArgc [] line rest [] nul enough
  simp only [List.nil_append, List.length_nil, Nat.cast_zero, sub_zero, Nat.zero_add,
    List.map_id'] at ran split
  refine ⟨line', _, ran, split.length, rfl, ?_⟩
  rw [runs, ← List.map_take, List.map_map]
  refine List.map_congr_left fun i member => ?_
  have found := split.tokens i member
  simpa using found

/-- `ls`, a tab and a space, and `a`. -/
theorem tokenise_ls :
    ∃ line' argv, tokenise ([0x6C, 0x73, 0x09, 0x20, 0x61] ++ 0 :: [0xFF]) 8 =
        some (line' ++ 0 :: [0xFF], argv) ∧
      line'.length = [0x6C, 0x73, 0x09, 0x20, 0x61].length ∧
      argv = (starts isBlank [0x6C, 0x73, 0x09, 0x20, 0x61]).take (8 : Int).toNat ∧
      argv.map (strAt (line' ++ 0 :: [0xFF])) =
        ((runs isBlank [0x6C, 0x73, 0x09, 0x20, 0x61]).take (8 : Int).toNat).map some :=
  tokenise_exact [0x6C, 0x73, 0x09, 0x20, 0x61] [0xFF] 8 (by decide)

end PicoOS.Shell
