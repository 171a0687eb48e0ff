import Mathlib
import PicoOS.Lib.Memory

/-!
# C strings

A buffer is a list of bytes, and every access to it is checked: `none` stands for
one outside. A string goes up to the first NUL.
-/
namespace CString

/-- The characters of a string literal. -/
def text (s : String) : List UInt8 := s.toUTF8.data.toList

/-- `n` bytes from `p` on. -/
def load (buf : List UInt8) (p n : Nat) : Option (List UInt8) :=
  if p + n ≤ buf.length then some ((buf.drop p).take n) else none

/-- The bytes go to `p`. -/
def store (buf : List UInt8) (p : Nat) (bytes : List UInt8) : Option (List UInt8) :=
  if p + bytes.length ≤ buf.length then some (Memory.overlay buf p bytes) else none

def scanLoop (buf : List UInt8) (q : UInt8 → Bool) : Nat → Nat → Option Nat
  | 0, _ => none
  | fuel + 1, p => buf[p]?.bind fun c => if q c then scanLoop buf q fuel (p + 1) else some p

/-- `while (q(*p)) p++;`, which ends or leaves the buffer. -/
def scan (buf : List UInt8) (q : UInt8 → Bool) (p : Nat) : Option Nat :=
  scanLoop buf q (buf.length + 1) p

/-- `strncmp(p, key, strlen(key)) == 0`. -/
def hasPrefix (buf : List UInt8) : Nat → List UInt8 → Option Bool
  | _, [] => some true
  | p, k :: key =>
    buf[p]?.bind fun c => if c = k then hasPrefix buf (p + 1) key else some false

/-- The string at `p`. -/
def strAt (buf : List UInt8) (p : Nat) : Option (List UInt8) :=
  if 0 ∈ buf.drop p then some ((buf.drop p).takeWhile (· ≠ 0)) else none

variable {pre w post key m : List UInt8} {c : UInt8} {q : UInt8 → Bool}

theorem at_append (pre : List UInt8) (c : UInt8) (post : List UInt8) :
    (pre ++ c :: post)[pre.length]? = some c := by
  rw [List.getElem?_append_right (le_refl _), Nat.sub_self, List.getElem?_cons_zero]

theorem load_append (pre w post : List UInt8) :
    load (pre ++ w ++ post) pre.length w.length = some w := by
  rw [load, if_pos (by simp), List.append_assoc, List.drop_left, List.take_left]

theorem store_append (pre : List UInt8) {old new : List UInt8} (post : List UInt8)
    (same : new.length = old.length) :
    store (pre ++ old ++ post) pre.length new = some (pre ++ new ++ post) := by
  rw [store, if_pos (by simp [same]), Memory.overlay, List.append_assoc pre old, List.take_left,
    same, ← List.append_assoc pre old, ← List.length_append, List.drop_left]

theorem scanLoop_append (pre : List UInt8) (pass : ∀ c ∈ w, q c = true) (stop : q c = false)
    {fuel : Nat} (enough : w.length < fuel) :
    scanLoop (pre ++ w ++ c :: post) q fuel pre.length = some (pre.length + w.length) := by
  induction w generalizing pre fuel with
  | nil =>
    obtain ⟨fuel, rfl⟩ := Nat.exists_eq_add_of_lt enough
    rw [List.append_nil, scanLoop, at_append, Option.bind_some, stop]
    rfl
  | cons b w ih =>
    obtain ⟨fuel, rfl⟩ : ∃ n, fuel = n + 1 := ⟨fuel - 1, by omega⟩
    have shift : pre ++ b :: w ++ c :: post = (pre ++ [b]) ++ w ++ c :: post := by simp
    have next := ih (pre ++ [b]) (fun c member => pass c (List.mem_cons_of_mem b member))
      (Nat.lt_of_succ_lt_succ enough)
    rw [← shift, List.length_append, List.length_singleton] at next
    rw [scanLoop, List.append_assoc, List.cons_append, at_append, Option.bind_some,
      if_pos (pass b List.mem_cons_self), ← List.cons_append, ← List.append_assoc, next,
      List.length_cons]
    congr 1
    omega

/-- The loop stops at the first byte that does not pass. -/
theorem scan_append (pre post : List UInt8) (pass : ∀ c ∈ w, q c = true) (stop : q c = false) :
    scan (pre ++ w ++ c :: post) q pre.length = some (pre.length + w.length) :=
  scanLoop_append pre pass stop (by simp only [List.length_append]; omega)

/-- The comparison stops at a byte that the key does not have. -/
theorem hasPrefix_append (pre : List UInt8) (absent : c ∉ key) :
    hasPrefix (pre ++ m ++ c :: post) pre.length key = some (key.isPrefixOf m) := by
  induction key generalizing pre m with
  | nil => simp [hasPrefix]
  | cons k key ih =>
    rw [List.mem_cons, not_or] at absent
    cases m with
    | nil =>
      rw [List.append_nil, hasPrefix, at_append, Option.bind_some, if_neg absent.1]
      rfl
    | cons b m =>
      have shift : pre ++ b :: m ++ c :: post = (pre ++ [b]) ++ m ++ c :: post := by simp
      have next := ih (pre ++ [b]) (m := m) absent.2
      rw [← shift, List.length_append, List.length_singleton] at next
      rw [hasPrefix, List.append_assoc, List.cons_append, at_append, Option.bind_some,
        ← List.cons_append, ← List.append_assoc, next]
      by_cases same : b = k
      · simp [same]
      · simp [List.isPrefixOf, same, Ne.symm same]

theorem strAt_append (pre : List UInt8) {s : List UInt8} (post : List UInt8) (nul : 0 ∉ s) :
    strAt (pre ++ s ++ 0 :: post) pre.length = some s := by
  have ends : ∀ c ∈ s, decide (c ≠ 0) = true := fun c member => by
    simpa using fun zero : c = 0 => nul (zero ▸ member)
  rw [strAt, List.append_assoc, List.drop_left, if_pos (by simp),
    List.takeWhile_append_of_pos ends]
  simp

/-! ### Cutting at a byte -/

theorem cut_before (absent : c ∉ w) (post : List UInt8) :
    (w ++ c :: post).takeWhile (· ≠ c) = w ∧ (w ++ c :: post).dropWhile (· ≠ c) = c :: post := by
  have pass : ∀ b ∈ w, decide (b ≠ c) = true := fun b member =>
    decide_eq_true fun same => absent (same ▸ member)
  rw [List.takeWhile_append_of_pos pass, List.dropWhile_append_of_pos pass]
  simp

theorem cut_nowhere (absent : c ∉ w) :
    w.takeWhile (· ≠ c) = w ∧ w.dropWhile (· ≠ c) = [] := by
  have pass : ∀ b ∈ w, decide (b ≠ c) = true := fun b member =>
    decide_eq_true fun same => absent (same ▸ member)
  exact ⟨List.takeWhile_eq_self_iff.mpr pass, List.dropWhile_eq_nil_iff.mpr pass⟩

end CString
