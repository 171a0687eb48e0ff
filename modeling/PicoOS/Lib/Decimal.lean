import Mathlib

/-!
# Decimal numerals

A numeral as a list of ASCII digits, its value, and the value that a loop over
32-bit integers computes: where a sum out of range wraps around, and where it is an
overflow that leaves no value at all.
-/
namespace Decimal

def isDigit (c : UInt8) : Bool := 0x30 ≤ c && c ≤ 0x39

/-- `c - '0'`. -/
def digit (c : UInt8) : Nat := c.toNat - 0x30

/-- A 32-bit integer with sign. -/
def int32 (x : Int) : Int := x.bmod (2 ^ 32)

/-- The value of a numeral. -/
def value (ds : List UInt8) : Nat := ds.foldl (fun v c => 10 * v + digit c) 0

/-- `for (...) v = v * 10 + (c - '0');` from `v` on. -/
def accumulate (v : Int) (ds : List UInt8) : Int :=
  ds.foldl (fun v c => int32 (v * 10 + digit c)) v

theorem value_concat (ds : List UInt8) (c : UInt8) :
    value (ds ++ [c]) = 10 * value ds + digit c := by
  rw [value, List.foldl_append, List.foldl_cons, List.foldl_nil, value]

theorem accumulate_concat (v : Int) (ds : List UInt8) (c : UInt8) :
    accumulate v (ds ++ [c]) = int32 (accumulate v ds * 10 + digit c) := by
  rw [accumulate, List.foldl_append, List.foldl_cons, List.foldl_nil, accumulate]

theorem int32_of_range {x : Int} (low : -2 ^ 31 ≤ x) (high : x < 2 ^ 31) : int32 x = x :=
  Int.bmod_eq_of_le (by omega) (by omega)

/-- The loop computes the value up to multiples of `2 ^ 32`. -/
theorem accumulate_value (ds : List UInt8) : accumulate 0 ds = int32 (value ds) := by
  induction ds using List.reverseRecOn with
  | nil => rfl
  | append_singleton ds c ih =>
    rw [accumulate_concat, ih, value_concat, int32, int32, int32, Int.bmod_add_bmod.symm,
      Int.bmod_mul_bmod, Int.bmod_add_bmod, Nat.cast_add, Nat.cast_mul, mul_comm]
    rfl

/-- `v * 10 + (c - '0')` of an `int`; no value where the sum overflows. -/
def checkedStep (v : Int) (c : UInt8) : Option Int :=
  if v * 10 + digit c < 2 ^ 31 then some (v * 10 + digit c) else none

/-- The loop over integers that must not overflow. -/
def checked (v : Int) (ds : List UInt8) : Option Int := ds.foldlM checkedStep v

theorem checked_concat (v : Int) (ds : List UInt8) (c : UInt8) :
    checked v (ds ++ [c]) = (checked v ds).bind fun v => checkedStep v c := by
  rw [checked, List.foldlM_append, checked]
  simp

/-- The loop overflows exactly if the value of the whole numeral is out of range. -/
theorem checked_value (ds : List UInt8) :
    checked 0 ds = if value ds < 2 ^ 31 then some (value ds : Int) else none := by
  induction ds using List.reverseRecOn with
  | nil => rfl
  | append_singleton ds c ih =>
    rw [checked_concat, ih, value_concat]
    split
    · next small =>
      have sum : (value ds : Int) * 10 + digit c = ((10 * value ds + digit c : Nat) : Int) := by
        omega
      have range : ((10 * value ds + digit c : Nat) : Int) < 2 ^ 31 ↔
          10 * value ds + digit c < 2 ^ 31 := by omega
      rw [Option.bind_some, checkedStep, sum]
      simp only [range]
    · next large =>
      rw [Option.bind_none, if_neg (by omega)]

/-! ### Printing -/

/-- The digits of a number, as `%d` prints them. -/
def decimal (n : Nat) : List UInt8 :=
  if n < 10 then [.ofNat (0x30 + n)] else decimal (n / 10) ++ [.ofNat (0x30 + n % 10)]

theorem digit_ofNat {d : Nat} (small : d < 10) :
    isDigit (.ofNat (0x30 + d)) = true ∧ digit (.ofNat (0x30 + d)) = d := by
  interval_cases d <;> decide

theorem decimal_digits (n : Nat) : ∀ c ∈ decimal n, isDigit c = true := by
  induction n using Nat.strong_induction_on with
  | _ n ih =>
    rw [decimal]
    split
    · next small =>
      rw [List.forall_mem_singleton]
      exact (digit_ofNat small).1
    · next large =>
      rw [List.forall_mem_append, List.forall_mem_singleton]
      exact ⟨ih (n / 10) (by omega), (digit_ofNat (Nat.mod_lt n (by omega))).1⟩

/-- What is printed reads back. -/
theorem value_decimal (n : Nat) : value (decimal n) = n := by
  induction n using Nat.strong_induction_on with
  | _ n ih =>
    rw [decimal]
    split
    · next small =>
      have one := value_concat [] (.ofNat (0x30 + n))
      rw [List.nil_append, (digit_ofNat small).2] at one
      rw [one]
      exact Nat.zero_add n
    · next large =>
      rw [value_concat, ih (n / 10) (by omega), (digit_ofNat (Nat.mod_lt n (by omega))).2]
      exact Nat.div_add_mod n 10

theorem length_decimal {n : Nat} (small : n < 100) :
    0 < (decimal n).length ∧ (decimal n).length ≤ 2 := by
  rw [decimal]
  split
  · exact ⟨Nat.one_pos, one_le_two⟩
  · have first : n / 10 < 10 := by omega
    rw [decimal, if_pos first]
    exact ⟨by simp, by simp⟩

end Decimal
