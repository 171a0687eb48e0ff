import Mathlib

/-!
# Recorders

A recorder numbers what is put into it, from 0 on, and keeps number `n` in the
cell `n % cap`: a new item takes the cell of the oldest one. So it holds the last
`cap` items of its log, each in the cell of its number.
-/
structure Recorder (α : Type) where
  cells : Nat → α
  seq : Nat

namespace Recorder

variable {α : Type} (cap : Nat) (r : Recorder α)

def put (x : α) : Recorder α where
  cells := Function.update r.cells (r.seq % cap) x
  seq := r.seq + 1

/-- The number of the oldest item that is kept. -/
def first : Nat := r.seq - cap

/-- The recorder has numbered the items of the log, and keeps the last ones. -/
structure Holds (log : List α) : Prop where
  seq : r.seq = log.length
  kept : ∀ n x, r.first cap ≤ n → log[n]? = some x → r.cells (n % cap) = x

variable {cap} {r} {log : List α}

theorem holds_nil (cells : Nat → α) : Holds cap ⟨cells, 0⟩ [] :=
  ⟨rfl, fun n x _ at_ => by simp at at_⟩

/-- Two numbers within `cap` of each other have different cells. -/
theorem cell_ne {m n : Nat} (before : m < n) (near : n - m < cap) : m % cap ≠ n % cap := by
  intro same
  have apart : (n - m) % cap = 0 := Nat.sub_mod_eq_zero_of_mod_eq same.symm
  rw [Nat.mod_eq_of_lt near] at apart
  omega

theorem Holds.put (h : Holds cap r log) (x : α) : Holds cap (r.put cap x) (log ++ [x]) where
  seq := by simp [Recorder.put, h.seq]
  kept n y keeps at_ := by
    have inside : n < log.length + 1 := by
      have := (List.getElem?_eq_some_iff.mp at_).1
      simpa using this
    simp only [first, Recorder.put, h.seq] at keeps
    simp only [Recorder.put, h.seq]
    by_cases last : n = log.length
    · subst last
      rw [List.getElem?_concat_length] at at_
      rw [Function.update_self]
      exact Option.some.inj at_
    · have earlier : n < log.length := by omega
      have other : n % cap ≠ log.length % cap := cell_ne earlier (by omega)
      rw [Function.update_of_ne other]
      rw [List.getElem?_append_left earlier] at at_
      exact h.kept n y (by simp only [first, h.seq]; omega) at_

/-- What is read from the cell of a number in the window. -/
theorem Holds.read (h : Holds cap r log) {n : Nat} (keeps : r.first cap ≤ n) (inside : n < r.seq) :
    log[n]? = some (r.cells (n % cap)) := by
  rw [h.seq] at inside
  rw [List.getElem?_eq_getElem inside]
  exact congrArg some (h.kept n _ keeps (List.getElem?_eq_getElem inside)).symm

/-- The kept items, oldest first. -/
def items (cap : Nat) (r : Recorder α) : List α :=
  (List.range' (r.first cap) (r.seq - r.first cap)).map fun n => r.cells (n % cap)

/-- They are the last `cap` items of the log. -/
theorem Holds.items (h : Holds cap r log) : r.items cap = log.rtake cap := by
  refine List.ext_getElem? fun i => ?_
  simp only [Recorder.items, List.rtake, List.getElem?_map, List.getElem?_drop]
  by_cases inside : i < r.seq - r.first cap
  · rw [List.getElem?_range' inside, Option.map_some]
    have number : log.length - cap + i = r.first cap + 1 * i := by simp only [first, h.seq]; omega
    rw [number]
    exact (h.read (by omega) (by omega)).symm
  · have beyond : (List.range' (r.first cap) (r.seq - r.first cap))[i]? = none :=
      List.getElem?_eq_none (by simpa using inside)
    rw [beyond, Option.map_none]
    refine (List.getElem?_eq_none ?_).symm
    simp only [first, h.seq] at inside
    omega

/-- Every cell in use has the number of a kept item. -/
theorem exists_number {k : Nat} (cell : k < cap) (used : k < r.seq) :
    ∃ n, r.first cap ≤ n ∧ n < r.seq ∧ n % cap = k := by
  have few : (r.seq - 1 - k) % cap < cap := Nat.mod_lt _ (by omega)
  have less : (r.seq - 1 - k) % cap ≤ r.seq - 1 - k := Nat.mod_le _ _
  refine ⟨r.seq - 1 - (r.seq - 1 - k) % cap, by simp only [first]; omega, by omega, ?_⟩
  have number : r.seq - 1 - (r.seq - 1 - k) % cap = k + cap * ((r.seq - 1 - k) / cap) := by
    have := Nat.mod_add_div (r.seq - 1 - k) cap
    omega
  rw [number, Nat.add_mul_mod_self_left, Nat.mod_eq_of_lt cell]

/-- What is kept is what is in the cells. -/
theorem Holds.mem (h : Holds cap r log) (some : 0 < cap) {x : α} :
    x ∈ log.rtake cap ↔ ∃ k < cap, k < r.seq ∧ r.cells k = x := by
  rw [← h.items, Recorder.items, List.mem_map]
  constructor
  · rintro ⟨n, member, rfl⟩
    rw [List.mem_range'_1] at member
    refine ⟨n % cap, Nat.mod_lt _ some, ?_, rfl⟩
    exact (Nat.mod_le _ _).trans_lt (by omega)
  · rintro ⟨k, cell, used, rfl⟩
    obtain ⟨n, kept, inside, rfl⟩ := exists_number cell used
    refine ⟨n, ?_, rfl⟩
    rw [List.mem_range'_1]
    omega

/-- With no repetition among the kept items there is none in the cells. -/
theorem Holds.distinct (h : Holds cap r log) (nodup : (log.rtake cap).Nodup) {j k : Nat}
    (jCell : j < cap) (jUsed : j < r.seq) (kCell : k < cap) (kUsed : k < r.seq)
    (same : r.cells j = r.cells k) : j = k := by
  obtain ⟨m, mKept, mInside, rfl⟩ := exists_number jCell jUsed
  obtain ⟨n, nKept, nInside, rfl⟩ := exists_number kCell kUsed
  have at_ {i : Nat} (kept : r.first cap ≤ i) :
      (log.rtake cap)[i - r.first cap]? = log[i]? := by
    have number : log.length - cap + (i - r.first cap) = i := by
      simp only [first, h.seq] at kept ⊢
      omega
    rw [List.rtake, List.getElem?_drop, number]
  have length : (log.rtake cap).length = r.seq - r.first cap := by
    simp only [List.rtake, List.length_drop, first, h.seq]
  have eq : m - r.first cap = n - r.first cap := by
    refine (List.getElem?_inj (by omega) nodup).mp ?_
    rw [at_ mKept, at_ nKept, h.read mKept mInside, h.read nKept nInside, same]
  rw [show m = n by omega]

theorem nodup_put {x : α} (nodup : (log.rtake cap).Nodup) (new : x ∉ log.rtake cap) :
    ((log ++ [x]).rtake cap).Nodup := by
  cases cap with
  | zero => simp [List.rtake]
  | succ n =>
    have fewer : (log.rtake n).Sublist (log.rtake (n + 1)) := by
      rw [List.rtake, List.rtake]
      exact List.drop_sublist_drop_left log (by omega)
    rw [List.rtake_concat_succ, ← List.concat_eq_append]
    exact (nodup.sublist fewer).concat fun old => new (fewer.subset old)

end Recorder
