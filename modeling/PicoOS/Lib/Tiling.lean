import Mathlib

/-!
# Tilings by used and free blocks

A segment cut into blocks that lie end to end, each with a header of `hd` bytes
before its `size` bytes. In a tiling with no two free blocks next to each other
the used blocks determine the rest, so that such tilings are a canonical form
for the set of used blocks.
-/
namespace Tiling

structure Block where
  addr : Nat
  size : Nat
  free : Bool
  deriving DecidableEq, Repr

variable {hd s m e : Nat} {bs cs xs ys : List Block} {a b c : Block}

/-- The blocks cover the segment from `s` to `e`. -/
def Tiles (hd : Nat) : Nat → List Block → Nat → Prop
  | s, [], e => s = e
  | s, b :: bs, e => b.addr = s ∧ Tiles hd (s + hd + b.size) bs e

instance decidableTiles (hd : Nat) : ∀ s bs e, Decidable (Tiles hd s bs e)
  | s, [], e => inferInstanceAs (Decidable (s = e))
  | s, b :: bs, e =>
    have := decidableTiles hd (s + hd + b.size) bs e
    inferInstanceAs (Decidable (b.addr = s ∧ Tiles hd (s + hd + b.size) bs e))

/-- No two neighbours are free. -/
def Merged (bs : List Block) : Prop := bs.IsChain fun a b => ¬(a.free = true ∧ b.free = true)

instance (bs : List Block) : Decidable (Merged bs) := inferInstanceAs (Decidable (List.IsChain _ _))

/-- The blocks in use, in order. -/
def used (bs : List Block) : List Block := bs.filter fun b => !b.free

@[simp] theorem tiles_nil : Tiles hd s [] e ↔ s = e := Iff.rfl

@[simp] theorem tiles_cons :
    Tiles hd s (b :: bs) e ↔ b.addr = s ∧ Tiles hd (s + hd + b.size) bs e := Iff.rfl

@[simp] theorem used_nil : used [] = [] := rfl

@[simp] theorem used_append (bs cs : List Block) : used (bs ++ cs) = used bs ++ used cs :=
  List.filter_append ..

theorem used_cons (b : Block) (bs : List Block) :
    used (b :: bs) = if b.free then used bs else b :: used bs := by
  cases free : b.free <;> simp [used, free]

theorem mem_used : b ∈ used bs ↔ b ∈ bs ∧ b.free = false := by simp [used]

/-! ### Where the blocks lie -/

theorem tiles_append : Tiles hd s (bs ++ cs) e ↔ ∃ m, Tiles hd s bs m ∧ Tiles hd m cs e := by
  induction bs generalizing s with
  | nil => simp
  | cons b bs ih => simp [ih, and_assoc]

theorem Tiles.le (t : Tiles hd s bs e) : s ≤ e := by
  induction bs generalizing s with
  | nil => exact Nat.le_of_eq t
  | cons b bs ih =>
    have := ih t.2
    omega

/-- Every block lies inside the segment. -/
theorem Tiles.bounds (t : Tiles hd s bs e) (member : b ∈ bs) :
    s ≤ b.addr ∧ b.addr + hd + b.size ≤ e := by
  induction bs generalizing s with
  | nil => cases member
  | cons c bs ih =>
    obtain ⟨rfl, rest⟩ := t
    rcases List.mem_cons.mp member with rfl | later
    · exact ⟨le_refl _, rest.le⟩
    · have := ih rest later
      omega

/-- Two blocks are one, or one lies before the other. -/
theorem Tiles.apart (t : Tiles hd s bs e) (ha : a ∈ bs) (hb : b ∈ bs) :
    a = b ∨ a.addr + hd + a.size ≤ b.addr ∨ b.addr + hd + b.size ≤ a.addr := by
  induction bs generalizing s with
  | nil => cases ha
  | cons c bs ih =>
    obtain ⟨rfl, rest⟩ := t
    rcases List.mem_cons.mp ha with rfl | later
    · rcases List.mem_cons.mp hb with rfl | later'
      · exact .inl rfl
      · exact .inr (.inl (rest.bounds later').1)
    · rcases List.mem_cons.mp hb with rfl | later'
      · exact .inr (.inr (rest.bounds later).1)
      · exact ih rest later later'

/-- The blocks come in the order of their addresses. -/
theorem Tiles.sorted (pos : 0 < hd) (t : Tiles hd s bs e) :
    bs.Pairwise fun a b => a.addr < b.addr := by
  induction bs generalizing s with
  | nil => exact .nil
  | cons b bs ih =>
    obtain ⟨rfl, rest⟩ := t
    apply List.Pairwise.cons _ (ih rest)
    intro c later
    have := (rest.bounds later).1
    omega

/-- Which blocks are used determines the list of the used ones. -/
theorem Tiles.used_congr (pos : 0 < hd) (t : Tiles hd s bs e) (t' : Tiles hd s cs e)
    (same : ∀ b, b ∈ used bs ↔ b ∈ used cs) : used bs = used cs := by
  have sorted := (t.sorted pos).filter fun b => !b.free
  have sorted' := (t'.sorted pos).filter fun b => !b.free
  have apart {l : List Block} (sorted : l.Pairwise fun a b => a.addr < b.addr) : l.Nodup :=
    sorted.imp fun less same => by simp [same] at less
  have perm : (used bs).Perm (used cs) :=
    (List.perm_ext_iff_of_nodup (apart sorted) (apart sorted')).mpr same
  apply perm.eq_of_pairwise _ sorted sorted'
  intro a b _ _ less more
  omega

/-- Two neighbours of a tiling, and everything around them. -/
theorem tiles_split :
    Tiles hd s (xs ++ b :: ys) e ↔
      Tiles hd s xs b.addr ∧ Tiles hd (b.addr + hd + b.size) ys e := by
  rw [tiles_append]
  constructor
  · rintro ⟨m, before, rfl, after⟩
    exact ⟨before, after⟩
  · rintro ⟨before, after⟩
    exact ⟨b.addr, before, rfl, after⟩

theorem Tiles.length_mul_le (t : Tiles hd s bs e) : s + bs.length * hd ≤ e := by
  induction bs generalizing s with
  | nil => simpa using t.le
  | cons b bs ih =>
    have := ih t.2
    rw [List.length_cons, Nat.succ_mul]
    omega

/-- The blocks and their headers add up to the segment. -/
theorem Tiles.sum_eq (t : Tiles hd s bs e) : s + (bs.map fun b => hd + b.size).sum = e := by
  induction bs generalizing s with
  | nil => exact t
  | cons b bs ih =>
    rw [List.map_cons, List.sum_cons, ← ih t.2]
    omega

/-! ### The canonical form -/

/-- A free block of a merged tiling reaches to the next used block, or to the end. -/
theorem Tiles.free_end (t : Tiles hd s (b :: bs) e) (merged : Merged (b :: bs)) (free : b.free = true) :
    (used bs).head?.elim e Block.addr = s + hd + b.size := by
  cases bs with
  | nil => exact t.2.symm
  | cons c bs =>
    obtain ⟨rfl, next, rest⟩ := t
    have taken : c.free = false := by
      have := (List.isChain_cons_cons.mp merged).1
      simpa [free] using this
    simp [used_cons, taken, next]

theorem Merged.tail (merged : Merged (b :: bs)) : Merged bs := List.IsChain.tail merged

/-- A used block cannot start a tiling whose own first block is free. -/
theorem Tiles.head_used (pos : 0 < hd) (t : Tiles hd s (b :: bs) e) (free : b.free = true)
    (head : (used (b :: bs)).head? = some c) : c.addr ≠ s := by
  rw [used_cons, if_pos free] at head
  have member := (mem_used.mp (List.mem_of_head? head)).1
  have := (t.2.bounds member).1
  omega

/-- Two merged tilings of one segment with the same used blocks are the same. -/
theorem Tiles.unique (pos : 0 < hd) (t : Tiles hd s bs e) (t' : Tiles hd s cs e)
    (merged : Merged bs) (merged' : Merged cs) (same : used bs = used cs) : bs = cs := by
  induction bs generalizing s cs with
  | nil =>
    cases t
    cases cs with
    | nil => rfl
    | cons c cs =>
      have := t'.2.le
      omega
  | cons b bs ih =>
    cases cs with
    | nil =>
      have := t.2.le
      simp at t'
      omega
    | cons c cs =>
      cases free : b.free with
      | true =>
        cases free' : c.free with
        | true =>
          have stop := t.free_end merged free
          have stop' := t'.free_end merged' free'
          rw [used_cons, used_cons, if_pos free, if_pos free'] at same
          rw [same] at stop
          have size : b.size = c.size := by omega
          have equal : b = c := by
            cases b
            cases c
            simp_all
          subst equal
          rw [ih t.2 t'.2 merged.tail merged'.tail same]
        | false =>
          refine absurd t'.1 (t.head_used pos free ?_)
          rw [same, used_cons, if_neg (by simp [free'])]
          rfl
      | false =>
        cases free' : c.free with
        | true =>
          refine absurd t.1 (t'.head_used pos free' ?_)
          rw [← same, used_cons, if_neg (by simp [free])]
          rfl
        | false =>
          rw [used_cons, used_cons, if_neg (by simp [free]), if_neg (by simp [free'])] at same
          obtain ⟨rfl, rest⟩ := List.cons.inj same
          rw [ih t.2 t'.2 merged.tail merged'.tail rest]

/-! ### Taking and giving back -/

theorem merged_split :
    Merged (xs ++ b :: ys) ↔ Merged xs ∧ Merged ys ∧
      (b.free = true → (∀ a ∈ xs.getLast?, a.free = false) ∧ ∀ c ∈ ys.head?, c.free = false) := by
  unfold Merged
  rw [List.isChain_append, List.isChain_cons]
  simp only [List.head?_cons, Option.mem_def, Option.some.injEq, forall_eq', not_and,
    Bool.not_eq_true]
  constructor
  · rintro ⟨before, ⟨right, after⟩, left⟩
    refine ⟨before, after, fun free => ⟨fun a last => ?_, fun c first => right c first free⟩⟩
    cases taken : a.free with
    | false => rfl
    | true =>
      rw [left a last taken] at free
      cases free
  · rintro ⟨before, after, edges⟩
    refine ⟨before, ⟨fun c first free => (edges free).2 c first, after⟩, fun a last taken => ?_⟩
    cases free : b.free with
    | false => rfl
    | true =>
      rw [(edges free).1 a last] at taken
      cases taken

theorem merged_cons :
    Merged (b :: ys) ↔ Merged ys ∧ (b.free = true → ∀ c ∈ ys.head?, c.free = false) := by
  unfold Merged
  rw [List.isChain_cons]
  simp only [Option.mem_def, not_and, Bool.not_eq_true]
  exact ⟨fun ⟨right, after⟩ => ⟨after, fun free c first => right c first free⟩,
    fun ⟨after, right⟩ => ⟨fun c first free => right free c first, after⟩⟩

/-- A free block is taken whole. -/
theorem Merged.take (merged : Merged (xs ++ b :: ys)) (used : c.free = false) :
    Merged (xs ++ c :: ys) := by
  obtain ⟨before, after, _⟩ := merged_split.mp merged
  exact merged_split.mpr ⟨before, after, fun free => by rw [used] at free; cases free⟩

/-- A free block is split: its front is used, its back stays free. -/
theorem Merged.carve (merged : Merged (xs ++ b :: ys)) (free : b.free = true)
    (used : c.free = false) (a : Block) : Merged (xs ++ c :: a :: ys) := by
  obtain ⟨before, after, edges⟩ := merged_split.mp merged
  refine merged_split.mpr ⟨before, ?_, fun free => by rw [used] at free; cases free⟩
  exact merged_cons.mpr ⟨after, fun _ => (edges free).2⟩

/-- Two neighbours become one block. -/
theorem Tiles.join (t : Tiles hd s (xs ++ a :: b :: ys) e) (addr : c.addr = a.addr)
    (size : c.size = a.size + hd + b.size) : Tiles hd s (xs ++ c :: ys) e := by
  obtain ⟨before, next, after⟩ := tiles_split.mp t
  refine tiles_split.mpr ⟨addr ▸ before, ?_⟩
  have : a.addr + hd + a.size + hd + b.size = c.addr + hd + c.size := by omega
  exact this ▸ after

end Tiling
