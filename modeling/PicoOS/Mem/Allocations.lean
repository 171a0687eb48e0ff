import PicoOS.Mem.Sizes

/-!
# What is allocated

To its users the heap is a map from pointers to the sizes of their blocks: `kmalloc`
adds a pointer to it and `kfree` takes one out, whichever blocks are split or merged
meanwhile. An account says who owns each of them.
-/
namespace PicoOS.Mem

open Tiling

/-- `p` is allocated, with a block of `n` bytes. -/
def Heap.Holds (h : Heap) (p : Ptr) (n : UInt32) : Prop :=
  ∃ b ∈ h.blockList, b.2.free = false ∧ p = b.1 + headerSize ∧ b.2.size = n

variable {h h' : Heap} {ps qs : List Ptr} {p q : Ptr} {m n size : UInt32}

/-- The same, said of the used blocks. -/
theorem Sound.holds_iff (sound : Sound h ps) :
    h.Holds p n ↔
      (⟨(p - headerSize).toNat, n.toNat, false⟩ : Block) ∈ h.usedBlocks ps := by
  rw [Heap.usedBlocks, mem_used, List.mem_map]
  constructor
  · rintro ⟨⟨a, v⟩, listed, free, rfl, rfl⟩
    obtain ⟨member, block⟩ := sound.mem_blockList.mp listed
    dsimp only at member block free ⊢
    subst block
    refine ⟨⟨a, member, ?_⟩, rfl⟩
    rw [Heap.view, free, UInt32.add_sub_cancel]
  · rintro ⟨⟨a, member, view⟩, -⟩
    obtain ⟨addr, sizes, free⟩ := Block.mk.inj view
    have at_ : a = p - headerSize := UInt32.toNat_inj.mp addr
    refine ⟨(a, h.block a), sound.mem_blockList.mpr ⟨member, rfl⟩, free, ?_, ?_⟩
    · rw [at_, UInt32.sub_add_cancel]
    · exact UInt32.toNat_inj.mp sizes

/-- The block of an allocated pointer. -/
theorem Sound.holds_block (sound : Sound h ps) (held : h.Holds p n) :
    ∃ a ∈ ps, p = a + headerSize ∧ (h.block a).free = false ∧ (h.block a).size = n := by
  obtain ⟨⟨a, v⟩, listed, free, at_, sizes⟩ := held
  obtain ⟨member, block⟩ := sound.mem_blockList.mp listed
  dsimp only at member block free at_ sizes
  subst block
  exact ⟨a, member, at_, free, sizes⟩

/-- Two allocated blocks share no byte. -/
theorem Sound.holds_apart (sound : Sound h ps) (held : h.Holds p m) (other : h.Holds q n)
    (ne : p ≠ q) : Disjoint (payload (p, m)) (payload (q, n)) := by
  obtain ⟨a, ha, rfl, -, rfl⟩ := sound.holds_block held
  obtain ⟨b, hb, rfl, -, rfl⟩ := sound.holds_block other
  have different : a ≠ b := fun same => ne (by rw [same])
  have start := payload_start sound.toLaid ha
  have start' := payload_start sound.toLaid hb
  have apart := sound.toLaid.apart ha hb different
  simp only [payload, Set.Ico_disjoint_Ico, start, start']
  omega

/-- What is allocated determines the block list. -/
theorem Sound.blockList_of_holds (sound : Sound h ps) (sound' : Sound h' qs)
    (same : ∀ p n, h.Holds p n ↔ h'.Holds p n) : h.blockList = h'.blockList := by
  have used {h : Heap} {ps : List Ptr} (sound : Sound h ps) (b : Block) :
      b ∈ h.usedBlocks ps ↔ b.free = false ∧ ∃ p n, h.Holds p n ∧
        b = ⟨(p - headerSize).toNat, n.toNat, false⟩ := by
    constructor
    · intro member
      obtain ⟨listed, free⟩ := mem_used.mp member
      obtain ⟨a, inside, rfl⟩ := List.mem_map.mp listed
      refine ⟨free, a + headerSize, (h.block a).size, ?_, ?_⟩
      · exact ⟨(a, h.block a), sound.mem_blockList.mpr ⟨inside, rfl⟩, free, rfl, rfl⟩
      · rw [UInt32.add_sub_cancel, ← show (h.block a).free = false from free]
        rfl
    · rintro ⟨-, p, n, held, rfl⟩
      exact sound.holds_iff.mp held
  apply sound.blockList_congr sound'
  apply sound.tiles.used_congr (by decide) sound'.tiles
  intro b
  rw [← Heap.usedBlocks, ← Heap.usedBlocks, used sound, used sound']
  simp only [same]

/-- With nothing allocated the heap is as `kmem_init` leaves it. -/
theorem Sound.blockList_empty (sound : Sound h ps) (nothing : ∀ p n, ¬ h.Holds p n) :
    h.blockList = kmemInit.blockList := by
  apply sound.blockList_of_holds sound_kmemInit
  intro p n
  apply iff_of_false (nothing p n)
  rw [sound_kmemInit.holds_iff]
  exact List.not_mem_nil

/-! ### The calls -/

/-- `kmalloc` returns, and NULL leaves the heap as it is. -/
theorem Sound.kmalloc_cases (sound : Sound h ps) (size : UInt32) :
    kmalloc h size = some (h, none) ∨
      ∃ h' p n, kmalloc h size = some (h', some p) ∧ (∃ qs, Sound h' qs) ∧ align8 size ≤ n ∧
        (∀ m, ¬ h.Holds p m) ∧ ∀ q m, h'.Holds q m ↔ h.Holds q m ∨ q = p ∧ m = n := by
  rcases kmalloc_spec sound size with
    ⟨null, -⟩ | ⟨-, h', qs, l₁, l₂, a, given, sound', member, large, -, taken, before, after, -⟩
  · exact .inl null
  right
  refine ⟨h', a + headerSize, (h'.block a).size, given, ⟨qs, sound'⟩, large, ?_, ?_⟩
  · -- two used blocks would have the address of `a`
    intro m held
    have used := sound.holds_iff.mp held
    have addrs := sound'.addrs_nodup
    rw [UInt32.add_sub_cancel, before] at used
    rw [after, List.map_append, List.map_cons] at addrs
    have twice := (List.nodup_middle.mp addrs).notMem
    rw [← List.map_append] at twice
    exact twice (List.mem_map.mpr ⟨_, used, rfl⟩)
  · intro q m
    rw [sound'.holds_iff, sound.holds_iff, before, after, List.mem_append, List.mem_cons,
      List.mem_append]
    have new : (⟨(q - headerSize).toNat, m.toNat, false⟩ : Block) = h'.view a ↔
        q = a + headerSize ∧ m = (h'.block a).size := by
      rw [Heap.view, taken, Block.mk.injEq, UInt32.toNat_inj, UInt32.toNat_inj]
      constructor
      · rintro ⟨rfl, rfl, -⟩
        rw [UInt32.sub_add_cancel]
        exact ⟨rfl, rfl⟩
      · rintro ⟨rfl, rfl⟩
        rw [UInt32.add_sub_cancel]
        exact ⟨rfl, rfl, rfl⟩
    rw [new]
    tauto

/-- The case of a pointer. -/
theorem Sound.kmalloc_some {size : UInt32} (sound : Sound h ps)
    (given : kmalloc h size = some (h', some p)) :
    ∃ n, (∃ qs, Sound h' qs) ∧ align8 size ≤ n ∧ (∀ m, ¬ h.Holds p m) ∧
      ∀ q m, h'.Holds q m ↔ h.Holds q m ∨ q = p ∧ m = n := by
  rcases sound.kmalloc_cases size with null | ⟨h₁, q, n, made, after, large, new, holds⟩
  · cases null.symm.trans given
  · cases made.symm.trans given
    exact ⟨n, after, large, new, holds⟩

/-- `kfree` of an allocated pointer takes it out. -/
theorem Sound.kfree_held (sound : Sound h ps) (held : h.Holds p n) :
    ∃ h', kfree h (some p) = some h' ∧ (∃ qs, Sound h' qs) ∧
      ∀ q m, h'.Holds q m ↔ h.Holds q m ∧ q ≠ p := by
  obtain ⟨a, member, rfl, used, -⟩ := sound.holds_block held
  obtain ⟨h', qs, freed, sound', after⟩ := kfree_spec sound member used
  refine ⟨h', freed, ⟨qs, sound'⟩, fun q m => ?_⟩
  have apart : (q - headerSize).toNat ≠ a.toNat ↔ q ≠ a + headerSize := by
    rw [ne_eq, UInt32.toNat_inj]
    apply not_congr
    constructor
    · rintro rfl
      rw [UInt32.sub_add_cancel]
    · rintro rfl
      rw [UInt32.add_sub_cancel]
  rw [sound'.holds_iff, sound.holds_iff, after, List.mem_filter, decide_eq_true_eq, apart]

end PicoOS.Mem
