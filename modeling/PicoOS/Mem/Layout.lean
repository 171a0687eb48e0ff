import PicoOS.Lib.Tiling
import PicoOS.Mem.Heap

/-!
# The layout of the heap

The block list tiles `heap_memory`. One lemma for each way `mem.c` rewrites
headers: a block is taken, whole or split, and two neighbours are merged. What
`kmalloc` and `kfree` do to the used blocks then fixes the whole list.
-/
namespace PicoOS.Mem

open Tiling

/-- A header as a block of the tiling. -/
def Heap.view (h : Heap) (p : Ptr) : Block := ⟨p.toNat, (h.block p).size.toNat, (h.block p).free⟩

/-- The block list visits `ps`, which tile the heap. -/
structure Laid (h : Heap) (ps : List Ptr) : Prop where
  path : Chain.Path h.next h.head ps none
  tiles : Tiles headerSize.toNat 0 (ps.map h.view) heapSize.toNat
  aligned : ∀ p ∈ ps, p.toNat % 8 = 0 ∧ (h.block p).size.toNat % 8 = 0

variable {h h' : Heap} {ps l l₁ l₂ : List Ptr} {a b p : Ptr} {v : HeapBlock}

theorem header_toNat : headerSize.toNat = 16 := rfl

theorem heapSize_toNat : heapSize.toNat = 65536 := rfl

/-! ### Header writes -/

@[simp] theorem setBlock_head (h : Heap) (p : Ptr) (v : HeapBlock) : (h.setBlock p v).head = h.head :=
  rfl

@[simp] theorem setBlock_self (h : Heap) (p : Ptr) (v : HeapBlock) : (h.setBlock p v).block p = v := by
  simp [Heap.setBlock]

theorem setBlock_of_ne (h : Heap) (v : HeapBlock) (apart : b ≠ a) :
    (h.setBlock a v).block b = h.block b := by
  simp [Heap.setBlock, apart]

theorem setBlock_next (h : Heap) (p : Ptr) (v : HeapBlock) :
    (h.setBlock p v).next = Function.update h.next p v.next := by
  funext q
  by_cases eq : q = p
  · subst eq
    simp [Heap.next]
  · simp [Heap.next, setBlock_of_ne, eq]

theorem map_view_setBlock (h : Heap) (v : HeapBlock) (out : p ∉ l) :
    l.map (h.setBlock p v).view = l.map h.view := by
  refine List.map_congr_left fun q member => ?_
  have apart : q ≠ p := fun eq => out (eq ▸ member)
  rw [Heap.view, setBlock_of_ne h v apart, Heap.view]

namespace Laid

theorem length_le (laid : Laid h ps) : ps.length ≤ maxBlocks := by
  have := laid.tiles.length_mul_le
  rw [List.length_map, header_toNat, heapSize_toNat] at this
  show ps.length ≤ 4096
  omega

/-- A node of the list is not among those before and after it. -/
theorem split_notMem (laid : Laid h (l₁ ++ p :: l₂)) : p ∉ l₁ ∧ p ∉ l₂ := by
  have nodup := laid.path.nodup
  simp only [List.nodup_append, List.nodup_cons] at nodup
  exact ⟨fun member => nodup.2.2 p member p (by simp) rfl, nodup.2.1.1⟩

/-- A block ends inside the heap. -/
theorem bounds (laid : Laid h ps) (member : p ∈ ps) :
    p.toNat + 16 + (h.block p).size.toNat ≤ 65536 := by
  have := (laid.tiles.bounds (List.mem_map_of_mem member)).2
  simpa [Heap.view, header_toNat, heapSize_toNat] using this

/-- The block of another node lies before or behind. -/
theorem apart (laid : Laid h ps) (ha : a ∈ ps) (hb : b ∈ ps) (ne : a ≠ b) :
    a.toNat + 16 + (h.block a).size.toNat ≤ b.toNat ∨
      b.toNat + 16 + (h.block b).size.toNat ≤ a.toNat := by
  rcases laid.tiles.apart (List.mem_map_of_mem ha) (List.mem_map_of_mem hb) with same | before
  · exact absurd (UInt32.toNat_inj.mp (congrArg Block.addr same)) ne
  · simpa [Heap.view, header_toNat] using before

/-- A write of one header that keeps its size and its link. -/
theorem setFree (laid : Laid h ps) (p : Ptr) (free : Bool) :
    Laid (h.setBlock p { h.block p with free := free }) ps := by
  have block (q) : ((h.setBlock p { h.block p with free := free }).block q).size = (h.block q).size ∧
      ((h.setBlock p { h.block p with free := free }).block q).next = (h.block q).next := by
    by_cases eq : q = p
    · subst eq
      simp
    · simp [setBlock_of_ne h _ eq]
  refine ⟨laid.path.congr fun q _ => (block q).2, ?_, fun q member => ?_⟩
  · -- The tiling does not look at `free`.
    have tiles := laid.tiles
    generalize (0 : Nat) = s at tiles ⊢
    clear laid
    induction ps generalizing s with
    | nil => exact tiles
    | cons q ps ih =>
      refine ⟨tiles.1, ?_⟩
      rw [show (Heap.view _ q).size = (h.view q).size from congrArg UInt32.toNat (block q).1]
      exact ih _ tiles.2
  · rw [(block q).1]
    exact laid.aligned q member

/-- `a` takes over the block after it. -/
theorem merge (laid : Laid h (l₁ ++ a :: b :: l₂)) :
    Laid (mergeBlocks h a b) (l₁ ++ a :: l₂) ∧
      ((mergeBlocks h a b).block a).free = (h.block a).free := by
  have outA := laid.split_notMem
  simp only [List.mem_cons, not_or] at outA
  obtain ⟨out₁, apart, out₂⟩ := outA
  have room := laid.bounds (p := b) (by simp)
  have next : b.toNat = a.toNat + 16 + (h.block a).size.toNat := by
    have := laid.tiles
    rw [List.map_append, List.map_cons, tiles_split] at this
    exact this.2.1
  have size : ((h.block a).size + (headerSize + (h.block b).size)).toNat =
      (h.block a).size.toNat + 16 + (h.block b).size.toNat := by
    simp only [UInt32.toNat_add, header_toNat]
    omega
  refine ⟨⟨?_, ?_, fun p member => ?_⟩, by simp [mergeBlocks]⟩
  · rw [mergeBlocks, setBlock_next, setBlock_head]
    obtain ⟨m, before, rfl, link, rest⟩ := Chain.path_append.mp laid.path
    refine Chain.path_append.mpr ⟨some a, before.update out₁ _, rfl, ?_⟩
    rw [Function.update_self]
    exact rest.update out₂ _
  · have tiles := laid.tiles
    rw [mergeBlocks, List.map_append, List.map_cons, map_view_setBlock h _ out₁,
      map_view_setBlock h _ out₂]
    rw [List.map_append, List.map_cons, List.map_cons] at tiles
    refine tiles.join rfl ?_
    simp [Heap.view, size, header_toNat]
  · have sizes := laid.aligned
    by_cases eq : p = a
    · subst eq
      have mine := sizes p (by simp)
      have theirs := sizes b (by simp)
      refine ⟨mine.1, ?_⟩
      rw [mergeBlocks, setBlock_self, size]
      omega
    · rw [mergeBlocks, setBlock_of_ne h _ eq]
      refine sizes p ?_
      simp only [List.mem_append, List.mem_cons] at member ⊢
      tauto

/-- The free block `a` is taken, whole or split. -/
theorem take (laid : Laid h (l₁ ++ a :: l₂)) (merged : Merged ((l₁ ++ a :: l₂).map h.view))
    (free : (h.block a).free = true) {size : UInt32} (fits : size ≤ (h.block a).size)
    (aligned : size.toNat % 8 = 0) :
    ∃ l₃, Laid (takeBlock h a size) (l₁ ++ a :: l₃) ∧
      Merged ((l₁ ++ a :: l₃).map (takeBlock h a size).view) ∧
      ((takeBlock h a size).block a).free = false ∧ size ≤ ((takeBlock h a size).block a).size ∧
      ((takeBlock h a size).block a).size.toNat < size.toNat + 48 ∧
      l₁.map (takeBlock h a size).view = l₁.map h.view ∧
      used (l₃.map (takeBlock h a size).view) = used (l₂.map h.view) := by
  obtain ⟨out₁, out₂⟩ := laid.split_notMem
  rw [UInt32.le_iff_toNat_le] at fits
  have leftover : ((h.block a).size - size).toNat = (h.block a).size.toNat - size.toNat :=
    UInt32.toNat_sub_of_le _ _ (UInt32.le_iff_toNat_le.mpr fits)
  unfold takeBlock
  dsimp only
  split
  next large =>
    have large : 48 ≤ (h.block a).size.toNat - size.toNat := by
      rw [UInt32.le_iff_toNat_le, leftover] at large
      exact large
    have room := laid.bounds (p := a) (by simp)
    generalize newBlk : a + headerSize + size = n
    have at_ : n.toNat = a.toNat + 16 + size.toNat := by
      subst newBlk
      simp only [UInt32.toNat_add, header_toNat]
      omega
    have rest : ((h.block a).size - size - headerSize).toNat =
        (h.block a).size.toNat - size.toNat - 16 := by
      rw [UInt32.toNat_sub_of_le, leftover, header_toNat]
      rw [UInt32.le_iff_toNat_le, leftover, header_toNat]
      omega
    -- The new header lies in the payload of `a`, where no header of the list is.
    have fresh : n ∉ l₁ ++ a :: l₂ := fun member => by
      have ne : n ≠ a := fun eq => by
        subst eq
        omega
      have := laid.apart member (b := a) (by simp) ne
      omega
    simp only [List.mem_append, List.mem_cons, not_or] at fresh
    obtain ⟨fresh₁, ne, fresh₂⟩ := fresh
    refine ⟨n :: l₂, ⟨?_, ?_, fun p member => ?_⟩, ?_, by simp, ?_, by simp, ?_, ?_⟩
    · obtain ⟨m, before, rfl, after⟩ := Chain.path_append.mp laid.path
      rw [setBlock_next, setBlock_next, setBlock_head, setBlock_head]
      refine Chain.path_append.mpr
        ⟨some a, (before.update fresh₁ _).update out₁ _, rfl, by simp, ?_⟩
      simp only [Function.update_of_ne ne, Function.update_self]
      exact (after.update fresh₂ _).update out₂ _
    · have tiles := laid.tiles
      rw [List.map_append, List.map_cons, tiles_split] at tiles
      rw [List.map_append, List.map_cons, List.map_cons, map_view_setBlock _ _ out₁,
        map_view_setBlock _ _ fresh₁, map_view_setBlock _ _ out₂, map_view_setBlock _ _ fresh₂]
      refine tiles_split.mpr ⟨tiles.1, ?_, ?_⟩
      · simp [Heap.view, at_, header_toNat]
      · convert tiles.2 using 1
        simp only [Heap.view, setBlock_self, setBlock_of_ne _ _ ne, rest, header_toNat]
        omega
    · have sizes := laid.aligned a (by simp)
      by_cases eqA : p = a
      · subst eqA
        simpa using ⟨sizes.1, aligned⟩
      · by_cases eqN : p = n
        · subst eqN
          rw [setBlock_of_ne _ _ ne, setBlock_self]
          dsimp only
          rw [rest, at_]
          omega
        · rw [setBlock_of_ne _ _ eqA, setBlock_of_ne _ _ eqN]
          refine laid.aligned p ?_
          simp only [List.mem_append, List.mem_cons] at member ⊢
          tauto
    · rw [List.map_append, List.map_cons] at merged
      rw [List.map_append, List.map_cons, List.map_cons, map_view_setBlock _ _ out₁,
        map_view_setBlock _ _ fresh₁, map_view_setBlock _ _ out₂, map_view_setBlock _ _ fresh₂]
      exact merged.carve free (by simp [Heap.view]) _
    · simp
    · rw [map_view_setBlock _ _ out₁, map_view_setBlock _ _ fresh₁]
    · rw [List.map_cons, used_cons, if_pos, map_view_setBlock _ _ out₂, map_view_setBlock _ _ fresh₂]
      simp [Heap.view, setBlock_of_ne _ _ ne]
  next close =>
    refine ⟨l₂, laid.setFree a false, ?_, by simp, ?_, ?_, map_view_setBlock _ _ out₁, ?_⟩
    · rw [List.map_append, List.map_cons] at merged
      rw [List.map_append, List.map_cons, map_view_setBlock _ _ out₁, map_view_setBlock _ _ out₂]
      exact merged.take (by simp [Heap.view])
    · simpa [UInt32.le_iff_toNat_le] using fits
    · rw [UInt32.le_iff_toNat_le, leftover] at close
      have threshold : (headerSize + splitThreshold).toNat = 48 := rfl
      rw [setBlock_self]
      dsimp only
      omega
    · rw [map_view_setBlock _ _ out₂]

end Laid

end PicoOS.Mem
