import PicoOS.Mem.Layout

/-!
# What the calls do to the used blocks

`kmalloc` adds one used block and `kfree` takes one out; both leave the heap
tiled with no two free neighbours. Such a list is determined by its used blocks,
so nothing else has to be known about the free ones.
-/
namespace PicoOS.Mem

open Tiling

/-- The heap between two calls. -/
structure Sound (h : Heap) (ps : List Ptr) : Prop extends Laid h ps where
  merged : Merged (ps.map h.view)

/-- The used blocks of the list. -/
def Heap.usedBlocks (h : Heap) (ps : List Ptr) : List Block := used (ps.map h.view)

variable {h h' : Heap} {ps qs l l₁ l₂ : List Ptr} {a b p : Ptr} {size : UInt32}

/-! ### The canonical form -/

theorem Laid.blockList_eq (laid : Laid h ps) : h.blockList = ps.map fun p => (p, h.block p) := by
  rw [Heap.blockList, Chain.nodes_eq laid.path laid.length_le]

theorem Sound.addrs_nodup (sound : Sound h ps) : ((h.usedBlocks ps).map Block.addr).Nodup := by
  have addrs : ((ps.map h.view).map Block.addr).Nodup := by
    rw [List.map_map]
    exact sound.path.nodup.map fun _ _ => UInt32.toNat_inj.mp
  exact addrs.sublist (List.filter_sublist.map _)

/-- The used blocks determine the block list, with its links. -/
theorem Sound.blockList_congr (sound : Sound h ps) (sound' : Sound h' qs)
    (same : h.usedBlocks ps = h'.usedBlocks qs) : h.blockList = h'.blockList := by
  have views : ps.map h.view = qs.map h'.view :=
    sound.tiles.unique (by decide) sound'.tiles sound.merged sound'.merged same
  have inj : Function.Injective UInt32.toNat := fun _ _ => UInt32.toNat_inj.mp
  have nodes : ps = qs := by
    have := congrArg (List.map Block.addr) views
    simp only [List.map_map] at this
    exact List.map_injective_iff.mpr inj this
  subst nodes
  rw [sound.blockList_eq, sound'.blockList_eq]
  refine List.map_congr_left fun p member => ?_
  have view : h.view p = h'.view p := List.map_inj_left.mp views p member
  have next : h.next p = h'.next p := by
    obtain ⟨l₁, l₂, rfl⟩ := List.append_of_mem member
    have links {h} (s : Sound h (l₁ ++ p :: l₂)) : h.next p = l₂.head? := by
      obtain ⟨_, _, rfl, rest⟩ := Chain.path_append.mp s.path
      cases l₂ with
      | nil => exact rest
      | cons q l => exact rest.1
    exact (links sound).trans (links sound').symm
  obtain ⟨-, sizes, free⟩ := Block.mk.inj view
  rw [Prod.mk.injEq]
  refine ⟨rfl, ?_⟩
  cases left : h.block p
  cases right : h'.block p
  simp only [left, right, Heap.next, HeapBlock.mk.injEq] at next sizes free ⊢
  exact ⟨UInt32.toNat_inj.mp sizes, free, next⟩

/-! ### kmalloc -/

/-- `ALIGN8` rounds a sum that may wrap around down to a multiple of 8. -/
theorem align8_toNat (size : UInt32) :
    (align8 size).toNat = (size.toNat + 7) % 2 ^ 32 / 8 * 8 := by
  have mask : (~~~(7 : UInt32)).toNat = (2 ^ 29 - 1) <<< 3 := by decide
  rw [align8, UInt32.toNat_and, mask, UInt32.toNat_add, show UInt32.toNat 7 = 7 from rfl]
  have below : (size.toNat + 7) % 2 ^ 32 < 2 ^ 32 := Nat.mod_lt _ (by decide)
  generalize (size.toNat + 7) % 2 ^ 32 = n at below ⊢
  have shift : n / 8 * 8 = n >>> 3 <<< 3 := by
    rw [Nat.shiftRight_eq_div_pow, Nat.shiftLeft_eq]
  rw [shift]
  refine Nat.eq_of_testBit_eq fun i => ?_
  simp only [Nat.testBit_and, Nat.testBit_shiftLeft, Nat.testBit_shiftRight,
    Nat.testBit_two_pow_sub_one]
  by_cases low : 3 ≤ i
  · have back : 3 + (i - 3) = i := by omega
    by_cases high : i - 3 < 29
    · simp [low, high, back]
    · have out : n.testBit i = false :=
        Nat.testBit_lt_two_pow (lt_of_lt_of_le below
          (Nat.pow_le_pow_right (by decide) (by omega)))
      simp [back, out]
  · simp [low]

/-- `ALIGN8` rounds up as long as the sum does not wrap around. -/
theorem align8_of_fits (fits : size.toNat + 7 < 2 ^ 32) :
    (align8 size).toNat = (size.toNat + 7) / 8 * 8 := by
  rw [align8_toNat, Nat.mod_eq_of_lt fits]

/-- `kmalloc` returns; it finds no block, or takes one and adds it to the used blocks. -/
theorem kmalloc_spec (sound : Sound h ps) (size : UInt32) :
    (kmalloc h size = some (h, none) ∧
        (size = 0 ∨ ∀ p ∈ ps, (h.block p).free = true → (h.block p).size < align8 size)) ∨
      (size ≠ 0 ∧ ∃ h' qs l₁ l₂ a, kmalloc h size = some (h', some (a + headerSize)) ∧
        Sound h' qs ∧ a ∈ qs ∧ align8 size ≤ (h'.block a).size ∧
        (h'.block a).size.toNat < (align8 size).toNat + 48 ∧ (h'.block a).free = false ∧
        h.usedBlocks ps = l₁ ++ l₂ ∧ h'.usedBlocks qs = l₁ ++ h'.view a :: l₂ ∧
        ∃ p ∈ ps, (h.block p).free = true ∧ align8 size ≤ (h.block p).size) := by
  unfold kmalloc
  split
  next zero => exact .inl ⟨rfl, .inl zero⟩
  next positive =>
    dsimp only
    rw [Chain.first_eq sound.path _ sound.length_le]
    cases found : ps.find? fun blk => (h.block blk).free && align8 size ≤ (h.block blk).size with
    | none =>
      refine .inl ⟨rfl, .inr fun p member free => ?_⟩
      have unfit := List.find?_eq_none.mp found p member
      simpa [free] using unfit
    | some a =>
      right
      have inside := List.mem_of_find?_eq_some found
      obtain ⟨l₁, l₂, rfl⟩ := List.append_of_mem inside
      obtain ⟨free, fits⟩ : (h.block a).free = true ∧ align8 size ≤ (h.block a).size := by
        simpa using List.find?_some found
      have rounded := align8_toNat size
      obtain ⟨l₃, laid, merged, taken, large, close, before, after⟩ :=
        sound.toLaid.take sound.merged free fits (by omega)
      refine ⟨positive, _, l₁ ++ a :: l₃, used (l₁.map h.view), used (l₂.map h.view), a, rfl,
        ⟨laid, merged⟩, by simp, large, close, taken, ?_, ?_, a, inside, free, fits⟩
      · rw [Heap.usedBlocks, List.map_append, List.map_cons, used_append, used_cons, if_pos]
        exact free
      · rw [Heap.usedBlocks, List.map_append, List.map_cons, used_append, used_cons, if_neg,
          before, after]
        simp [Heap.view, taken]

/-! ### kfree -/

/-- The free blocks behind `a` are merged into it; the blocks before it stay as they are. -/
theorem coalesceForward_spec {fuel : Nat} (laid : Laid h (l₁ ++ a :: l₂))
    (after : Merged (l₂.map h.view)) (enough : l₂.length < fuel) :
    ∃ h' l₃, coalesceForward a fuel h = some h' ∧ Laid h' (l₁ ++ a :: l₃) ∧
      (h'.block a).free = (h.block a).free ∧ l₁.map h'.view = l₁.map h.view ∧
      used (l₃.map h'.view) = used (l₂.map h.view) ∧ Merged (l₃.map h'.view) ∧
      ∀ c ∈ (l₃.map h'.view).head?, c.free = false := by
  induction fuel generalizing h l₂ with
  | zero => cases enough
  | succ fuel ih =>
    have link : h.next a = l₂.head? := by
      obtain ⟨_, _, rfl, rest⟩ := Chain.path_append.mp laid.path
      cases l₂ with
      | nil => exact rest
      | cons q l => exact rest.1
    cases l₂ with
    | nil =>
      refine ⟨h, [], ?_, laid, rfl, rfl, rfl, after, by simp⟩
      simp [coalesceForward, link]
    | cons b l₂ =>
      simp only [coalesceForward, link, List.head?_cons]
      split
      next free =>
        obtain ⟨laid', kept⟩ := laid.merge
        obtain ⟨out₁, out₂⟩ := laid.split_notMem
        have out₂' : a ∉ l₂ := fun member => out₂ (by simp [member])
        have same₂ : l₂.map (mergeBlocks h a b).view = l₂.map h.view := map_view_setBlock h _ out₂'
        have same₁ : l₁.map (mergeBlocks h a b).view = l₁.map h.view := map_view_setBlock h _ out₁
        obtain ⟨h', l₃, ends, laid₃, free₃, before, rest, merged, head⟩ :=
          ih laid' (same₂ ▸ Merged.tail after) (by simpa using enough)
        refine ⟨h', l₃, ends, laid₃, free₃.trans kept, before.trans same₁, ?_, merged, head⟩
        rw [rest, same₂, List.map_cons, used_cons, if_pos (by exact free)]
      next used =>
        refine ⟨h, b :: l₂, rfl, laid, rfl, rfl, rfl, after, ?_⟩
        simpa [Heap.view] using used

/-- The walk stops at a node of the list with the node before it. -/
theorem predecessor_eq {fuel : Nat} {head prev : Option Ptr}
    (path : Chain.Path h.next head (l₁ ++ a :: l₂) none) (out : a ∉ l₁) (enough : l₁.length < fuel) :
    predecessor h a fuel prev head = some (l₁.getLast?.or prev) := by
  have walk : Chain.seek h.next a fuel prev head = some (some (l₁.getLast?.or prev)) :=
    Chain.seek_mem path out enough prev
  clear path out enough
  revert walk
  generalize l₁.getLast?.or prev = found
  induction fuel generalizing prev head with
  | zero => cases head <;> simp [Chain.seek]
  | succ fuel ih =>
    cases head with
    | none => simp [Chain.seek]
    | some cur =>
      simp only [Chain.seek, predecessor]
      split
      next => simp
      next => exact ih

/-- `kfree` of a used block takes it out of the used blocks. -/
theorem kfree_spec (sound : Sound h ps) (member : a ∈ ps) (inUse : (h.block a).free = false) :
    ∃ h' qs, kfree h (some (a + headerSize)) = some h' ∧ Sound h' qs ∧
      h'.usedBlocks qs = (h.usedBlocks ps).filter fun b => b.addr ≠ a.toNat := by
  obtain ⟨l₁, l₂, rfl⟩ := List.append_of_mem member
  obtain ⟨out₁, out₂⟩ := sound.split_notMem
  have merged := sound.merged
  rw [List.map_append, List.map_cons, merged_split] at merged
  -- Without the block, what is used is what was used before it and behind it.
  have rest : (h.usedBlocks (l₁ ++ a :: l₂)).filter (fun b => b.addr ≠ a.toNat) =
      used (l₁.map h.view) ++ used (l₂.map h.view) := by
    have others (l : List Ptr) (out : a ∉ l) :
        (used (l.map h.view)).filter (fun b => b.addr ≠ a.toNat) = used (l.map h.view) := by
      refine List.filter_eq_self.mpr fun b there => ?_
      obtain ⟨q, inside, rfl⟩ := List.mem_map.mp (mem_used.mp there).1
      have apart : q ≠ a := fun eq => out (eq ▸ inside)
      simpa [Heap.view, UInt32.toNat_inj] using apart
    rw [Heap.usedBlocks, List.map_append, List.map_cons, used_append, used_cons, if_neg,
      List.filter_append, List.filter_cons_of_neg, others l₁ out₁, others l₂ out₂]
    · simp [Heap.view]
    · simp [Heap.view, inUse]
  have laid := sound.setFree a true
  have same₂ := map_view_setBlock h { h.block a with free := true } out₂
  have same₁ := map_view_setBlock h { h.block a with free := true } out₁
  have short : l₂.length < maxBlocks := by
    have := sound.length_le
    simp only [List.length_append, List.length_cons] at this
    omega
  obtain ⟨h₁, l₃, forward, laid₁, free₁, before, behind, merged₃, head⟩ :=
    coalesceForward_spec laid (same₂ ▸ merged.2.1) short
  have walk : predecessor h₁ a maxBlocks none h₁.head = some (l₁.getLast?.or none) := by
    refine predecessor_eq laid₁.path out₁ ?_
    have := laid₁.length_le
    simp only [List.length_append, List.length_cons] at this
    omega
  have start : kfree h (some (a + headerSize)) = coalesceBackward h₁ a := by
    simp only [kfree, UInt32.add_sub_cancel, forward, Option.bind_some]
  rw [start, coalesceBackward, walk, rest]
  replace before := before.trans same₁
  replace behind := behind.trans (congrArg used same₂)
  rw [setBlock_self] at free₁
  rcases List.eq_nil_or_concat l₁ with rfl | ⟨l, p, rfl⟩
  · refine ⟨h₁, a :: l₃, rfl, ⟨laid₁, ?_⟩, ?_⟩
    · exact merged_cons.mpr ⟨merged₃, fun _ => head⟩
    · rw [Heap.usedBlocks, List.map_cons, used_cons, if_pos (by exact free₁), behind]
      rfl
  rw [List.concat_eq_append] at *
  simp only [List.getLast?_append, List.getLast?_singleton, Option.some_or, Option.map_some]
  have old := merged.1
  rw [← before, List.map_append, List.map_singleton] at old
  split
  next free =>
    -- The predecessor takes over the block and what was merged into it.
    rw [List.append_assoc, List.singleton_append] at laid₁
    obtain ⟨laid₂, kept⟩ := laid₁.merge
    obtain ⟨outL, outR⟩ := laid₁.split_notMem
    simp only [List.mem_cons, not_or] at outR
    have sameL : l.map (mergeBlocks h₁ p a).view = l.map h₁.view := map_view_setBlock h₁ _ outL
    have same₃ : l₃.map (mergeBlocks h₁ p a).view = l₃.map h₁.view := map_view_setBlock h₁ _ outR.2
    refine ⟨_, l ++ p :: l₃, rfl, ⟨laid₂, ?_⟩, ?_⟩
    · rw [List.map_append, List.map_cons, sameL, same₃]
      obtain ⟨first, -, edges⟩ := merged_split.mp old
      exact merged_split.mpr ⟨first, merged₃, fun _ => ⟨(edges free).1, head⟩⟩
    · rw [Heap.usedBlocks, List.map_append, List.map_cons, used_append, used_cons,
        if_pos (by exact kept.trans free), sameL, same₃, ← before, ← behind, List.map_append,
        List.map_singleton, used_append, used_cons, if_pos (by exact free), used_nil,
        List.append_nil]
  next taken =>
    refine ⟨h₁, _, rfl, ⟨laid₁, ?_⟩, ?_⟩
    · rw [List.map_append, List.map_cons, List.map_append, List.map_singleton]
      refine merged_split.mpr ⟨old, merged₃, fun _ => ⟨fun c last => ?_, head⟩⟩
      rw [List.getLast?_append, List.getLast?_singleton] at last
      cases last
      simpa [Heap.view] using taken
    · rw [Heap.usedBlocks, List.map_append, List.map_cons, used_append, used_cons,
        if_pos (by exact free₁), before, behind]

end PicoOS.Mem
