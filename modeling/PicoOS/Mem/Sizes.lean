import Mathlib
import PicoOS.Mem.Run

/-!
# Sizes

What `kmalloc` promises about the size of a block, and what `kmem_stats` says
about the sizes of all of them.
-/
namespace PicoOS.Mem

open Tiling

variable {s : Client} {h : Heap} {ps : List Ptr} {size : UInt32}

/-! ### The size of a block -/

/-- `kmalloc` returns NULL and leaves the heap, or a block that is as large as was asked for; and
it returns a block exactly when some free one is as large as the size rounded up to 8. -/
structure Promise (h : Heap) (size : UInt32) : Prop where
  returns : (kmalloc h size).isSome = true
  unchanged : ∀ h', kmalloc h size = some (h', none) → h' = h
  room : ∀ h' p, kmalloc h size = some (h', some p) →
    size.toNat ≤ (h'.block (p - headerSize)).size.toNat
  found : (∃ h' p, kmalloc h size = some (h', some p)) ↔
    0 < size.toNat ∧ ∃ b ∈ h.blockList, b.2.free = true ∧ (size.toNat + 7) / 8 * 8 ≤ b.2.size.toNat

/-- A free block of the list. -/
theorem Sound.mem_blockList (sound : Sound h ps) {b : Ptr × HeapBlock} :
    b ∈ h.blockList ↔ b.1 ∈ ps ∧ b.2 = h.block b.1 := by
  rw [sound.toLaid.blockList_eq, List.mem_map]
  constructor
  · rintro ⟨p, member, rfl⟩
    exact ⟨member, rfl⟩
  · rintro ⟨member, block⟩
    exact ⟨b.1, member, by rw [← block]⟩

/-- NULL keeps the promise where no free block is large enough. -/
theorem Promise.of_null (null : kmalloc h size = some (h, none))
    (none_fits : ¬ (0 < size.toNat ∧
      ∃ b ∈ h.blockList, b.2.free = true ∧ (size.toNat + 7) / 8 * 8 ≤ b.2.size.toNat)) :
    Promise h size := by
  constructor
  · rw [null]
    rfl
  · intro h' same
    rw [null] at same
    cases same
    rfl
  · intro h' p given
    rw [null] at given
    cases given
  · constructor
    · rintro ⟨h', p, given⟩
      rw [null] at given
      cases given
    · intro fits
      exact absurd fits none_fits

/-- Up to the last size that rounds up without wrapping around, the promise is kept. -/
theorem Sound.promise (sound : Sound h ps) (fits : size.toNat + 7 < 2 ^ 32) : Promise h size := by
  have rounded := align8_of_fits fits
  have enough {v : HeapBlock} (large : align8 size ≤ v.size) :
      (size.toNat + 7) / 8 * 8 ≤ v.size.toNat := by
    rw [← rounded]
    exact UInt32.le_iff_toNat_le.mp large
  rcases kmalloc_spec sound size with
    ⟨null, unfit⟩ | ⟨positive, h', qs, -, -, a, given, -, -, large, -, -, -, -, p, member, free, fit⟩
  · apply Promise.of_null null
    rintro ⟨positive, b, member, free, large⟩
    obtain ⟨inside, block⟩ := sound.mem_blockList.mp member
    rcases unfit with rfl | small
    · exact absurd positive (lt_irrefl 0)
    · rw [block] at free large
      have less := UInt32.lt_iff_toNat_lt.mp (small b.1 inside free)
      omega
  · constructor
    · rw [given]
      rfl
    · intro h' null
      rw [given] at null
      cases null
    · intro h'' q got
      rw [given] at got
      cases got
      rw [UInt32.add_sub_cancel]
      have := enough large
      omega
    · constructor
      · intro _
        refine ⟨Nat.pos_of_ne_zero fun zero => positive (UInt32.toNat_inj.mp zero), ?_⟩
        exact ⟨(p, h.block p), sound.mem_blockList.mpr ⟨member, rfl⟩, free, enough fit⟩
      · intro _
        exact ⟨h', a + headerSize, given⟩

/-- With no free block there is nothing to promise. -/
theorem Sound.promise_full (sound : Sound h ps) (full : ∀ b ∈ h.blockList, b.2.free = false) :
    Promise h size := by
  have used {p : Ptr} (member : p ∈ ps) : (h.block p).free = false :=
    full (p, h.block p) (sound.mem_blockList.mpr ⟨member, rfl⟩)
  rcases kmalloc_spec sound size with
    ⟨null, -⟩ | ⟨-, h', qs, -, -, a, -, -, -, -, -, -, -, -, p, member, free, -⟩
  · apply Promise.of_null null
    rintro ⟨-, b, member, free, -⟩
    rw [full b member] at free
    cases free
  · rw [used member] at free
    cases free

/-- A size that wraps around to 0 is given a block that cannot hold it. -/
theorem Sound.not_promise (sound : Sound h ps) (wraps : 2 ^ 32 ≤ size.toNat + 7)
    {b : Ptr × HeapBlock} (member : b ∈ h.blockList) (free : b.2.free = true) :
    ¬ Promise h size := by
  intro promise
  obtain ⟨inside, block⟩ := sound.mem_blockList.mp member
  have size_lt := size.toNat_lt
  have zero : (align8 size).toNat = 0 := by
    rw [align8_toNat]
    omega
  rw [block] at free
  rcases kmalloc_spec sound size with
    ⟨-, unfit⟩ | ⟨-, h', qs, -, -, a, given, sound', there, -, -, -, -, -, -⟩
  · rcases unfit with rfl | small
    · exact absurd wraps (by decide)
    · have less := UInt32.lt_iff_toNat_lt.mp (small b.1 inside free)
      omega
  · have room := promise.room h' (a + headerSize) given
    rw [UInt32.add_sub_cancel] at room
    have bound := sound'.toLaid.bounds there
    omega

/-- After any run of calls `kmalloc` keeps its promise for every size up to 2³² - 8, and for the
sizes above it only when no block is free. -/
theorem kmalloc_promise_iff (ls : List Call)
    (owned : Run.Along Client.step Client.owned Client.init ls) (size : UInt32) :
    Promise (Run.exec Client.step Client.init ls).heap size ↔
      size.toNat ≤ 2 ^ 32 - 8 ∨
        ∀ b ∈ (Run.exec Client.step Client.init ls).heap.blockList, b.2.free = false := by
  obtain ⟨ps, inv⟩ := Client.Inv.run_owned owned
  constructor
  · intro promise
    by_cases fits : size.toNat ≤ 2 ^ 32 - 8
    · exact .inl fits
    · right
      intro b member
      by_contra free
      exact inv.sound.not_promise (by omega) member (by simpa using free) promise
  · rintro (fits | full)
    · exact inv.sound.promise (by omega)
    · exact inv.sound.promise_full full

/-- One block of a hundred bytes is taken. -/
theorem kmalloc_promise_hundred :
    Promise (Run.exec Client.step Client.init [.kmalloc 100]).heap 200 ↔
      UInt32.toNat 200 ≤ 2 ^ 32 - 8 ∨
        ∀ b ∈ (Run.exec Client.step Client.init [.kmalloc 100]).heap.blockList, b.2.free = false :=
  kmalloc_promise_iff [.kmalloc 100] (by decide) 200

/-- The whole heap is free and 2³² - 1 bytes are asked for. -/
theorem kmalloc_wraps : ¬ Promise kmemInit 0xFFFFFFFF := by
  have given : kmalloc kmemInit 0xFFFFFFFF = some (takeBlock kmemInit 0 0, some 16) := by rfl
  intro promise
  have room := promise.room _ _ given
  have small : ((takeBlock kmemInit 0 0).block (16 - headerSize)).size = 0 := by decide +kernel
  rw [small] at room
  exact absurd room (by decide)

/-! ### The accounts -/

/-- The loop of `kmem_stats`: `total_used`, `total_free` and `largest_free`. -/
def statsLoop (h : Heap) : Nat → Option Ptr → UInt32 × UInt32 × UInt32 →
    Option (UInt32 × UInt32 × UInt32)
  | _, none, totals => some totals
  | 0, some _, _ => none
  | fuel + 1, some blk, (totalUsed, totalFree, largestFree) =>
    let v := h.block blk
    let blockTotal := headerSize + v.size
    if v.free then
      statsLoop h fuel v.next
        (totalUsed, totalFree + blockTotal, if v.size > largestFree then v.size else largestFree)
    else
      statsLoop h fuel v.next (totalUsed + blockTotal, totalFree, largestFree)

/-- `kmem_stats`: `used`, `free_bytes` and `largest`. -/
def kmemStats (h : Heap) : Option (UInt32 × UInt32 × UInt32) :=
  statsLoop h maxBlocks h.head (0, 0, 0)

/-- A block with its header. -/
def totalSize (b : Block) : Nat := headerSize.toNat + b.size

/-- What the loop adds up over the blocks of a list. -/
theorem statsLoop_spec {l : List Ptr} {start : Option Ptr} (path : Chain.Path h.next start l none)
    {fuel : Nat} (enough : l.length ≤ fuel) {u f m : UInt32}
    (room : u.toNat + f.toNat + ((l.map h.view).map totalSize).sum ≤ heapSize.toNat) :
    ∃ u' f' m', statsLoop h fuel start (u, f, m) = some (u', f', m') ∧
      u'.toNat = u.toNat + ((used (l.map h.view)).map totalSize).sum ∧
      u'.toNat + f'.toNat = u.toNat + f.toNat + ((l.map h.view).map totalSize).sum ∧
      (∀ p ∈ l, (h.block p).free = true → (h.block p).size ≤ m') ∧ m ≤ m' ∧
      (m' = m ∨ ∃ p ∈ l, (h.block p).free = true ∧ (h.block p).size = m') := by
  induction l generalizing start fuel u f m with
  | nil =>
    cases path
    refine ⟨u, f, m, ?_, ?_, ?_, ?_⟩
    · cases fuel <;> rfl
    · rfl
    · rfl
    · simp
  | cons p l ih =>
    obtain ⟨rfl, rest⟩ := path
    cases fuel with
    | zero => simp at enough
    | succ fuel =>
      have step : totalSize (h.view p) = 16 + (h.block p).size.toNat := rfl
      rw [List.map_cons, List.map_cons, List.sum_cons, step, heapSize_toNat] at room
      have block : (headerSize + (h.block p).size).toNat = 16 + (h.block p).size.toNat := by
        rw [UInt32.toNat_add, header_toNat]
        omega
      have enough' : l.length ≤ fuel := by simpa using enough
      rw [List.map_cons, List.map_cons, List.sum_cons, step, statsLoop]
      cases free : (h.block p).free with
      | true =>
        have sum : (f + (headerSize + (h.block p).size)).toNat =
            f.toNat + (16 + (h.block p).size.toNat) := by
          rw [UInt32.toNat_add, block]
          omega
        obtain ⟨u', f', m', ends, used_eq, total, large, grown, reached⟩ := ih rest enough'
          (u := u) (f := f + (headerSize + (h.block p).size))
          (m := if (h.block p).size > m then (h.block p).size else m)
          (by rw [sum, heapSize_toNat]; omega)
        rw [if_pos rfl]
        have here : (h.block p).size ≤ m' ∧ m ≤ m' := by
          split at grown
          · rename_i larger
            exact ⟨grown, UInt32.le_trans (UInt32.le_of_lt larger) grown⟩
          · rename_i smaller
            exact ⟨UInt32.le_trans (UInt32.not_lt.mp smaller) grown, grown⟩
        refine ⟨u', f', m', ends, ?_, ?_, ?_, here.2, ?_⟩
        · rw [used_cons, if_pos (show (h.view p).free = true from free), used_eq]
        · rw [total, sum]
          omega
        · intro q member is_free
          rcases List.mem_cons.mp member with rfl | later
          · exact here.1
          · exact large q later is_free
        · rcases reached with same | ⟨q, member, is_free, size⟩
          · split at same
            · exact .inr ⟨p, List.mem_cons_self, free, same.symm⟩
            · exact .inl same
          · exact .inr ⟨q, List.mem_cons_of_mem p member, is_free, size⟩
      | false =>
        have sum : (u + (headerSize + (h.block p).size)).toNat =
            u.toNat + (16 + (h.block p).size.toNat) := by
          rw [UInt32.toNat_add, block]
          omega
        obtain ⟨u', f', m', ends, used_eq, total, large, grown, reached⟩ := ih rest enough'
          (u := u + (headerSize + (h.block p).size)) (f := f) (m := m)
          (by rw [sum, heapSize_toNat]; omega)
        rw [if_neg (by decide)]
        have taken : ¬ (h.view p).free = true := by simp [Heap.view, free]
        refine ⟨u', f', m', ends, ?_, ?_, ?_, grown, ?_⟩
        · rw [used_cons, if_neg taken, used_eq, sum, List.map_cons, List.sum_cons, step]
          omega
        · rw [total, sum]
          omega
        · intro q member is_free
          rcases List.mem_cons.mp member with rfl | later
          · rw [free] at is_free
            cases is_free
          · exact large q later is_free
        · rcases reached with same | ⟨q, member, is_free, size⟩
          · exact .inl same
          · exact .inr ⟨q, List.mem_cons_of_mem p member, is_free, size⟩

/-- `kmem_stats` returns the bytes in use, those that are free and the largest free block. -/
theorem Sound.kmemStats_spec (sound : Sound h ps) :
    ∃ usedBytes freeBytes largest, kmemStats h = some (usedBytes, freeBytes, largest) ∧
      usedBytes.toNat + freeBytes.toNat = heapSize.toNat ∧
      usedBytes.toNat = ((h.usedBlocks ps).map totalSize).sum ∧
      (∀ p ∈ ps, (h.block p).free = true → (h.block p).size ≤ largest) ∧
      (largest = 0 ∨ ∃ p ∈ ps, (h.block p).free = true ∧ (h.block p).size = largest) := by
  have whole : ((ps.map h.view).map totalSize).sum = heapSize.toNat := by
    rw [← sound.tiles.sum_eq, Nat.zero_add]
    rfl
  obtain ⟨u, f, m, ends, used_eq, total, large, -, reached⟩ :=
    statsLoop_spec sound.path sound.toLaid.length_le (u := 0) (f := 0) (m := 0)
      (by rw [whole]; simp)
  refine ⟨u, f, m, ends, ?_, ?_, large, reached⟩
  · rw [total, whole]
    simp
  · rw [used_eq, Heap.usedBlocks]
    simp

/-- `largest` is where `kmalloc` begins to fail. -/
theorem Sound.largest_threshold (sound : Sound h ps) {largest : UInt32}
    (bound : ∀ p ∈ ps, (h.block p).free = true → (h.block p).size ≤ largest)
    (reached : largest = 0 ∨ ∃ p ∈ ps, (h.block p).free = true ∧ (h.block p).size = largest)
    (positive : 0 < size) (small : size ≤ heapSize) :
    (∃ h' p, kmalloc h size = some (h', some p)) ↔ size ≤ largest := by
  have size_le : size.toNat ≤ 65536 := UInt32.le_iff_toNat_le.mp small
  rw [(sound.promise (by omega)).found]
  constructor
  · rintro ⟨-, b, member, free, large⟩
    obtain ⟨inside, block⟩ := sound.mem_blockList.mp member
    rw [block] at free large
    have below := UInt32.le_iff_toNat_le.mp (bound b.1 inside free)
    rw [UInt32.le_iff_toNat_le]
    omega
  · intro within
    have within_nat := UInt32.le_iff_toNat_le.mp within
    have positive_nat := UInt32.lt_iff_toNat_lt.mp positive
    rcases reached with rfl | ⟨p, inside, free, is_largest⟩
    · exact absurd within (UInt32.not_le.mpr positive)
    · refine ⟨positive_nat, (p, h.block p), sound.mem_blockList.mpr ⟨inside, rfl⟩, free, ?_⟩
      have aligned := (sound.aligned p inside).2
      rw [← is_largest] at within_nat
      dsimp only
      omega

/-- After any run of calls with sizes up to `HEAP_SIZE`: `used` and `free_bytes` add up to
`HEAP_SIZE`, `used` is what the live allocations take with their headers, each of them the rounded
request or less than a useful block more, and `kmalloc` succeeds exactly up to `largest`. -/
theorem kmem_stats_exact (ls : List Call)
    (ok : Run.Along Client.step Client.permits Client.init ls) :
    ∃ usedBytes freeBytes largest,
      kmemStats (Run.exec Client.step Client.init ls).heap =
        some (usedBytes, freeBytes, largest) ∧
      usedBytes.toNat + freeBytes.toNat = heapSize.toNat ∧
      usedBytes.toNat = ((Run.exec Client.step Client.init ls).live.map fun x =>
        headerSize.toNat + x.2.toNat).sum ∧
      (∀ n ≤ heapSize, ∀ h p, kmalloc (Run.exec Client.step Client.init ls).heap n = some (h, some p) →
        ∃ payload, (Run.exec Client.step Client.init (ls ++ [.kmalloc n])).live =
            (p, payload) :: (Run.exec Client.step Client.init ls).live ∧
          align8 n ≤ payload ∧ payload.toNat < (align8 n).toNat + (headerSize + splitThreshold).toNat) ∧
      ∀ n, 0 < n → n ≤ heapSize →
        ((∃ h p, kmalloc (Run.exec Client.step Client.init ls).heap n = some (h, some p)) ↔
          n ≤ largest) := by
  obtain ⟨ps, inv⟩ := Client.Inv.run ok
  simp only [Run.exec_append]
  generalize Run.exec Client.step Client.init ls = s at inv ⊢
  obtain ⟨usedBytes, freeBytes, largest, stats, total, used_eq, bound, reached⟩ :=
    inv.sound.kmemStats_spec
  refine ⟨usedBytes, freeBytes, largest, stats, total, ?_, ?_, ?_⟩
  · have live := (inv.live.map totalSize).sum_eq
    rw [used_eq, ← live, List.map_map]
    rfl
  · intro n _ h p given
    rcases kmalloc_spec inv.sound n with
      ⟨null, -⟩ | ⟨-, h', qs, -, -, a, given', -, -, large, close, -, -, -, -⟩
    · rw [given] at null
      cases null
    · rw [given] at given'
      cases given'
      refine ⟨(h.block a).size, ?_, large, close⟩
      simp only [Run.exec_cons, Run.exec_nil, Client.step, given, UInt32.add_sub_cancel]
  · intro n positive small
    exact inv.sound.largest_threshold bound reached positive small

/-- A freed block before a live one. -/
theorem kmem_stats_gap :
    ∃ usedBytes freeBytes largest,
      kmemStats (Run.exec Client.step Client.init
          [.kmalloc 100, .kmalloc 40, .kfree (some 16)]).heap =
        some (usedBytes, freeBytes, largest) ∧
      usedBytes.toNat + freeBytes.toNat = heapSize.toNat ∧
      usedBytes.toNat = ((Run.exec Client.step Client.init
          [.kmalloc 100, .kmalloc 40, .kfree (some 16)]).live.map fun x =>
        headerSize.toNat + x.2.toNat).sum ∧ usedBytes = 56 := by
  obtain ⟨u, f, m, stats, total, used_eq, -⟩ :=
    kmem_stats_exact [.kmalloc 100, .kmalloc 40, .kfree (some 16)] (by decide +kernel)
  refine ⟨u, f, m, stats, total, used_eq, UInt32.toNat_inj.mp ?_⟩
  rw [used_eq]
  decide +kernel

end PicoOS.Mem
