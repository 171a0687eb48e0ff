import Mathlib
import PicoOS.Lib.Run
import PicoOS.Mem.Calls

/-!
# Runs of the heap

Any sequence of calls from `kmem_init` on, with the pointers that are live. The
used blocks are exactly the live ones, and the heap is well formed throughout;
because the used blocks determine the list, the order of frees leaves no trace.
-/
namespace PicoOS.Mem

open Tiling

inductive Call where
  | kmalloc (size : UInt32)
  | kfree (ptr : Option Ptr)
  deriving DecidableEq

/-- The heap, and every live pointer with the payload size of its block when it was returned. -/
structure Client where
  heap : Heap
  live : List (Ptr × UInt32)

namespace Client

def init : Client := ⟨kmemInit, []⟩

/-- A call; nothing changes when it never returns. -/
def step (s : Client) : Call → Client
  | .kmalloc size =>
    match kmalloc s.heap size with
    | some (h, some p) => ⟨h, (p, (h.block (p - headerSize)).size) :: s.live⟩
    | some (h, none) => ⟨h, s.live⟩
    | none => s
  | .kfree ptr =>
    match kfree s.heap ptr with
    | some h => ⟨h, s.live.filter fun x => some x.1 ≠ ptr⟩
    | none => s

/-- Sizes up to `HEAP_SIZE`, and frees of NULL or a live pointer. -/
def permits (s : Client) : Call → Prop
  | .kmalloc size => size ≤ heapSize
  | .kfree none => True
  | .kfree (some p) => p ∈ s.live.map Prod.fst

/-- Any size, and frees of NULL or a live pointer. -/
def owned (s : Client) : Call → Prop
  | .kmalloc _ => True
  | .kfree none => True
  | .kfree (some p) => p ∈ s.live.map Prod.fst

theorem permits.owned {s : Client} {call : Call} (ok : s.permits call) : s.owned call := by
  match call with
  | .kmalloc _ => trivial
  | .kfree none => trivial
  | .kfree (some _) => exact ok

instance (s : Client) : ∀ call, Decidable (s.permits call)
  | .kmalloc size => inferInstanceAs (Decidable (size ≤ heapSize))
  | .kfree none => inferInstanceAs (Decidable True)
  | .kfree (some p) => inferInstanceAs (Decidable (p ∈ s.live.map Prod.fst))

instance (s : Client) : ∀ call, Decidable (s.owned call)
  | .kmalloc _ => inferInstanceAs (Decidable True)
  | .kfree none => inferInstanceAs (Decidable True)
  | .kfree (some p) => inferInstanceAs (Decidable (p ∈ s.live.map Prod.fst))

end Client

/-- The block of a live pointer. -/
def liveBlock (x : Ptr × UInt32) : Block := ⟨(x.1 - headerSize).toNat, x.2.toNat, false⟩

/-- The bytes of a live allocation. -/
def payload (x : Ptr × UInt32) : Set Nat := Set.Ico x.1.toNat (x.1.toNat + x.2.toNat)

/-- The bytes of a header. -/
def header (a : Ptr) : Set Nat := Set.Ico a.toNat (a.toNat + headerSize.toNat)

/-! ### The invariant -/

/-- The used blocks are the live ones. -/
structure Client.Inv (s : Client) (ps : List Ptr) : Prop where
  sound : Sound s.heap ps
  live : (s.live.map liveBlock).Perm (s.heap.usedBlocks ps)
  offset : ∀ x ∈ s.live, headerSize ≤ x.1

variable {s : Client} {ps : List Ptr} {x y : Ptr × UInt32}

theorem payload_start {h : Heap} {a : Ptr} (laid : Laid h ps) (member : a ∈ ps) :
    (a + headerSize).toNat = a.toNat + 16 := by
  have := laid.bounds member
  rw [UInt32.toNat_add, header_toNat]
  omega

theorem sound_kmemInit : Sound kmemInit [0] := by
  refine ⟨⟨⟨rfl, rfl⟩, by decide, fun p member => ?_⟩, List.isChain_singleton _⟩
  rw [List.mem_singleton] at member
  subst member
  decide

namespace Client.Inv

theorem init : Client.init.Inv [0] where
  sound := sound_kmemInit
  live := .refl _
  offset x member := by cases member

/-- The header of a live pointer. -/
theorem block (inv : s.Inv ps) (member : x ∈ s.live) :
    ∃ a ∈ ps, x.1 = a + headerSize ∧ s.heap.block a = ⟨x.2, false, s.heap.next a⟩ := by
  have used := (inv.live.mem_iff).mp (List.mem_map_of_mem member)
  obtain ⟨there, -⟩ := mem_used.mp used
  obtain ⟨a, inside, view⟩ := List.mem_map.mp there
  obtain ⟨addr, size, free⟩ := Block.mk.inj view
  have a_eq : a = x.1 - headerSize := UInt32.toNat_inj.mp addr
  refine ⟨a, inside, by rw [a_eq, UInt32.sub_add_cancel], ?_⟩
  cases v : s.heap.block a
  simp only [v, Heap.next, HeapBlock.mk.injEq] at size free ⊢
  exact ⟨UInt32.toNat_inj.mp size, free, trivial⟩

/-- Every used block is live. -/
theorem live_of_used (inv : s.Inv ps) {a : Ptr} (member : a ∈ ps)
    (used : (s.heap.block a).free = false) : (a + headerSize, (s.heap.block a).size) ∈ s.live := by
  have inUse : s.heap.view a ∈ s.heap.usedBlocks ps :=
    mem_used.mpr ⟨List.mem_map_of_mem member, used⟩
  obtain ⟨x, live, same⟩ := List.mem_map.mp (inv.live.mem_iff.mpr inUse)
  obtain ⟨addr, size, -⟩ := Block.mk.inj same
  have first : x.1 = a + headerSize := by
    rw [← UInt32.toNat_inj.mp addr, UInt32.sub_add_cancel]
  have second : x.2 = (s.heap.block a).size := UInt32.toNat_inj.mp size
  rw [← first, ← second]
  exact live

/-- The payloads of two live pointers share no byte. -/
theorem apart (inv : s.Inv ps) (hx : x ∈ s.live) (hy : y ∈ s.live) (ne : x.1 ≠ y.1) :
    Disjoint (payload x) (payload y) := by
  obtain ⟨a, ha, atA, blockA⟩ := inv.block hx
  obtain ⟨b, hb, atB, blockB⟩ := inv.block hy
  have start := payload_start inv.sound.toLaid ha
  have start' := payload_start inv.sound.toLaid hb
  have different : a ≠ b := by
    rintro rfl
    exact ne (atA.trans atB.symm)
  rw [payload, payload, Set.Ico_disjoint_Ico, atA, atB, start, start']
  have := inv.sound.toLaid.apart ha hb different
  rw [blockA, blockB] at this
  dsimp only at this
  omega

/-- A payload shares no byte with a header. -/
theorem headers (inv : s.Inv ps) (hx : x ∈ s.live) {b : Ptr} (hb : b ∈ ps) :
    Disjoint (payload x) (header b) := by
  obtain ⟨a, ha, atA, blockA⟩ := inv.block hx
  have start := payload_start inv.sound.toLaid ha
  rw [payload, header, Set.Ico_disjoint_Ico, atA, start, header_toNat]
  by_cases same : a = b
  · subst same
    omega
  · have := inv.sound.toLaid.apart ha hb same
    rw [blockA] at this
    dsimp only at this
    omega

/-- No pointer is live twice. -/
theorem distinct (inv : s.Inv ps) : (s.live.map Prod.fst).Nodup := by
  have nodup := (inv.live.map Block.addr).nodup_iff.mpr inv.sound.addrs_nodup
  rw [List.map_map] at nodup
  refine List.Nodup.of_map (fun p => (p - headerSize).toNat) ?_
  rw [List.map_map]
  exact nodup

theorem kmalloc_step (inv : s.Inv ps) (size : UInt32) :
    (kmalloc s.heap size).isSome = true ∧ ∃ qs, (s.step (.kmalloc size)).Inv qs := by
  rcases kmalloc_spec inv.sound size with
    ⟨none, -⟩ | ⟨-, h', qs, l₁, l₂, a, found, sound, member, -, -, taken, before, after, -⟩
  · refine ⟨by simp [none], ps, ?_⟩
    simpa only [Client.step, none] using inv
  · refine ⟨by simp [found], qs, ?_⟩
    have start := payload_start sound.toLaid member
    simp only [Client.step, found, UInt32.add_sub_cancel]
    refine ⟨sound, ?_, fun x there => ?_⟩
    · rw [List.map_cons, after]
      have new : liveBlock (a + headerSize, (h'.block a).size) = h'.view a := by
        simp [liveBlock, Heap.view, taken]
      rw [new]
      exact ((inv.live.trans (.of_eq before)).cons _).trans List.perm_middle.symm
    · rcases List.mem_cons.mp there with rfl | old
      · rw [UInt32.le_iff_toNat_le, start, header_toNat]
        omega
      · exact inv.offset x old

theorem kfree_step (inv : s.Inv ps) {p : Ptr} (live : p ∈ s.live.map Prod.fst) :
    (kfree s.heap (some p)).isSome = true ∧ ∃ qs, (s.step (.kfree (some p))).Inv qs := by
  obtain ⟨x, member, rfl⟩ := List.mem_map.mp live
  obtain ⟨a, inside, at_, block⟩ := inv.block member
  obtain ⟨h', qs, freed, sound, after⟩ := kfree_spec inv.sound inside (by rw [block])
  rw [at_, freed]
  refine ⟨rfl, qs, ?_⟩
  simp only [Client.step, freed]
  refine ⟨sound, ?_, fun y there => inv.offset y (List.mem_filter.mp there).1⟩
  rw [after]
  refine List.Perm.trans (.of_eq ?_) (inv.live.filter _)
  rw [List.filter_map]
  congr 1
  refine List.filter_congr fun y _ => ?_
  have same : (y.1 - headerSize).toNat = a.toNat ↔ y.1 = a + headerSize := by
    rw [UInt32.toNat_inj]
    exact ⟨fun eq => by rw [← eq, UInt32.sub_add_cancel],
      fun eq => by rw [eq, UInt32.add_sub_cancel]⟩
  simp [liveBlock, same]

theorem step (inv : ∃ ps, s.Inv ps) {call : Call} (ok : s.owned call) :
    ∃ ps, (s.step call).Inv ps := by
  obtain ⟨ps, inv⟩ := inv
  match call with
  | .kmalloc size => exact (inv.kmalloc_step size).2
  | .kfree none =>
    refine ⟨ps, ?_⟩
    have all : s.live.filter (fun x => some x.1 ≠ (none : Option Ptr)) = s.live := by simp
    simpa only [Client.step, kfree, all] using inv
  | .kfree (some p) => exact (inv.kfree_step ok).2

theorem run_owned {ls : List Call} (ok : Run.Along Client.step Client.owned Client.init ls) :
    ∃ ps, (Run.exec Client.step Client.init ls).Inv ps :=
  ok.invariant (I := fun s => ∃ ps, Client.Inv s ps) (fun _ _ inv ok => step inv ok) ⟨_, init⟩

theorem run {ls : List Call} (ok : Run.Along Client.step Client.permits Client.init ls) :
    ∃ ps, (Run.exec Client.step Client.init ls).Inv ps :=
  run_owned (ok.mono fun _ _ permitted => permitted.owned)

end Client.Inv

/-! ### Blocks with owners -/

/-- Each owner has a live pointer of its own, or none. -/
structure Owned {α : Type} (s : Client) (owns : α → Option Ptr) : Prop where
  inv : ∃ ps, s.Inv ps
  live : ∀ a p, owns a = some p → p ∈ s.live.map Prod.fst
  apart : ∀ a b p, owns a = some p → owns b = some p → a = b

namespace Owned

variable {α : Type} [DecidableEq α] {owns : α → Option Ptr} {h : Heap}

/-- The pointer that `kmalloc` returns goes to an owner that had none. -/
theorem kmalloc (own : Owned s owns) (a : α) {size : UInt32} {p : Ptr}
    (made : Mem.kmalloc s.heap size = some (h, some p)) :
    ∃ live, Owned ⟨h, live⟩ (Function.update owns a (some p)) := by
  obtain ⟨ps, inv⟩ := own.inv
  obtain ⟨_, qs, inv'⟩ := inv.kmalloc_step size
  have next : s.step (.kmalloc size) = ⟨h, (p, (h.block (p - headerSize)).size) :: s.live⟩ := by
    simp only [Client.step, made]
  rw [next] at inv'
  have fresh (b : α) : owns b ≠ some p := fun before =>
    (List.nodup_cons.mp inv'.distinct).1 (own.live b p before)
  refine ⟨_, ⟨qs, inv'⟩, fun b q now => ?_, fun b c q atB atC => ?_⟩
  · by_cases here : b = a
    · subst here
      rw [Function.update_self] at now
      cases now
      exact List.mem_cons_self
    · rw [Function.update_of_ne here] at now
      exact List.mem_cons_of_mem _ (own.live b q now)
  · by_cases hereB : b = a <;> by_cases hereC : c = a
    · rw [hereB, hereC]
    · subst hereB
      rw [Function.update_self] at atB
      rw [Function.update_of_ne hereC, ← atB] at atC
      exact absurd atC (fresh c)
    · subst hereC
      rw [Function.update_self] at atC
      rw [Function.update_of_ne hereB, ← atC] at atB
      exact absurd atB (fresh b)
    · rw [Function.update_of_ne hereB] at atB
      rw [Function.update_of_ne hereC] at atC
      exact own.apart b c q atB atC

/-- An owner gives back what it has. -/
theorem kfree (own : Owned s owns) (a : α) :
    ∃ h, Mem.kfree s.heap (owns a) = some h ∧
      ∃ live, Owned ⟨h, live⟩ (Function.update owns a none) := by
  obtain ⟨ps, inv⟩ := own.inv
  cases at_ : owns a with
  | none =>
    have same : Function.update owns a none = owns := by rw [← at_, Function.update_eq_self]
    rw [same]
    exact ⟨s.heap, rfl, s.live, own⟩
  | some p =>
    obtain ⟨returns, qs, inv'⟩ := inv.kfree_step (own.live a p at_)
    obtain ⟨h, freed⟩ := Option.isSome_iff_exists.mp returns
    simp only [Client.step, freed] at inv'
    refine ⟨h, freed, _, ⟨qs, inv'⟩, fun b q now => ?_, fun b c q atB atC => ?_⟩
    · have other : b ≠ a := by
        rintro rfl
        rw [Function.update_self] at now
        cases now
      rw [Function.update_of_ne other] at now
      obtain ⟨x, member, rfl⟩ := List.mem_map.mp (own.live b q now)
      have kept : x.1 ≠ p := fun same => other (own.apart b a p (same ▸ now) at_)
      exact List.mem_map_of_mem (List.mem_filter.mpr ⟨member, by simpa using kept⟩)
    · have before (b : α) (now : Function.update owns a none b = some q) : owns b = some q := by
        by_cases here : b = a
        · subst here
          rw [Function.update_self] at now
          cases now
        · simpa only [Function.update_of_ne here] using now
      exact own.apart b c q (before b atB) (before c atC)

end Owned

/-! ### The heap between any two calls -/

/-- The block list ends and tiles the heap, free neighbours are merged, and the live pointers are
the payloads of its used blocks, apart from each other and from every header. -/
structure Client.WellFormed (s : Client) (ps : List Ptr) : Prop where
  path : Chain.Path s.heap.next s.heap.head ps none
  tiles : Tiles headerSize.toNat 0 (ps.map s.heap.view) heapSize.toNat
  aligned : ∀ p ∈ ps, p.toNat % 8 = 0 ∧ (p + headerSize).toNat % 8 = 0
  merged : Merged (ps.map s.heap.view)
  live : ∀ p n, (p, n) ∈ s.live ↔
    ∃ a ∈ ps, p = a + headerSize ∧ (s.heap.block a).size = n ∧ (s.heap.block a).free = false
  disjoint : s.live.Pairwise fun x y => Disjoint (payload x) (payload y)
  headers : ∀ x ∈ s.live, ∀ a ∈ ps, Disjoint (payload x) (header a)
  returns : ∀ size ≤ heapSize, (kmalloc s.heap size).isSome = true
  frees : ∀ x ∈ s.live, (kfree s.heap (some x.1)).isSome = true

theorem Client.Inv.wellFormed (inv : s.Inv ps) : s.WellFormed ps where
  path := inv.sound.path
  tiles := inv.sound.tiles
  aligned p member := by
    have aligned := (inv.sound.aligned p member).1
    have start := payload_start inv.sound.toLaid member
    omega
  merged := inv.sound.merged
  live p n := by
    constructor
    · intro member
      obtain ⟨a, inside, at_, block⟩ := inv.block member
      exact ⟨a, inside, at_, by rw [block], by rw [block]⟩
    · rintro ⟨a, inside, rfl, rfl, used⟩
      exact inv.live_of_used inside used
  disjoint := by
    have distinct := List.pairwise_map.mp inv.distinct
    exact distinct.imp_of_mem fun hx hy ne => inv.apart hx hy ne
  headers x member a inside := inv.headers member inside
  returns size _ := (inv.kmalloc_step size).1
  frees x member := (inv.kfree_step (List.mem_map_of_mem member)).1

/-- A live pointer stays live, with its size, until it is freed. -/
theorem live_stays {x : Ptr × UInt32} (member : x ∈ s.live) {ls : List Call}
    (kept : .kfree (some x.1) ∉ ls) : x ∈ (Run.exec Client.step s ls).live := by
  induction ls generalizing s with
  | nil => exact member
  | cons call ls ih =>
    simp only [List.mem_cons, not_or] at kept
    refine ih ?_ kept.2
    cases call with
    | kmalloc size =>
      simp only [Client.step]
      split
      next => exact List.mem_cons_of_mem _ member
      next => exact member
      next => exact member
    | kfree ptr =>
      simp only [Client.step]
      split
      next =>
        refine List.mem_filter.mpr ⟨member, ?_⟩
        have other : some x.1 ≠ ptr := fun eq => kept.1 (by rw [eq])
        simpa using other
      next => exact member

/-- After any run of calls the heap is well formed, and whatever is live stays where it is and
as large as it is until its own free. -/
theorem heap_wellFormed (ls more : List Call)
    (ok : Run.Along Client.step Client.permits Client.init (ls ++ more)) :
    (∃ ps, (Run.exec Client.step Client.init ls).WellFormed ps) ∧
      ∀ x ∈ (Run.exec Client.step Client.init ls).live, .kfree (some x.1) ∉ more →
        x ∈ (Run.exec Client.step Client.init (ls ++ more)).live := by
  obtain ⟨ps, inv⟩ := Client.Inv.run ((Run.along_append _ _ _).mp ok).1
  refine ⟨⟨ps, inv.wellFormed⟩, fun x member kept => ?_⟩
  rw [Run.exec_append]
  exact live_stays member kept

/-- Two allocations, the first of which is freed and then reused. -/
theorem reuse_wellFormed :
    let first : List Call := [.kmalloc 100, .kmalloc 40, .kfree (some 16)]
    (∃ ps, (Run.exec Client.step Client.init first).WellFormed ps) ∧
      ∀ x ∈ (Run.exec Client.step Client.init first).live, .kfree (some x.1) ∉ [Call.kmalloc 8] →
        x ∈ (Run.exec Client.step Client.init (first ++ [.kmalloc 8])).live :=
  heap_wellFormed [.kmalloc 100, .kmalloc 40, .kfree (some 16)] [.kmalloc 8] (by decide +kernel)

/-! ### The order of frees -/

/-- Free one pointer after the other. -/
def freeAll (h : Heap) (qs : List Ptr) : Option Heap := qs.foldlM (fun h q => kfree h (some q)) h

theorem freeAll_spec (inv : s.Inv ps) {qs : List Ptr} (nodup : qs.Nodup)
    (live : ∀ q ∈ qs, q ∈ s.live.map Prod.fst) :
    ∃ h ps', freeAll s.heap qs = some h ∧ Sound h ps' ∧
      h.usedBlocks ps' = (s.heap.usedBlocks ps).filter fun b =>
        ∀ q ∈ qs, b.addr ≠ (q - headerSize).toNat := by
  induction qs generalizing s ps with
  | nil => exact ⟨s.heap, ps, rfl, inv.sound, by simp⟩
  | cons q qs ih =>
    obtain ⟨out, nodup'⟩ := List.nodup_cons.mp nodup
    obtain ⟨x, member, rfl⟩ := List.mem_map.mp (live q (by simp))
    obtain ⟨a, inside, at_, block⟩ := inv.block member
    obtain ⟨h₁, ps₁, freed, sound₁, used₁⟩ := kfree_spec inv.sound inside (by rw [block])
    rw [← at_] at freed
    have next : s.step (.kfree (some x.1)) = ⟨h₁, s.live.filter fun y => some y.1 ≠ some x.1⟩ := by
      simp only [Client.step, freed]
    obtain ⟨ps₂, inv₂⟩ := (inv.kfree_step (List.mem_map_of_mem member)).2
    rw [next] at inv₂
    obtain ⟨h₂, ps₃, ends, sound₂, used₂⟩ := ih inv₂ nodup' fun p there => by
      obtain ⟨y, liveY, rfl⟩ := List.mem_map.mp (live p (by simp [there]))
      have apart : y.1 ≠ x.1 := fun eq => out (eq ▸ there)
      exact List.mem_map_of_mem (List.mem_filter.mpr ⟨liveY, by simpa using apart⟩)
    have same : ps₂ = ps₁ := inv₂.sound.path.unique sound₁.path
    subst same
    refine ⟨h₂, ps₃, by simp [freeAll, freed, ← ends], sound₂, ?_⟩
    rw [used₂, used₁, List.filter_filter]
    refine List.filter_congr fun b _ => ?_
    have : x.1 - headerSize = a := by rw [at_, UInt32.add_sub_cancel]
    simp [this, Bool.and_comm]

/-- Live pointers can be freed in any order with the same block list at the end; a `kmalloc`
and its `kfree` leave the block list as it was; and with everything freed it is the initial
single block. -/
theorem frees_leave_no_trace (ls : List Call)
    (ok : Run.Along Client.step Client.permits Client.init ls) :
    (∀ qs qs' : List Ptr, qs.Nodup → qs.Perm qs' →
      (∀ q ∈ qs, q ∈ (Run.exec Client.step Client.init ls).live.map Prod.fst) →
      ∃ h h', freeAll (Run.exec Client.step Client.init ls).heap qs = some h ∧
        freeAll (Run.exec Client.step Client.init ls).heap qs' = some h' ∧
        h.blockList = h'.blockList) ∧
    (∀ size h p, size ≤ heapSize →
      kmalloc (Run.exec Client.step Client.init ls).heap size = some (h, some p) →
      ∃ h', kfree h (some p) = some h' ∧
        h'.blockList = (Run.exec Client.step Client.init ls).heap.blockList) ∧
    ∀ qs : List Ptr, qs.Perm ((Run.exec Client.step Client.init ls).live.map Prod.fst) →
      ∃ h, freeAll (Run.exec Client.step Client.init ls).heap qs = some h ∧
        h.blockList = kmemInit.blockList ∧
        h.blockList = [(0, ⟨heapSize - headerSize, true, none⟩)] := by
  obtain ⟨ps, inv⟩ := Client.Inv.run ok
  generalize Run.exec Client.step Client.init ls = s at inv ⊢
  refine ⟨fun qs qs' nodup perm live => ?_, fun size h p _ found => ?_, fun qs perm => ?_⟩
  · obtain ⟨h, ps₁, freed, sound, used⟩ := freeAll_spec inv nodup live
    obtain ⟨h', ps₂, freed', sound', used'⟩ := freeAll_spec inv (perm.nodup_iff.mp nodup)
      fun q member => live q (perm.mem_iff.mpr member)
    refine ⟨h, h', freed, freed', sound.blockList_congr sound' (used.trans ?_)⟩
    rw [used']
    refine List.filter_congr fun b _ => ?_
    simp only [perm.mem_iff]
  · rcases kmalloc_spec inv.sound size with
      ⟨none, -⟩ | ⟨-, h₁, qs, l₁, l₂, a, found', sound, member, -, -, taken, before, after, -⟩
    · rw [found] at none
      cases none
    rw [found] at found'
    cases found'
    obtain ⟨h', ps', freed, sound', used⟩ := kfree_spec sound member taken
    refine ⟨h', freed, sound'.blockList_congr inv.sound ?_⟩
    -- The addresses of the used blocks differ, so the filter takes out this one only.
    have nodup := sound.addrs_nodup
    rw [after, List.map_append, List.map_cons, List.nodup_append, List.nodup_cons] at nodup
    obtain ⟨-, ⟨notRight, -⟩, notLeft⟩ := nodup
    rw [used, after, before, List.filter_append, List.filter_cons_of_neg (by simp [Heap.view])]
    congr 1
    · refine List.filter_eq_self.mpr fun b there => ?_
      have apart := notLeft b.addr (List.mem_map_of_mem there) (h.view a).addr (by simp)
      simpa [Heap.view] using apart
    · refine List.filter_eq_self.mpr fun b there => ?_
      have : b.addr ≠ (h.view a).addr := fun eq => notRight (eq ▸ List.mem_map_of_mem there)
      simpa [Heap.view] using this
  · obtain ⟨h, ps₁, freed, sound, used⟩ := freeAll_spec inv (perm.nodup_iff.mpr inv.distinct)
      fun q member => perm.mem_iff.mp member
    have nothing : h.usedBlocks ps₁ = kmemInit.usedBlocks [0] := by
      rw [used]
      refine List.filter_eq_nil_iff.mpr fun b there => ?_
      obtain ⟨x, live, rfl⟩ := List.mem_map.mp (inv.live.mem_iff.mpr there)
      simp only [decide_eq_true_eq, not_forall]
      exact ⟨x.1, perm.mem_iff.mpr (List.mem_map_of_mem live), by simp [liveBlock]⟩
    have same := sound.blockList_congr sound_kmemInit nothing
    exact ⟨h, freed, same, same.trans (by decide +kernel)⟩

/-- Two neighbours freed in both orders. -/
theorem neighbours_leave_no_trace :
    ∃ h h', freeAll (Run.exec Client.step Client.init
          [.kmalloc 100, .kmalloc 40, .kmalloc 8]).heap [16, 136] = some h ∧
      freeAll (Run.exec Client.step Client.init
          [.kmalloc 100, .kmalloc 40, .kmalloc 8]).heap [136, 16] = some h' ∧
      h.blockList = h'.blockList :=
  (frees_leave_no_trace [.kmalloc 100, .kmalloc 40, .kmalloc 8] (by decide +kernel)).1
    [16, 136] [136, 16] (by decide) (.swap 136 16 [])
    (List.forall_mem_cons.mpr ⟨by decide +kernel, List.forall_mem_singleton.mpr (by decide +kernel)⟩)

end PicoOS.Mem
