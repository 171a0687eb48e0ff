import PicoOS.Lib.Chain

/-!
# The kernel heap

`mem.c`. A pointer is an offset into `heap_memory`, which is aligned to 8, and
the block headers are kept by the offset they are at. Each call is one section
under `heap_lock`; a result of `none` is a walk over a list that never ends.
-/
namespace PicoOS.Mem

abbrev Ptr := UInt32

/-- `HEAP_SIZE`. -/
def heapSize : UInt32 := 64 * 1024

/-- `HEADER_SIZE`, `sizeof(struct heap_block)` rounded up to 8. -/
def headerSize : UInt32 := 16

/-- `SPLIT_THRESHOLD`. -/
def splitThreshold : UInt32 := 32

/-- `ALIGN8`. -/
def align8 (x : UInt32) : UInt32 := (x + 7) &&& ~~~7

/-- `struct heap_block`. -/
structure HeapBlock where
  size : UInt32
  free : Bool
  next : Option Ptr
  deriving DecidableEq, Repr

/-- The headers in `heap_memory`, and `heap_head`. -/
structure Heap where
  block : Ptr → HeapBlock
  head : Option Ptr

namespace Heap

def next (h : Heap) (p : Ptr) : Option Ptr := (h.block p).next

def setBlock (h : Heap) (p : Ptr) (v : HeapBlock) : Heap :=
  { h with block := Function.update h.block p v }

end Heap

/-- No more headers than this fit into `heap_memory`: the fuel of every walk. -/
abbrev maxBlocks : Nat := 4096

/-- `kmem_init`. -/
def kmemInit : Heap where
  block p :=
    if p = 0 then { size := heapSize - headerSize, free := true, next := none }
    else { size := 0, free := false, next := none }
  head := some 0

variable (h : Heap)

/-! ### kmalloc -/

/-- The split of `blk` when the remainder is large enough, and `blk->free = false`. -/
def takeBlock (blk : Ptr) (size : UInt32) : Heap :=
  let v := h.block blk
  let leftover := v.size - size
  if headerSize + splitThreshold ≤ leftover then
    let newBlk := blk + headerSize + size
    (h.setBlock newBlk { size := leftover - headerSize, free := true, next := v.next }).setBlock blk
      { size := size, free := false, next := some newBlk }
  else
    h.setBlock blk { v with free := false }

/-- `kmalloc`. -/
def kmalloc (size : UInt32) : Option (Heap × Option Ptr) :=
  if size = 0 then
    some (h, none)
  else
    let fits blk := (h.block blk).free && align8 size ≤ (h.block blk).size
    (Chain.first h.next fits maxBlocks h.head).map fun found =>
      match found with
      | none => (h, none)
      | some blk => (takeBlock h blk (align8 size), some (blk + headerSize))

/-! ### kfree -/

/-- `a` takes over `b`, the block after it. -/
def mergeBlocks (a b : Ptr) : Heap :=
  h.setBlock a { h.block a with
    size := (h.block a).size + (headerSize + (h.block b).size)
    next := (h.block b).next }

/-- `while (blk->next != NULL && blk->next->free)`: merge the free blocks behind `blk`. -/
def coalesceForward (blk : Ptr) : Nat → Heap → Option Heap
  | 0, _ => none
  | fuel + 1, h =>
    match h.next blk with
    | none => some h
    | some next =>
      if (h.block next).free then coalesceForward blk fuel (mergeBlocks h blk next) else some h

/-- `while (cur != NULL && cur != blk)`: the node it passed last. -/
def predecessor (blk : Ptr) : Nat → Option Ptr → Option Ptr → Option (Option Ptr)
  | _, prev, none => some prev
  | 0, _, some _ => none
  | fuel + 1, prev, some cur =>
    if cur = blk then some prev else predecessor blk fuel (some cur) (h.next cur)

/-- The merge into the predecessor, when it is free. -/
def coalesceBackward (blk : Ptr) : Option Heap :=
  (predecessor h blk maxBlocks none h.head).map fun prev =>
    match prev with
    | none => h
    | some p => if (h.block p).free then mergeBlocks h p blk else h

/-- `kfree`. -/
def kfree (ptr : Option Ptr) : Option Heap :=
  match ptr with
  | none => some h
  | some p =>
    let blk := p - headerSize
    (coalesceForward blk maxBlocks (h.setBlock blk { h.block blk with free := true })).bind
      fun h => coalesceBackward h blk

/-! ### The block list -/

/-- The blocks from `heap_head` on. -/
def Heap.blockList : List (Ptr × HeapBlock) :=
  (Chain.nodes h.next maxBlocks h.head).map fun p => (p, h.block p)

end PicoOS.Mem
