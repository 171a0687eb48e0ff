import PicoOS.Fs.State
import PicoOS.Kernel.Stacks
import PicoOS.Lib.Accounts
import PicoOS.Lib.Run

/-!
# Whose memory it is

All that is on the heap: the stacks of the threads, and the argument strings that
`run` copies for apps. A stack goes with its thread; an argument is the app's, which
is to free it.
-/
namespace PicoOS.Shell

open Kernel Fs

/-- The tables and the heap, with the arguments that apps own, each with the size it has been asked
for, and the stack size that each thread has been created with. -/
structure Memory where
  tables : Tables
  args : Mem.Ptr → Option UInt32
  asked : Slot → UInt32

/-- An entry of `app_table`. -/
structure App where
  name : CStr
  priority : UInt8

/-- A call that takes memory or gives it back. -/
inductive MemoryOp where
  | table (op : TableOp)
  | run (apps : List App) (argv : List CStr)
  | autorun (priority : UInt8)
  | button (priority : UInt8)
  | freeArg (p : Mem.Ptr)

namespace Memory

def boot : Memory := ⟨.boot, fun _ => none, fun _ => 0⟩

variable (s : Memory)

/-- `len + 1u`. -/
def argSize (arg : CStr) : UInt32 := .ofNat arg.val.length + 1

/-- The copy of an argument that `cmd_run` makes. -/
def copyArg (arg : Option CStr) : Option (Memory × Option Mem.Ptr) :=
  match arg with
  | none => some (s, none)
  | some arg =>
    (Mem.kmalloc s.tables.heap (argSize arg)).map fun given =>
      ({ s with
          tables := { s.tables with heap := given.1 }
          args :=
            match given.2 with
            | none => s.args
            | some p => Function.update s.args p (some (argSize arg)) }, given.2)

/-- `kfree` of an argument. -/
def freeArg (p : Mem.Ptr) : Option Memory :=
  (Mem.kfree s.tables.heap (some p)).map fun heap =>
    { s with
      tables := { s.tables with heap := heap }
      args := Function.update s.args p none }

/-- `cmd_run` from `task_alloc_pid` on; the autorun and the button code launch an app in the same way
with no argument. The PID, or none where the process or its thread cannot be created: then the copy
is freed again. -/
def launch (range : PidRange) (priority : UInt8) (arg : Option CStr) :
    Option (Memory × Option UInt32) :=
  let alloc := s.tables.allocPid range
  (copyArg { s with tables := alloc.2 } arg).bind fun copied =>
    (copied.1.tables.startProcess alloc.1 priority).bind fun started =>
      let s := { copied.1 with tables := started.1 }
      match started.2 with
      | .thread t =>
        some ({ s with asked := Function.update s.asked t defaultStackSize }, some alloc.1)
      | _ =>
        match copied.2 with
        | none => some (s, none)
        | some p => (s.freeArg p).map fun s => (s, none)

/-- `cmd_run`, and its result. -/
def cmdRun (apps : List App) (argv : List CStr) : Option (Memory × Int) :=
  match argv with
  | _ :: name :: args =>
    match apps.find? fun app => app.name.val == name.val with
    | none => some (s, -1)
    | some app =>
      (s.launch .run app.priority args.head?).map fun done =>
        (done.1, if done.2.isSome then 0 else -1)
  | _ => some (s, 0)

/-- A call that does not return changes nothing. An app frees an argument that it owns. -/
def step (s : Memory) : MemoryOp → Memory
  | .table op =>
    let tables := s.tables.step op
    { s with
      tables := tables
      asked := fun t =>
        if tables.k.tcbUsed t && !s.tables.k.tcbUsed t then op.stackSize else s.asked t }
  | .run apps argv => ((s.cmdRun apps argv).map Prod.fst).getD s
  | .autorun priority => ((s.launch .autorun priority none).map Prod.fst).getD s
  | .button priority => ((s.launch .button priority none).map Prod.fst).getD s
  | .freeArg p => if (s.args p).isSome then (s.freeArg p).getD s else s

end Memory

/-! ### The account -/

/-- Owners that have blocks of their own, as `task.c` needs it of the stacks. -/
theorem owned_of_holds {α : Type} {h : Mem.Heap} {ps : List Mem.Ptr} (sound : Mem.Sound h ps)
    {owns : α → Option Mem.Ptr} (held : ∀ a p, owns a = some p → ∃ n, h.Holds p n)
    (apart : ∀ a b p, owns a = some p → owns b = some p → a = b) :
    ∃ live, Mem.Owned ⟨h, live⟩ owns := by
  let inUse := ps.filter fun a => !(h.block a).free
  refine ⟨inUse.map fun a => (a + Mem.headerSize, (h.block a).size), ⟨ps, sound, ?_, ?_⟩, ?_, apart⟩
  · apply List.Perm.of_eq
    rw [List.map_map, Mem.Heap.usedBlocks, Tiling.used, List.filter_map]
    apply List.map_congr_left
    intro a member
    have used : (h.block a).free = false := by simpa using (List.mem_filter.mp member).2
    simp [Mem.liveBlock, Mem.Heap.view, used]
  · intro x live
    obtain ⟨a, member, rfl⟩ := List.mem_map.mp live
    have start := Mem.payload_start sound.toLaid (List.mem_filter.mp member).1
    rw [UInt32.le_iff_toNat_le, start, Mem.header_toNat]
    omega
  · intro a p mine
    obtain ⟨n, at_⟩ := held a p mine
    obtain ⟨b, member, rfl, used, _⟩ := sound.holds_block at_
    simp only [List.map_map, List.mem_map, Function.comp_apply]
    exact ⟨b, List.mem_filter.mpr ⟨member, by simpa using used⟩, rfl⟩

namespace Memory

/-- Who can own a block: a thread, and an app with its argument. -/
abbrev Owner := Slot ⊕ Mem.Ptr

/-- The block of an owner. -/
def block (s : Memory) : Owner → Option Mem.Ptr
  | .inl t => s.tables.stackBase t
  | .inr p => (s.args p).map fun _ => p

/-- The size that it has been asked for. -/
def wants (s : Memory) : Owner → UInt32
  | .inl t => s.asked t
  | .inr p => (s.args p).getD 0

/-- A block of this size is large enough. -/
def Fits (s : Memory) (i : Owner) (n : UInt32) : Prop := Mem.align8 (s.wants i) ≤ n

/-- Everything allocated is the stack of one thread in use, or one argument that an app owns. -/
structure Inv (s : Memory) : Prop where
  tables : ∃ g, s.tables.Sound g
  heap : ∃ ps, Mem.Sound s.tables.heap ps
  used : ∀ t, s.tables.k.tcbUsed t = true → (s.tables.stackBase t).isSome = true
  account : Accounts.Account s.tables.heap.Holds s.block s.Fits

variable {s s' : Memory} {p : Mem.Ptr} {size : UInt32} {t : Slot}

theorem Inv.boot : Memory.boot.Inv where
  tables := ⟨_, .boot⟩
  heap := ⟨_, Mem.sound_kmemInit⟩
  used t used := by cases used
  account := by
    have none (i : Owner) : Memory.boot.block i = none := by cases i <;> rfl
    refine ⟨fun i p mine => ?_, fun i j p mine => ?_, fun p n held => ?_⟩
    · rw [none i] at mine
      cases mine
    · rw [none i] at mine
      cases mine
    · rw [show Memory.boot.tables.heap = Mem.kmemInit from rfl, Mem.sound_kmemInit.holds_iff] at held
      cases held

/-- The account gives `task.c` its part of it. -/
theorem Inv.sound (groups : ∃ g, s'.tables.Sound g) (same : s.tables.k = s'.tables.k)
    (stackBase : s.tables.stackBase = s'.tables.stackBase)
    (heap : ∃ ps, Mem.Sound s.tables.heap ps)
    (account : Accounts.Account s.tables.heap.Holds s.block s.Fits) : ∃ g, s.tables.Sound g := by
  obtain ⟨g, before⟩ := groups
  obtain ⟨ps, heap⟩ := heap
  refine ⟨g, by rw [same]; exact before.tables, before.groups, ?_, ?_⟩
  · rw [same, stackBase]
    exact before.stackBase
  · apply owned_of_holds heap
    · intro t p mine
      obtain ⟨n, held, _⟩ := account.backed (.inl t) p mine
      exact ⟨n, held⟩
    · intro t u p mine mine'
      exact Sum.inl_injective (account.apart (.inl t) (.inl u) p mine mine')

/-! ### The changes -/

/-- The stack of one thread has changed. -/
theorem block_stack {v : Option Mem.Ptr}
    (stackBase : s'.tables.stackBase = Function.update s.tables.stackBase t v)
    (args : s'.args = s.args) : s'.block = Function.update s.block (.inl t) v := by
  funext i
  cases i with
  | inl u =>
    rw [block, stackBase]
    by_cases here : u = t
    · rw [here, Function.update_self, Function.update_self]
    · rw [Function.update_of_ne here, Function.update_of_ne (by simpa using here)]
      rfl
  | inr p =>
    rw [block, args, Function.update_of_ne Sum.inr_ne_inl]
    rfl

/-- One argument has changed. -/
theorem block_arg {v : Option UInt32} (stackBase : s'.tables.stackBase = s.tables.stackBase)
    (args : s'.args = Function.update s.args p v) :
    s'.block = Function.update s.block (.inr p) (v.map fun _ => p) := by
  funext i
  cases i with
  | inl u =>
    rw [block, stackBase, Function.update_of_ne Sum.inl_ne_inr]
    rfl
  | inr r =>
    rw [block, args]
    by_cases here : r = p
    · rw [here, Function.update_self, Function.update_self]
    · rw [Function.update_of_ne here, Function.update_of_ne (by simpa using here)]
      rfl

/-- A thread has been created on a new stack. -/
theorem Inv.grows (inv : s.Inv) (sound : ∃ g, s'.tables.Sound g) (free : s.tables.k.tcbUsed t = false)
    (used : s'.tables.k.tcbUsed = Function.update s.tables.k.tcbUsed t true)
    (heap : Mem.kmalloc s.tables.heap size = some (s'.tables.heap, some p))
    (stackBase : s'.tables.stackBase = Function.update s.tables.stackBase t (some p))
    (args : s'.args = s.args) (now : s'.asked t = size)
    (rest : ∀ u, u ≠ t → s'.asked u = s.asked u) : s'.Inv := by
  obtain ⟨g, before⟩ := inv.tables
  obtain ⟨ps, laid⟩ := inv.heap
  obtain ⟨n, after, large, new, holds⟩ := laid.kmalloc_some heap
  refine ⟨sound, after, fun u inUse => ?_, ?_⟩
  · rw [stackBase]
    by_cases here : u = t
    · rw [here, Function.update_self]
      rfl
    · rw [used, Function.update_of_ne here] at inUse
      rw [Function.update_of_ne here]
      exact inv.used u inUse
  · rw [block_stack stackBase args]
    have idle : s.block (.inl t) = none := before.stackBase t free
    apply inv.account.take idle new holds
    · rw [Fits, wants, now]
      exact large
    · intro i other
      funext n
      cases i with
      | inl u => rw [Fits, Fits, wants, wants, rest u (by simpa using other)]
      | inr p => rw [Fits, Fits, wants, wants, args]

/-- What nobody asks for anew still fits. -/
theorem fits_congr {i : Owner} (same : s'.wants i = s.wants i) : s'.Fits i = s.Fits i := by
  funext n
  rw [Fits, Fits, same]

/-- A thread has been freed, with its stack if it had one. -/
theorem Inv.shrinks (inv : s.Inv) (sound : ∃ g, s'.tables.Sound g)
    (used : s'.tables.k.tcbUsed = Function.update s.tables.k.tcbUsed t false)
    (heap : Mem.kfree s.tables.heap (s.tables.stackBase t) = some s'.tables.heap)
    (stackBase : s'.tables.stackBase = Function.update s.tables.stackBase t none)
    (args : s'.args = s.args) (asked : s'.asked = s.asked) : s'.Inv := by
  have blocks := block_stack stackBase args
  have wants_ (i : Owner) : s'.wants i = s.wants i := by
    cases i with
    | inl u => rw [wants, wants, asked]
    | inr p => rw [wants, wants, args]
  have busy (u : Slot) (inUse : s'.tables.k.tcbUsed u = true) :
      (s'.tables.stackBase u).isSome = true := by
    have other : u ≠ t := by
      rintro rfl
      rw [used, Function.update_self] at inUse
      cases inUse
    rw [used, Function.update_of_ne other] at inUse
    rw [stackBase, Function.update_of_ne other]
    exact inv.used u inUse
  -- `kfree` of NULL does nothing
  cases at_ : s.tables.stackBase t with
  | none =>
    rw [at_] at heap
    have same : s'.tables.heap = s.tables.heap := (Option.some.inj heap).symm
    have kept : Function.update s.block (.inl t) none = s.block := by
      rw [← show s.block (.inl t) = none from at_, Function.update_eq_self]
    refine ⟨sound, by rw [same]; exact inv.heap, busy, ?_⟩
    rw [same, blocks, kept, show s'.Fits = s.Fits from funext fun i => fits_congr (wants_ i)]
    exact inv.account
  | some p =>
    obtain ⟨ps, laid⟩ := inv.heap
    have mine : s.block (.inl t) = some p := at_
    obtain ⟨n, held, _⟩ := inv.account.backed _ p mine
    obtain ⟨h', freed, after, holds⟩ := laid.kfree_held held
    rw [at_, freed] at heap
    obtain rfl := Option.some.inj heap
    refine ⟨sound, after, busy, ?_⟩
    rw [blocks]
    exact inv.account.give mine holds fun i _ => fits_congr (wants_ i)

/-- A call of `task.c`. -/
theorem Inv.changed (inv : s.Inv) (sound : ∃ g, s'.tables.Sound g)
    (change : Tables.Change size s.tables s'.tables) (args : s'.args = s.args)
    (asked : s'.asked = fun t =>
      if s'.tables.k.tcbUsed t && !s.tables.k.tcbUsed t then size else s.asked t) : s'.Inv := by
  cases change with
  | same used heap stackBase =>
    have same : s'.asked = s.asked := by
      rw [asked, used]
      funext t
      rw [Bool.and_not_self, if_neg Bool.false_ne_true]
    have blocks : s'.block = s.block := by
      funext i
      cases i with
      | inl u => rw [block, block, stackBase]
      | inr p => rw [block, block, args]
    have fits : s'.Fits = s.Fits := by
      funext i
      apply fits_congr
      cases i with
      | inl u => rw [wants, wants, same]
      | inr p => rw [wants, wants, args]
    refine ⟨sound, by rw [heap]; exact inv.heap, ?_, by rw [heap, blocks, fits]; exact inv.account⟩
    rw [used, stackBase]
    exact inv.used
  | grows t p free used heap stackBase =>
    apply inv.grows sound free used heap stackBase args
    · rw [asked, used]
      dsimp only
      rw [Function.update_self, free]
      rfl
    · intro u other
      rw [asked, used]
      dsimp only
      rw [Function.update_of_ne other, Bool.and_not_self, if_neg Bool.false_ne_true]
  | shrinks t used heap stackBase =>
    apply inv.shrinks sound used heap stackBase args
    rw [asked, used]
    funext u
    by_cases here : u = t
    · rw [here, Function.update_self, Bool.false_and, if_neg Bool.false_ne_true]
    · rw [Function.update_of_ne here, Bool.and_not_self, if_neg Bool.false_ne_true]

/-- An argument has been copied to a new block. -/
theorem Inv.copied (inv : s.Inv) (same : s'.tables.k = s.tables.k)
    (stackBase : s'.tables.stackBase = s.tables.stackBase)
    (heap : Mem.kmalloc s.tables.heap size = some (s'.tables.heap, some p))
    (args : s'.args = Function.update s.args p (some size)) (asked : s'.asked = s.asked) :
    s'.Inv := by
  obtain ⟨ps, laid⟩ := inv.heap
  obtain ⟨n, after, large, new, holds⟩ := laid.kmalloc_some heap
  -- an owner's block is in use, and this one was not
  have idle : s.block (.inr p) = none := by
    cases own : s.block (.inr p) with
    | none => rfl
    | some r =>
      obtain ⟨_, _, rfl⟩ := Option.map_eq_some_iff.mp own
      obtain ⟨m, held, _⟩ := inv.account.backed _ _ own
      exact absurd held (new m)
  have account : Accounts.Account s'.tables.heap.Holds s'.block s'.Fits := by
    rw [block_arg stackBase args]
    apply inv.account.take idle new holds
    · rw [Fits, wants, args, Function.update_self]
      exact large
    · intro i other
      apply fits_congr
      cases i with
      | inl u => rw [wants, wants, asked]
      | inr r =>
        have ne : r ≠ p := by simpa using other
        rw [wants, wants, args, Function.update_of_ne ne]
  refine ⟨Inv.sound inv.tables same stackBase after account, after, ?_, account⟩
  rw [same, stackBase]
  exact inv.used

/-- An argument has been freed. -/
theorem Inv.freeArg (inv : s.Inv) (own : s.args p = some size) :
    ∃ s', s.freeArg p = some s' ∧ s'.Inv ∧ s'.tables.k = s.tables.k ∧
      s'.tables.stackBase = s.tables.stackBase ∧ s'.tables.ranges = s.tables.ranges ∧
      s'.args = Function.update s.args p none ∧ s'.asked = s.asked ∧
      ∀ q m, s'.tables.heap.Holds q m ↔ s.tables.heap.Holds q m ∧ q ≠ p := by
  obtain ⟨ps, laid⟩ := inv.heap
  have mine : s.block (.inr p) = some p := by rw [block, own, Option.map_some]
  obtain ⟨n, held, _⟩ := inv.account.backed _ p mine
  obtain ⟨h', freed, after, holds⟩ := laid.kfree_held held
  let s' : Memory := ⟨{ s.tables with heap := h' }, Function.update s.args p none, s.asked⟩
  have ran : s.freeArg p = some s' := by
    rw [Memory.freeArg, freed]
    rfl
  have args : s'.args = Function.update s.args p none := rfl
  have stackBase : s'.tables.stackBase = s.tables.stackBase := rfl
  have blocks := block_arg stackBase args
  rw [Option.map_none] at blocks
  have account : Accounts.Account s'.tables.heap.Holds s'.block s'.Fits := by
    rw [blocks]
    apply inv.account.give mine holds
    intro i other
    apply fits_congr
    cases i with
    | inl u => rfl
    | inr r =>
      have ne : r ≠ p := by simpa using other
      rw [wants, wants, show s'.args r = s.args r from Function.update_of_ne ne ..]
  have now : s'.Inv := ⟨Inv.sound inv.tables rfl rfl after account, after, inv.used, account⟩
  exact ⟨s', ran, now, rfl, rfl, rfl, rfl, rfl, holds⟩

/-! ### Launching an app -/

/-- The memory is as it was; the block list too, whatever has been split and merged meanwhile. -/
structure Restored (s s' : Memory) : Prop where
  tables : s'.tables.k = s.tables.k
  stackBase : s'.tables.stackBase = s.tables.stackBase
  args : s'.args = s.args
  asked : s'.asked = s.asked
  blockList : s'.tables.heap.blockList = s.tables.heap.blockList

/-- There is no copy, or it is in a block of its own, and without it the memory is as before. -/
theorem Inv.copyArg (inv : s.Inv) (arg : Option CStr) :
    s.copyArg arg = some (s, none) ∨
      ∃ s₁ p, s.copyArg arg = some (s₁, some p) ∧ s₁.Inv ∧
        ∃ s₂, s₁.freeArg p = some s₂ ∧ s₂.Inv ∧ Restored s s₂ := by
  cases arg with
  | none => exact .inl rfl
  | some arg =>
    obtain ⟨ps, laid⟩ := inv.heap
    rcases laid.kmalloc_cases (argSize arg) with null | ⟨h', p, n, given, after, large, new, holds⟩
    · refine .inl ?_
      rw [Memory.copyArg, null]
      rfl
    · let s₁ : Memory := ⟨{ s.tables with heap := h' },
        Function.update s.args p (some (argSize arg)), s.asked⟩
      have ran : s.copyArg (some arg) = some (s₁, some p) := by
        rw [Memory.copyArg, given]
        rfl
      have copied : s₁.Inv := inv.copied rfl rfl given rfl rfl
      have own : s₁.args p = some (argSize arg) := Function.update_self ..
      -- freeing it gives back what has been taken, and only that
      obtain ⟨s₂, freed, inv₂, k, stackBase, _, args, asked, holds₂⟩ := copied.freeArg own
      refine .inr ⟨s₁, p, ran, copied, s₂, freed, inv₂, k, stackBase, ?_, asked, ?_⟩
      · have nobody : s.args p = none := by
          cases own : s.args p with
          | none => rfl
          | some size =>
            have mine : s.block (.inr p) = some p := by rw [block, own, Option.map_some]
            obtain ⟨m, held, _⟩ := inv.account.backed _ p mine
            exact absurd held (new m)
        rw [args, show s₁.args = Function.update s.args p (some (argSize arg)) from rfl,
          Function.update_idem, ← nobody, Function.update_eq_self]
      · obtain ⟨qs, laid₂⟩ := inv₂.heap
        apply laid₂.blockList_of_holds laid
        intro q m
        rw [holds₂, show s₁.tables.heap = h' from rfl, holds]
        constructor
        · rintro ⟨before | ⟨rfl, _⟩, ne⟩
          · exact before
          · exact absurd rfl ne
        · intro before
          refine ⟨.inl before, ?_⟩
          rintro rfl
          exact new m before

/-- A launch ends, and one that fails leaves the memory as it was. -/
theorem Inv.launch (inv : s.Inv) (range : PidRange) (priority : UInt8) (arg : Option CStr) :
    ∃ s' made, s.launch range priority arg = some (s', made) ∧ s'.Inv ∧
      (made = none → Restored s s') := by
  let s₀ : Memory := { s with tables := (s.tables.allocPid range).2 }
  have inv₀ : s₀.Inv := by
    obtain ⟨g, tables⟩ := inv.tables
    exact ⟨⟨g, tables.allocPid range⟩, inv.heap, inv.used, inv.account⟩
  -- the process and its thread, on whatever the copy has left of the heap
  have start {s₁ : Memory} (inv₁ : s₁.Inv) :
      ∃ tables started, s₁.tables.startProcess (s.tables.allocPid range).1 priority =
          some (tables, started) ∧
        ((∀ t, started ≠ .thread t) ∧ tables = s₁.tables ∨ ∃ t, started = .thread t ∧
          Memory.Inv { s₁ with
            tables := tables
            asked := Function.update s₁.asked t defaultStackSize }) := by
    obtain ⟨g, sound⟩ := inv₁.tables
    obtain ⟨⟨tables, started⟩, ran⟩ := Option.isSome_iff_exists.mp
      (Tables.startProcess_isSome inv₁.heap (s.tables.allocPid range).1 priority)
    refine ⟨tables, started, ran, ?_⟩
    rcases sound.startProcess ran with failed | ⟨t, rfl, free, used, change, sound'⟩
    · exact .inl failed
    · refine .inr ⟨t, rfl, inv₁.changed sound' change rfl ?_⟩
      funext u
      dsimp only
      rw [used]
      by_cases here : u = t
      · rw [here, Function.update_self, Function.update_self, free]
        rfl
      · rw [Function.update_of_ne here, Function.update_of_ne here, Bool.and_not_self,
          if_neg Bool.false_ne_true]
  -- with no copy, or with one that has to go again where there is no thread
  rcases inv₀.copyArg arg with copied | ⟨s₁, p, copied, inv₁, s₂, freed, inv₂, restored⟩
  · obtain ⟨tables, started, ran, failed | ⟨t, rfl, now⟩⟩ := start inv₀
    · obtain ⟨failed, rfl⟩ := failed
      refine ⟨s₀, none, ?_, inv₀, fun _ => ⟨rfl, rfl, rfl, rfl, rfl⟩⟩
      simp only [Memory.launch]
      rw [copied, Option.bind_some, ran, Option.bind_some]
      cases started with
      | thread t => exact absurd rfl (failed t)
      | noProcess => rfl
      | noThread => rfl
    · let made : Memory := { s₀ with
        tables := tables
        asked := Function.update s₀.asked t defaultStackSize }
      refine ⟨made, some (s.tables.allocPid range).1, ?_, now, fun none => by cases none⟩
      simp only [Memory.launch]
      rw [copied, Option.bind_some, ran, Option.bind_some]
  · obtain ⟨tables, started, ran, failed | ⟨t, rfl, now⟩⟩ := start inv₁
    · obtain ⟨failed, rfl⟩ := failed
      refine ⟨s₂, none, ?_, inv₂, fun _ => ⟨restored.tables, restored.stackBase, restored.args,
        restored.asked, restored.blockList⟩⟩
      simp only [Memory.launch]
      rw [copied, Option.bind_some, ran, Option.bind_some]
      cases started with
      | thread t => exact absurd rfl (failed t)
      -- without a thread nobody can own the copy, so it is freed
      | noProcess => exact congrArg (Option.map fun s => (s, none)) freed
      | noThread => exact congrArg (Option.map fun s => (s, none)) freed
    · let made : Memory := { s₁ with
        tables := tables
        asked := Function.update s₁.asked t defaultStackSize }
      refine ⟨made, some (s.tables.allocPid range).1, ?_, now, fun none => by cases none⟩
      simp only [Memory.launch]
      rw [copied, Option.bind_some, ran, Option.bind_some]

/-! ### Runs -/

theorem Inv.step (inv : s.Inv) (op : MemoryOp) : (s.step op).Inv := by
  have launched (range : PidRange) (priority : UInt8) (arg : Option CStr) :
      (((s.launch range priority arg).map Prod.fst).getD s).Inv := by
    obtain ⟨s', made, ran, now, _⟩ := inv.launch range priority arg
    rw [ran]
    exact now
  cases op with
  | table op =>
    obtain ⟨g, sound⟩ := inv.tables
    obtain ⟨g', after, _⟩ := sound.step op
    exact inv.changed ⟨g', after⟩ (sound.step_change op) rfl rfl
  | run apps argv =>
    rw [Memory.step]
    unfold cmdRun
    split
    next name args =>
      split
      next => exact inv
      next app found =>
        rw [Option.map_map]
        exact launched .run app.priority args.head?
    next => exact inv
  | autorun priority => exact launched .autorun priority none
  | button priority => exact launched .button priority none
  | freeArg p =>
    rw [Memory.step]
    cases own : s.args p with
    | none => exact inv
    | some size =>
      obtain ⟨s', freed, now, _⟩ := inv.freeArg own
      rw [freed]
      exact now

theorem Inv.run (ops : List MemoryOp) : (Run.exec Memory.step .boot ops).Inv :=
  Run.exec_invariant (fun _ op inv => inv.step op) .boot ops

/-- What the account comes to. A stack and an argument have the bytes that have been asked for, unless
`MEM_ALIGN` wraps around. -/
structure Accounted (s : Memory) : Prop where
  stack : ∀ t, s.tables.k.tcbUsed t = true → ∃ p n, s.tables.stackBase t = some p ∧
    s.tables.heap.Holds p n ∧ ((s.asked t).toNat + 7 < 2 ^ 32 → s.asked t ≤ n)
  arg : ∀ p size, s.args p = some size → ∃ n,
    s.tables.heap.Holds p n ∧ (size.toNat + 7 < 2 ^ 32 → size ≤ n)
  apart : ∀ i j p q m n, i ≠ j → s.block i = some p → s.block j = some q →
    s.tables.heap.Holds p m → s.tables.heap.Holds q n →
    p ≠ q ∧ Disjoint (Mem.payload (p, m)) (Mem.payload (q, n))
  owner : ∀ p n, s.tables.heap.Holds p n →
    (∃ t, s.tables.k.tcbUsed t = true ∧ s.tables.stackBase t = some p) ∨
      ∃ size, s.args p = some size
  nothing : (∀ t, s.tables.k.tcbUsed t = false) → (∀ p, s.args p = none) →
    s.tables.heap.blockList = Mem.kmemInit.blockList

/-- A block that fits has the bytes. -/
theorem le_of_fits {n : UInt32} (fits : Mem.align8 size ≤ n) (small : size.toNat + 7 < 2 ^ 32) :
    size ≤ n := by
  have rounded := Mem.align8_of_fits small
  rw [UInt32.le_iff_toNat_le] at fits ⊢
  omega

theorem Inv.accounted (inv : s.Inv) : s.Accounted := by
  obtain ⟨g, tables⟩ := inv.tables
  obtain ⟨ps, heap⟩ := inv.heap
  constructor
  case stack =>
    intro t used
    obtain ⟨p, mine⟩ := Option.isSome_iff_exists.mp (inv.used t used)
    obtain ⟨n, held, fits⟩ := inv.account.backed (.inl t) p mine
    exact ⟨p, n, mine, held, le_of_fits fits⟩
  case arg =>
    intro p size own
    have mine : s.block (.inr p) = some p := by rw [block, own, Option.map_some]
    obtain ⟨n, held, fits⟩ := inv.account.backed (.inr p) p mine
    rw [Fits, wants, own] at fits
    exact ⟨n, held, le_of_fits fits⟩
  case apart =>
    intro i j p q m n ne first second held held'
    have other : p ≠ q := by
      rintro rfl
      exact ne (inv.account.apart i j p first second)
    exact ⟨other, heap.holds_apart held held' other⟩
  case owner =>
    intro p n held
    obtain ⟨i, mine⟩ := inv.account.owned p n held
    cases i with
    | inl t =>
      refine .inl ⟨t, ?_, mine⟩
      -- a TCB that is not in use has no stack
      cases used : s.tables.k.tcbUsed t with
      | true => rfl
      | false =>
        have idle := tables.stackBase t used
        rw [block, idle] at mine
        cases mine
    | inr q =>
      obtain ⟨size, own, rfl⟩ := Option.map_eq_some_iff.mp mine
      exact .inr ⟨size, own⟩
  case nothing =>
    intro idle free
    apply heap.blockList_empty
    apply inv.account.nothing
    intro i
    cases i with
    | inl t => exact tables.stackBase t (idle t)
    | inr p => rw [block, free p, Option.map_none]

/-- Whatever has been created, launched, killed and freed, each block of the heap is one thread's
stack or one app's argument, and where none is left the heap is whole again. A launch ends, and one
that fails leaves nothing behind. -/
theorem memory_accounted (ops : List MemoryOp) :
    let s := Run.exec Memory.step .boot ops
    s.Accounted ∧ ∀ range priority arg, ∃ s' made, s.launch range priority arg = some (s', made) ∧
      (made = none → Restored s s') := by
  have inv := Inv.run ops
  refine ⟨inv.accounted, fun range priority arg => ?_⟩
  obtain ⟨s', made, ran, _, failed⟩ := inv.launch range priority arg
  exact ⟨s', made, ran, failed⟩

end Memory

end PicoOS.Shell
