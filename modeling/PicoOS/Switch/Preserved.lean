import Mathlib
import PicoOS.Switch.Threads

/-!
# Contexts survive their suspension

While a thread is suspended its TCB and its stack hold the context it had, and
the handler loads it from there: whatever the threads in between did, the
thread is resumed with the registers it was suspended with.
-/
namespace PicoOS.Switch

open Thumb

variable {T : Type} {L : Layout T} {arch : Arch} {m : Machine T}

/-! ### A saved context -/

/-- The TCB and the stack of `t` hold the context `c`. -/
structure Saved (L : Layout T) (mem : Memory) (stack : Set Word) (t : T) (c : Cpu)
    (moved : Bool) : Prop where
  excReturn : mem (L.excReturn t) = Thumb.excReturn c.fpca
  regs : Holds mem (mem (L.savedSp t)) (calleeSaved.map c.r)
  frame : Holds mem (mem (L.savedSp t) + 32) (frame c moved)
  psp : mem (L.savedSp t) + 32 + frameSize c.fpca + (if moved then 4 else 0) = c.psp
  free : c.xpsr.getLsbD 9 = false
  inside : span (mem (L.savedSp t)) (savedWords c) ⊆ stack

theorem length_saved (c : Cpu) (moved : Bool) :
    savedWords c = (calleeSaved.map c.r).length + (frame c moved).length := by
  rw [length_frame]
  rfl

/-- The area of a context is its registers and, behind them, its frame. -/
theorem span_saved (a : Word) (c : Cpu) (moved : Bool) :
    span a (savedWords c) = span a 8 ∪ span (a + 32) (frame c moved).length := by
  rw [length_saved c moved, span_append]
  rfl

theorem Saved.congr {mem mem' : Memory} {stack : Set Word} {t : T} {c : Cpu} {moved : Bool}
    (saved : Saved L mem stack t c moved) (same : ∀ x ∈ savedArea L mem t c, mem' x = mem x) :
    Saved L mem' stack t c moved := by
  have sp : mem' (L.savedSp t) = mem (L.savedSp t) := same _ (by simp [savedArea])
  have area (x : Word) (inside : x ∈ span (mem (L.savedSp t)) (savedWords c)) : mem' x = mem x :=
    same x (.inr inside)
  rw [span_saved _ c moved] at area
  constructor
  · rw [same _ (by simp [savedArea])]
    exact saved.excReturn
  · rw [sp]
    exact saved.regs.congr fun x inside => area x (.inl inside)
  · rw [sp]
    exact saved.frame.congr fun x inside => area x (.inr inside)
  · rw [sp]
    exact saved.psp
  · exact saved.free
  · rw [sp]
    exact saved.inside

/-- A context survives writes that leave its thread's stack and the two fields of its TCB. -/
theorem Saved.outside {mem mem' : Memory} {stack : Set Word} {t : T} {c : Cpu} {moved : Bool}
    (saved : Saved L mem stack t c moved) (same : ∀ x ∈ stack, mem' x = mem x)
    (sp : mem' (L.savedSp t) = mem (L.savedSp t))
    (exc : mem' (L.excReturn t) = mem (L.excReturn t)) : Saved L mem' stack t c moved := by
  apply saved.congr
  rintro x ((rfl | rfl) | inside)
  · exact sp
  · exact exc
  · exact same x (saved.inside inside)

/-- A context is saved once its words and the fields of its TCB are in place. -/
theorem Saved.intro {mem : Memory} {stack : Set Word} {t : T} {c : Cpu} {moved : Bool} {sp : Word}
    (savedSp : mem (L.savedSp t) = sp) (exc : mem (L.excReturn t) = Thumb.excReturn c.fpca)
    (held : Holds mem sp (calleeSaved.map c.r ++ Thumb.frame c moved))
    (psp : sp + 32 + frameSize c.fpca + (if moved then 4 else 0) = c.psp)
    (free : c.xpsr.getLsbD 9 = false) (inside : span sp (savedWords c) ⊆ stack) :
    Saved L mem stack t c moved := by
  subst savedSp
  rw [holds_append] at held
  exact ⟨exc, held.1, held.2, psp, free, inside⟩

/-! ### Cells and stacks -/

theorem savedSp_mem_cells (t : T) : L.savedSp t ∈ L.cells := .inl (.inr ⟨t, rfl⟩)

theorem excReturn_mem_cells (t : T) : L.excReturn t ∈ L.cells := .inr ⟨t, rfl⟩

theorem sio_mem_cells : sioBase ∈ L.cells := .inl (.inl (.inl rfl))

theorem slot_mem_cells : L.slot ∈ L.cells := .inl (.inl (.inr rfl))

theorem savedSp_ne {t u : T} (differ : t ≠ u) : L.savedSp t ≠ L.savedSp u := by
  intro equal
  exact differ (L.tcb_injective (add_right_cancel equal))

theorem excReturn_ne {t u : T} (differ : t ≠ u) : L.excReturn t ≠ L.excReturn u := by
  intro equal
  exact differ (L.tcb_injective (add_right_cancel equal))

theorem savedSp_ne_excReturn (t u : T) : L.savedSp t ≠ L.excReturn u := L.fields_apart t u

/-- What `t` has on its stack stays there while the fields of its TCB are written. -/
theorem tcb_writes {mem stacked mem' : Memory} {t : T} {a sp exc : Word} {ws : List Word}
    {stack : Set Word} (inside : span a ws.length ⊆ stack) (cells : Disjoint stack L.cells)
    (held : Holds stacked a ws) (outside : ∀ x ∉ stack, stacked x = mem x)
    (written : mem' = Function.update (Function.update stacked (L.savedSp t) sp)
      (L.excReturn t) exc) :
    mem' (L.savedSp t) = sp ∧ mem' (L.excReturn t) = exc ∧ Holds mem' a ws ∧
      ∀ x ∉ stack, x ≠ L.savedSp t → x ≠ L.excReturn t → mem' x = mem x := by
  subst written
  refine ⟨?_, Function.update_self _ _ _, ?_, ?_⟩
  · rw [Function.update_of_ne (savedSp_ne_excReturn t t), Function.update_self]
  · apply held.congr
    intro x member
    have apart : x ∉ L.cells := Set.disjoint_left.mp cells (inside member)
    have sp_ne : x ≠ L.savedSp t := fun equal => apart (equal ▸ savedSp_mem_cells t)
    have exc_ne : x ≠ L.excReturn t := fun equal => apart (equal ▸ excReturn_mem_cells t)
    rw [Function.update_of_ne exc_ne, Function.update_of_ne sp_ne]
  · intro x off sp_ne exc_ne
    rw [Function.update_of_ne exc_ne, Function.update_of_ne sp_ne, outside x off]

theorem taskCreateThread_spec {t : T} {stack : Set Word} {top : Word} (entry arg : Word) (mem : Memory)
    (inside : span (top - 64) 16 ⊆ stack) (cells : Disjoint stack L.cells) :
    let mem' := taskCreateThread L mem t top entry arg
    mem' (L.savedSp t) = top - 64 ∧ mem' (L.excReturn t) = 0xFFFFFFFD ∧
      Holds mem' (top - 64) (initialFrame L.threadExit entry arg) ∧
      ∀ x ∉ stack, x ≠ L.savedSp t → x ≠ L.excReturn t → mem' x = mem x :=
  tcb_writes inside cells
    (holds_writeWords (by simp [initialFrame]))
    (fun _ off => writeWords_frame fun member => off (inside member)) rfl

/-- A new thread has the context it is to start with. -/
theorem saved_create {t : T} {stack : Set Word} {top entry arg : Word} (c : Cpu)
    (inside : span (top - 64) 16 ⊆ stack) (cells : Disjoint stack L.cells) :
    Saved L (taskCreateThread L c.mem t top entry arg) stack t
      (initialCpu c L.threadExit top entry arg) false := by
  obtain ⟨savedSp, excReturn, held, -⟩ := taskCreateThread_spec entry arg c.mem inside cells
  have unwound : top - 64 + 32 + 32 + 0 = top := by bv_omega
  have thumb : (0x01000000 : Word).getLsbD 9 = false := by decide
  exact .intro savedSp excReturn held unwound thumb inside

/-- The exception frame and the registers below it, as the first half of the handler leaves them. -/
theorem stacked_spec (mem : Memory) {c : Cpu} (moved : Bool) {stack : Set Word} {sp : Word}
    (inside : span sp (savedWords c) ⊆ stack) :
    let stacked := writeWords (writeWords mem (sp + 32) (frame c moved)) sp (calleeSaved.map c.r)
    Holds stacked sp (calleeSaved.map c.r ++ frame c moved) ∧
      ∀ x ∉ stack, stacked x = mem x := by
  intro stacked
  have short : (frame c moved).length ≤ 25 := by
    rw [length_frame]
    split <;> omega
  have apart : Disjoint (span sp 8) (span (sp + 32) (frame c moved).length) :=
    span_disjoint (by omega)
  rw [span_saved sp c moved] at inside
  constructor
  · rw [holds_append]
    constructor
    · exact holds_writeWords (by simp [calleeSaved])
    · apply (holds_writeWords (by omega)).congr
      intro x member
      exact writeWords_frame (Set.disjoint_right.mp apart member)
  · intro x off
    have below : stacked x = writeWords mem (sp + 32) (frame c moved) x :=
      writeWords_frame fun member => off (inside (.inl member))
    exact below.trans (writeWords_frame fun member => off (inside (.inr member)))

/-! ### The invariant -/

structure Inv (L : Layout T) (m : Machine T) : Prop where
  sio : m.cpu.mem sioBase = L.core
  slot : m.cpu.mem L.slot = L.tcb m.current
  current : m.suspended m.current = none
  apart : ∀ t u, m.Live t → m.Live u → t ≠ u → Disjoint (m.stack t) (m.stack u)
  cells : ∀ t, m.Live t → Disjoint (m.stack t) L.cells
  saved : ∀ t c, m.suspended t = some c → ∃ moved, Saved L m.cpu.mem (m.stack t) t c moved

theorem Initial.inv (initial : Initial L arch m) : Inv L m := by
  have only (t : T) (live : m.Live t) : t = m.current :=
    live.resolve_right (not_not.mpr (initial.alone t))
  constructor
  · exact initial.sio
  · exact initial.current
  · exact initial.alone m.current
  · intro t u live live' differ
    exact absurd ((only t live).trans (only u live').symm) differ
  · intro t live
    rw [only t live]
    exact initial.stack
  · intro t c suspended
    rw [initial.alone t] at suspended
    cases suspended

variable (arch) in
/-- What the first half of the handler leaves of the current thread. -/
theorem saveContext_current (invariant : Inv L m) (aligned : m.cpu.psp % 4 = 0) (free : m.cpu.xpsr.getLsbD 9 = false)
    (room : span ((exceptionEntry m.cpu).psp - 32) (savedWords m.cpu) ⊆ m.stack m.current) :
    let after := exec id (saveContext arch L.currentTcb) (exceptionEntry m.cpu)
    (∃ moved, Saved L after.mem (m.stack m.current) m.current m.cpu moved) ∧
      (∀ x ∉ m.stack m.current, x ≠ L.savedSp m.current → x ≠ L.excReturn m.current →
        after.mem x = m.cpu.mem x) ∧
      after.s = m.cpu.s ∧ after.msp = m.cpu.msp := by
  intro after
  obtain ⟨entered, is_entry⟩ : ∃ entered, entered = exceptionEntry m.cpu := ⟨_, rfl⟩
  obtain ⟨moved, is_moved⟩ : ∃ moved : Bool, moved = decide (alignment m.cpu ≠ 0) := ⟨_, rfl⟩
  let sp := entered.psp - 32
  let stacked := writeWords entered.mem sp (calleeSaved.map entered.r)
  have stack_cells := invariant.cells m.current (.inl rfl)
  have above : sp + 32 = entered.psp := sub_add_cancel entered.psp 32
  have psp : sp + 32 + frameSize m.cpu.fpca + (if moved then 4 else 0) = m.cpu.psp := by
    rw [above, is_entry, is_moved]
    exact entry_psp aligned
  have stacked_eq : stacked = writeWords (writeWords m.cpu.mem (sp + 32) (frame m.cpu moved)) sp
      (calleeSaved.map m.cpu.r) := by
    have mem : entered.mem = writeWords m.cpu.mem (sp + 32) (frame m.cpu moved) := by
      rw [above, is_moved, is_entry, exceptionEntry_mem]
    have regs : calleeSaved.map entered.r = calleeSaved.map m.cpu.r := by
      rw [is_entry, exceptionEntry_saved]
    rw [← mem, ← regs]
  rw [← is_entry] at room
  obtain ⟨held, outside⟩ := stacked_spec m.cpu.mem moved room
  rw [← stacked_eq] at held outside
  -- the handler finds the current thread's TCB through cells that no stack covers
  have cell (x : Word) (member : x ∈ L.cells) : stacked x = m.cpu.mem x :=
    outside x (Set.disjoint_right.mp stack_cells member)
  have slot : stacked (Switch.slot L.currentTcb stacked) = L.tcb m.current := by
    rw [Switch.slot, cell _ sio_mem_cells, invariant.sio]
    exact (cell _ slot_mem_cells).trans invariant.slot
  obtain ⟨mem, s, msp⟩ := saveContext_spec arch L.currentTcb id entered
  have after_eq : exec id (saveContext arch L.currentTcb) entered = after := by rw [is_entry]
  rw [after_eq] at mem s msp
  have written : after.mem = Function.update (Function.update stacked (L.savedSp m.current) sp)
      (L.excReturn m.current) (Thumb.excReturn m.cpu.fpca) := by
    have lr : entered.r .lr = Thumb.excReturn m.cpu.fpca := by rw [is_entry, exceptionEntry_lr]
    simp only [stacked] at slot
    rw [mem, ← lr, slot]
    rfl
  have inside : span sp (calleeSaved.map m.cpu.r ++ frame m.cpu moved).length ⊆
      m.stack m.current := by
    rw [List.length_append, ← length_saved]
    exact room
  obtain ⟨savedSp, excReturn, kept, elsewhere⟩ := tcb_writes inside stack_cells held outside written
  refine ⟨⟨moved, .intro savedSp excReturn kept psp free room⟩, elsewhere, ?_, ?_⟩
  · rw [s, is_entry]
    rfl
  · rw [msp, is_entry]
    rfl

section Steps

variable [DecidableEq T]

theorem live_of_context {t : T} {c : Cpu} (context : m.context t = some c) : m.Live t := by
  by_cases current : t = m.current
  · exact .inl current
  · rw [Machine.context, if_neg current] at context
    exact .inr (by simp [context])

theorem context_of_live {t : T} (live : m.Live t) : ∃ c, m.context t = some c := by
  rw [← Option.isSome_iff_exists, Machine.context]
  split
  · rfl
  · rename_i other
    exact Option.isSome_iff_ne_none.mpr (live.resolve_left other)

variable (invariant : Inv L m)

include invariant

theorem inv_run {c : Cpu} (allowed : Allowed L arch m (.run c)) : Inv L (step L arch m (.run c)) := by
  obtain ⟨sio, slot, kept, -⟩ := allowed
  constructor
  · exact sio.trans invariant.sio
  · exact slot.trans invariant.slot
  · exact invariant.current
  · exact invariant.apart
  · exact invariant.cells
  · intro t d suspended
    obtain ⟨moved, saved⟩ := invariant.saved t d suspended
    exact ⟨moved, saved.congr (kept t d suspended)⟩

theorem inv_create {t : T} {stack : Set Word} {top entry arg : Word}
    (allowed : Allowed L arch m (.create t stack top entry arg)) :
    Inv L (step L arch m (.create t stack top entry arg)) := by
  obtain ⟨fresh, inside, cells, apart⟩ := allowed
  obtain ⟨-, -, -, elsewhere⟩ := taskCreateThread_spec entry arg m.cpu.mem inside cells
  have not_current : m.current ≠ t := fun equal => fresh (.inl equal.symm)
  have cell (x : Word) (member : x ∈ L.cells) (sp_ne : x ≠ L.savedSp t) (exc_ne : x ≠ L.excReturn t) :
      taskCreateThread L m.cpu.mem t top entry arg x = m.cpu.mem x :=
    elsewhere x (Set.disjoint_right.mp cells member) sp_ne exc_ne
  have old (u : T) (differ : u ≠ t) (live : (step L arch m (.create t stack top entry arg)).Live u) :
      m.Live u := by
    rcases live with current | suspended
    · exact .inl current
    · exact .inr (by simpa [step, Function.update_of_ne differ] using suspended)
  have stack_old (u : T) (differ : u ≠ t) :
      (step L arch m (.create t stack top entry arg)).stack u = m.stack u :=
    Function.update_of_ne differ _ _
  have stack_new : (step L arch m (.create t stack top entry arg)).stack t = stack :=
    Function.update_self _ _ _
  constructor
  · exact (cell _ sio_mem_cells (L.sio_apart t).1 (L.sio_apart t).2).trans invariant.sio
  · exact (cell _ slot_mem_cells (L.slot_apart t).1 (L.slot_apart t).2).trans invariant.slot
  · exact (Function.update_of_ne not_current _ _).trans invariant.current
  · intro u v one two differ
    by_cases new : u = t
    · subst new
      rw [stack_new, stack_old v differ.symm]
      exact apart v (old v differ.symm two)
    · rw [stack_old u new]
      by_cases new' : v = t
      · subst new'
        rw [stack_new]
        exact (apart u (old u new one)).symm
      · rw [stack_old v new']
        exact invariant.apart u v (old u new one) (old v new' two) differ
  · intro u live
    by_cases new : u = t
    · subst new
      rw [stack_new]
      exact cells
    · rw [stack_old u new]
      exact invariant.cells u (old u new live)
  · intro u c suspended
    by_cases new : u = t
    · subst new
      simp only [step, Function.update_self, Option.some_inj] at suspended
      subst suspended
      rw [stack_new]
      exact ⟨false, saved_create m.cpu inside cells⟩
    · rw [stack_old u new]
      have before : m.suspended u = some c := by
        simpa [step, Function.update_of_ne new] using suspended
      have live : m.Live u := .inr (by simp [before])
      obtain ⟨moved, saved⟩ := invariant.saved u c before
      refine ⟨moved, saved.outside ?_ ?_ ?_⟩
      · intro x member
        have not_cell : x ∉ L.cells := Set.disjoint_left.mp (invariant.cells u live) member
        exact elsewhere x (Set.disjoint_right.mp (apart u live) member)
          (fun equal => not_cell (equal ▸ savedSp_mem_cells t))
          (fun equal => not_cell (equal ▸ excReturn_mem_cells t))
      · exact cell _ (savedSp_mem_cells u) (savedSp_ne new) (savedSp_ne_excReturn u t)
      · exact cell _ (excReturn_mem_cells u) (savedSp_ne_excReturn t u).symm (excReturn_ne new)

theorem inv_free {t : T} : Inv L (step L arch m (.free t)) := by
  have live (u : T) (still : (step L arch m (.free t)).Live u) : m.Live u := by
    rcases still with current | suspended
    · exact .inl current
    · by_cases freed : u = t
      · subst freed
        exact absurd (Function.update_self _ _ _) suspended
      · exact .inr (by simpa [step, Function.update_of_ne freed] using suspended)
  constructor
  · exact invariant.sio
  · exact invariant.slot
  · by_cases freed : m.current = t
    · exact freed ▸ Function.update_self _ _ _
    · exact (Function.update_of_ne freed _ _).trans invariant.current
  · intro u v one two differ
    exact invariant.apart u v (live u one) (live v two) differ
  · intro u one
    exact invariant.cells u (live u one)
  · intro u c suspended
    by_cases freed : u = t
    · subst freed
      simp [step] at suspended
    · exact invariant.saved u c (by simpa [step, Function.update_of_ne freed] using suspended)

variable (arch) in
/-- When `sched_next_thread` is called, every live thread's context is saved, the current
thread's among them. -/
theorem atCall_spec (aligned : m.cpu.psp % 4 = 0) (free : m.cpu.xpsr.getLsbD 9 = false)
    (room : span ((exceptionEntry m.cpu).psp - 32) (savedWords m.cpu) ⊆ m.stack m.current)
    (main_cells : m.cpu.msp - 4 ∉ L.cells)
    (main_stacks : ∀ t, m.Live t → m.cpu.msp - 4 ∉ m.stack t) :
    (∀ t c, m.context t = some c →
        ∃ moved, Saved L (atCall L arch m.cpu).mem (m.stack t) t c moved) ∧
      (atCall L arch m.cpu).mem sioBase = L.core ∧ (atCall L arch m.cpu).s = m.cpu.s := by
  obtain ⟨own, elsewhere, s, msp⟩ := saveContext_current arch invariant aligned free room
  obtain ⟨after, is_after⟩ : ∃ after,
      after = exec id (saveContext arch L.currentTcb) (exceptionEntry m.cpu) := ⟨_, rfl⟩
  rw [← is_after] at own elsewhere s msp
  have stack_cells := invariant.cells m.current (.inl rfl)
  have pushed : (atCall L arch m.cpu).mem =
      Function.update after.mem (m.cpu.msp - 4) (after.r .lr) := by
    rw [← msp, is_after]
    rfl
  have called_cell (x : Word) (member : x ∈ L.cells) :
      (atCall L arch m.cpu).mem x = after.mem x := by
    have differ : x ≠ m.cpu.msp - 4 := fun equal => main_cells (equal ▸ member)
    rw [pushed, Function.update_of_ne differ]
  have called_stack (t : T) (live : m.Live t) (x : Word) (member : x ∈ m.stack t) :
      (atCall L arch m.cpu).mem x = after.mem x := by
    have differ : x ≠ m.cpu.msp - 4 := fun equal => main_stacks t live (equal ▸ member)
    rw [pushed, Function.update_of_ne differ]
  have after_cell (x : Word) (member : x ∈ L.cells) (sp_ne : x ≠ L.savedSp m.current)
      (exc_ne : x ≠ L.excReturn m.current) : after.mem x = m.cpu.mem x :=
    elsewhere x (Set.disjoint_right.mp stack_cells member) sp_ne exc_ne
  refine ⟨?_, ?_, ?_⟩
  · intro t c context
    have saved : ∃ moved, Saved L after.mem (m.stack t) t c moved := by
      by_cases current : t = m.current
      · subst current
        rw [Machine.context, if_pos rfl, Option.some_inj] at context
        exact context ▸ own
      · rw [Machine.context, if_neg current] at context
        obtain ⟨moved, saved⟩ := invariant.saved t c context
        have live : m.Live t := .inr (by simp [context])
        have apart := invariant.apart t m.current live (.inl rfl) current
        refine ⟨moved, saved.outside ?_ ?_ ?_⟩
        · intro x member
          have not_cell : x ∉ L.cells := Set.disjoint_left.mp (invariant.cells t live) member
          exact elsewhere x (Set.disjoint_left.mp apart member)
            (fun equal => not_cell (equal ▸ savedSp_mem_cells m.current))
            (fun equal => not_cell (equal ▸ excReturn_mem_cells m.current))
        · exact after_cell _ (savedSp_mem_cells t) (savedSp_ne current)
            (savedSp_ne_excReturn t m.current)
        · exact after_cell _ (excReturn_mem_cells t) (savedSp_ne_excReturn m.current t).symm
            (excReturn_ne current)
    have live := live_of_context context
    obtain ⟨moved, saved⟩ := saved
    exact ⟨moved, saved.outside (called_stack t live) (called_cell _ (savedSp_mem_cells t))
      (called_cell _ (excReturn_mem_cells t))⟩
  · rw [called_cell _ sio_mem_cells,
      after_cell _ sio_mem_cells (L.sio_apart _).1 (L.sio_apart _).2]
    exact invariant.sio
  · rw [← s, is_after]
    rfl

/-- A whole switch: the next thread has its processor again, and s16 to s31 are those of the
thread before. -/
theorem switch_spec {next : T} {schedNextThread : Cpu → Cpu} {kept : T → Bool}
    (allowed : Allowed L arch m (.switch next schedNextThread kept)) :
    let cpu := pendsv arch L.currentTcb schedNextThread m.cpu
    (∃ c, m.context next = some c ∧ SameThread c cpu) ∧
      (∀ i : Fin 32, 16 ≤ i.val → cpu.s i = m.cpu.s i) ∧
      cpu.mem sioBase = L.core ∧ cpu.mem L.slot = L.tcb next ∧
      ∀ t c, kept t → m.context t = some c →
        ∃ moved, Saved L cpu.mem (m.stack t) t c moved := by
  obtain ⟨aligned, free, room, main_cells, main_stacks, live, chosen, r0, sio, high, kept_mem⟩ :=
    allowed
  obtain ⟨saved, called_sio, called_s⟩ :=
    atCall_spec arch invariant aligned free room main_cells main_stacks
  intro cpu
  obtain ⟨returned, is_returned⟩ : ∃ returned, returned = schedNextThread (atCall L arch m.cpu) :=
    ⟨_, rfl⟩
  rw [← is_returned] at r0 sio high kept_mem
  let popped := Thumb.step id returned (.pop [.r1])
  have popped_r0 : popped.r .r0 = L.tcb next := r0
  have popped_slot : Switch.slot L.currentTcb popped.mem = L.slot := by
    rw [Switch.slot, show popped.mem sioBase = L.core from sio.trans called_sio]
    rfl
  obtain ⟨mem, is_mem⟩ : ∃ mem, mem = Function.update returned.mem L.slot (L.tcb next) := ⟨_, rfl⟩
  have stored : mem =
      Function.update popped.mem (Switch.slot L.currentTcb popped.mem) (popped.r .r0) := by
    rw [popped_slot, popped_r0, is_mem]
    rfl
  obtain ⟨regs, psp, lr, restored_mem, restored_s⟩ :=
    restoreContext_spec arch schedNextThread stored
  obtain ⟨loaded, is_loaded⟩ : ∃ loaded,
      loaded = exec schedNextThread (restoreContext arch L.currentTcb) popped := ⟨_, rfl⟩
  rw [← is_loaded] at regs psp lr restored_mem restored_s
  rw [popped_r0] at regs psp lr
  have cpu_eq : cpu = exceptionReturn loaded := by
    rw [is_loaded]
    simp only [popped, is_returned]
    exact pendsv_eq
  have keep (t : T) (c : Cpu) (kept_t : kept t) (context : m.context t = some c) :
      ∃ moved, Saved L mem (m.stack t) t c moved := by
    obtain ⟨moved, at_call⟩ := saved t c context
    have after := at_call.congr (kept_mem t c kept_t context)
    have ne_slot (x : Word) (differ : L.slot ≠ x) : mem x = returned.mem x := by
      rw [is_mem, Function.update_of_ne differ.symm]
    refine ⟨moved, after.outside ?_ (ne_slot _ (L.slot_apart t).1) (ne_slot _ (L.slot_apart t).2)⟩
    intro x member
    apply ne_slot
    rintro rfl
    exact Set.disjoint_left.mp (invariant.cells t (live_of_context context)) member slot_mem_cells
  rw [cpu_eq]
  refine ⟨?_, ?_, ?_, ?_, ?_⟩
  · obtain ⟨c, context⟩ := context_of_live live
    obtain ⟨moved, found⟩ := keep next c chosen context
    refine ⟨c, context, exceptionReturn_restores moved found.free ?_ ?_ ?_ ?_⟩
    · rw [psp, restored_mem]
      exact found.frame
    · rw [psp]
      exact found.psp
    · rw [lr]
      exact found.excReturn
    · exact regs c.r found.regs
  · intro i upper
    rw [exceptionReturn_high upper, restored_s, ← called_s]
    exact high i upper
  · have apart : sioBase ≠ L.slot := L.sio_slot
    rw [exceptionReturn_mem, restored_mem, is_mem, Function.update_of_ne apart]
    exact sio.trans called_sio
  · rw [exceptionReturn_mem, restored_mem, is_mem, Function.update_self]
  · rw [exceptionReturn_mem, restored_mem]
    exact keep

theorem inv_switch {next : T} {schedNextThread : Cpu → Cpu} {kept : T → Bool}
    (allowed : Allowed L arch m (.switch next schedNextThread kept)) :
    Inv L (step L arch m (.switch next schedNextThread kept)) := by
  obtain ⟨-, -, sio, slot, saved⟩ := switch_spec invariant allowed
  have next_live : m.Live next := allowed.2.2.2.2.2.1
  have of_suspended {t : T} {c : Cpu}
      (suspended : (step L arch m (.switch next schedNextThread kept)).suspended t = some c) :
      (kept t ∧ t ≠ next) ∧ m.context t = some c := by
    simp only [step] at suspended
    split at suspended
    · rename_i stays
      exact ⟨stays, suspended⟩
    · cases suspended
  have live (t : T) (still : (step L arch m (.switch next schedNextThread kept)).Live t) :
      m.Live t := by
    rcases still with rfl | suspended
    · exact next_live
    · obtain ⟨c, found⟩ := Option.ne_none_iff_exists'.mp suspended
      exact live_of_context (of_suspended found).2
  constructor
  · exact sio
  · exact slot
  · have not_kept : ¬ (kept next ∧ next ≠ next) := fun stays => stays.2 rfl
    exact if_neg not_kept
  · intro t u one two differ
    exact invariant.apart t u (live t one) (live u two) differ
  · intro t one
    exact invariant.cells t (live t one)
  · intro t c suspended
    obtain ⟨stays, context⟩ := of_suspended suspended
    exact saved t c stays.1 context

/-- Every step keeps the contexts of the suspended threads in place. -/
theorem inv_step (e : Event T) (allowed : Allowed L arch m e) : Inv L (step L arch m e) := by
  cases e with
  | run c => exact inv_run invariant allowed
  | create t stack top entry arg => exact inv_create invariant allowed
  | free t => exact inv_free invariant
  | switch next schedNextThread kept => exact inv_switch invariant allowed

end Steps

end PicoOS.Switch
