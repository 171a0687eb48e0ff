import Mathlib
import PicoOS.Lib.Thumb

/-!
# The PendSV handler

`isr_pendsv` of sched_asm.S instruction by instruction, for the Cortex-M0+ and
for the Cortex-M33, and the frame `task_create_thread` lays down for it. The
handler calls `sched_next_thread`, which enters as the callee of the program.
-/
namespace PicoOS.Switch

open Thumb

inductive Arch
  | m0plus
  | m33
  deriving DecidableEq

def sioBase : Word := 0xD0000000

/-- r1 := &current_tcb[core_num]. -/
def loadSlot (currentTcb : Word) : List Instr :=
  [.ldrLit .r2 sioBase, .ldr .r2 .r2 0, .lsl .r2 .r2 2, .ldrLit .r1 currentTcb, .add .r1 .r1 .r2]

/-- Step 3. -/
def saveRegs : Arch → List Instr
  | .m33 => [.stmdb .r0 [.r4, .r5, .r6, .r7, .r8, .r9, .r10, .r11]]
  | .m0plus =>
    [.subImm .r0 .r0 32, .stmia .r0 [.r4, .r5, .r6, .r7],
      .mov .r4 .r8, .mov .r5 .r9, .mov .r6 .r10, .mov .r7 .r11,
      .stmia .r0 [.r4, .r5, .r6, .r7], .subImm .r0 .r0 32]

/-- Steps 1 to 4. -/
def saveContext (arch : Arch) (currentTcb : Word) : List Instr :=
  [.cpsidI, .mrsPsp .r0] ++ saveRegs arch ++ loadSlot currentTcb ++
    [.ldr .r1 .r1 0, .str .r0 .r1 16, .mov .r0 .lr, .str .r0 .r1 20]

/-- Step 5. -/
def callNext : List Instr := [.push [.lr], .bl, .pop [.r1]]

/-- Step 7. -/
def loadTcb : Arch → List Instr
  | .m33 => [.ldr .lr .r0 20, .ldr .r0 .r0 16]
  | .m0plus => [.ldr .r1 .r0 20, .mov .lr .r1, .ldr .r0 .r0 16]

/-- Step 8. -/
def restoreRegs : Arch → List Instr
  | .m33 => [.ldmia .r0 [.r4, .r5, .r6, .r7, .r8, .r9, .r10, .r11]]
  | .m0plus =>
    [.addImm .r0 .r0 16, .ldmia .r0 [.r4, .r5, .r6, .r7],
      .mov .r8 .r4, .mov .r9 .r5, .mov .r10 .r6, .mov .r11 .r7,
      .subImm .r0 .r0 32, .ldmia .r0 [.r4, .r5, .r6, .r7], .addImm .r0 .r0 16]

/-- Steps 6 to 10; step 11, `bx lr`, is the exception return. -/
def restoreContext (arch : Arch) (currentTcb : Word) : List Instr :=
  loadSlot currentTcb ++ [.str .r0 .r1 0] ++ loadTcb arch ++ restoreRegs arch ++
    [.msrPsp .r0, .cpsieI]

def isrPendsv (arch : Arch) (currentTcb : Word) : List Instr :=
  saveContext arch currentTcb ++ callNext ++ restoreContext arch currentTcb

/-- A PendSV exception from its entry to its return. -/
def pendsv (arch : Arch) (currentTcb : Word) (schedNextThread : Cpu → Cpu) (c : Cpu) : Cpu :=
  exceptionReturn (exec schedNextThread (isrPendsv arch currentTcb) (exceptionEntry c))

/-! ### What the two halves do -/

/-- The address of `current_tcb[core_num]`. -/
def slot (currentTcb : Word) (m : Memory) : Word := currentTcb + m sioBase <<< 2

variable {arch : Arch} {currentTcb tcb : Word} {callee : Cpu → Cpu} {c : Cpu}

/-- Both variants of step 3 store r4 to r11 below the frame and leave `r0` at the r4 word. -/
theorem saveRegs_spec (base : c.r .r0 = c.psp) :
    (exec callee (saveRegs arch) c).mem =
        writeWords c.mem (c.psp - 32) (calleeSaved.map c.r) ∧
      (exec callee (saveRegs arch) c).r .r0 = c.psp - 32 ∧
      (exec callee (saveRegs arch) c).r .lr = c.r .lr ∧
      (exec callee (saveRegs arch) c).s = c.s ∧
      (exec callee (saveRegs arch) c).msp = c.msp := by
  cases arch
  · simp [saveRegs, step, Cpu.set, base, bytes, calleeSaved, Function.update, writeWords,
      BitVec.add_assoc]
  · simp [saveRegs, step, base, bytes, calleeSaved, Function.update]

theorem loadSlot_spec :
    (exec callee (loadSlot currentTcb) c).mem = c.mem ∧
      (exec callee (loadSlot currentTcb) c).r .r1 = slot currentTcb c.mem ∧
      (exec callee (loadSlot currentTcb) c).r .r0 = c.r .r0 ∧
      (exec callee (loadSlot currentTcb) c).r .lr = c.r .lr ∧
      (exec callee (loadSlot currentTcb) c).s = c.s ∧
      (exec callee (loadSlot currentTcb) c).msp = c.msp := by
  simp [loadSlot, step, Cpu.set, slot]

variable (arch currentTcb callee c) in
/-- What the first half leaves in memory: r4 to r11 under the exception frame, and the TCB's
`saved_sp` and `exc_return`. -/
theorem saveContext_spec :
    let stacked := writeWords c.mem (c.psp - 32) (calleeSaved.map c.r)
    let tcb := stacked (slot currentTcb stacked)
    (exec callee (saveContext arch currentTcb) c).mem =
        Function.update (Function.update stacked (tcb + 16) (c.psp - 32)) (tcb + 20) (c.r .lr) ∧
      (exec callee (saveContext arch currentTcb) c).s = c.s ∧
      (exec callee (saveContext arch currentTcb) c).msp = c.msp := by
  intro stacked tcb
  let begun := exec callee [.cpsidI, .mrsPsp .r0] c
  let saved := exec callee (saveRegs arch) begun
  let slotted := exec callee (loadSlot currentTcb) saved
  obtain ⟨mem, base, lr, s, msp⟩ : saved.mem = stacked ∧ saved.r .r0 = c.psp - 32 ∧
      saved.r .lr = c.r .lr ∧ saved.s = c.s ∧ saved.msp = c.msp :=
    saveRegs_spec (c := begun) (by simp [begun, step, Cpu.set])
  obtain ⟨mem', address, base', lr', s', msp'⟩ : slotted.mem = saved.mem ∧
      slotted.r .r1 = slot currentTcb saved.mem ∧ slotted.r .r0 = saved.r .r0 ∧
      slotted.r .lr = saved.r .lr ∧ slotted.s = saved.s ∧ slotted.msp = saved.msp := loadSlot_spec
  have split : exec callee (saveContext arch currentTcb) c =
      exec callee [.ldr .r1 .r1 0, .str .r0 .r1 16, .mov .r0 .lr, .str .r0 .r1 20] slotted := by
    simp only [saveContext, exec_append, slotted, saved, begun]
  rw [split]
  simp [step, Cpu.set, Cpu.store, mem', address, base', lr', s', msp', mem, base, lr, s, msp, tcb]

variable (arch callee c) in
/-- Both variants of step 8 load r4 to r11 from the words at `r0` and leave `r0` behind them. -/
theorem restoreRegs_spec :
    (∀ old, Holds c.mem (c.r .r0) (calleeSaved.map old) →
        ∀ x ∈ calleeSaved, (exec callee (restoreRegs arch) c).r x = old x) ∧
      (exec callee (restoreRegs arch) c).r .r0 = c.r .r0 + 32 ∧
      (exec callee (restoreRegs arch) c).r .lr = c.r .lr ∧
      (exec callee (restoreRegs arch) c).mem = c.mem ∧
      (exec callee (restoreRegs arch) c).s = c.s := by
  cases arch
  · simp [restoreRegs, step, Cpu.set, bytes, calleeSaved, Function.update, loadRegs, Holds,
      BitVec.add_assoc]
  · simp [restoreRegs, step, bytes, calleeSaved, Function.update, loadRegs, Holds]

theorem saveContext_leaf : ∀ i ∈ saveContext arch currentTcb, i ≠ .bl := by
  cases arch <;> simp [saveContext, saveRegs, loadSlot]

/-- The handler around its call. -/
theorem pendsv_eq : pendsv arch currentTcb callee c =
    let called := step id (exec id (saveContext arch currentTcb) (exceptionEntry c)) (.push [.lr])
    exceptionReturn (exec callee (restoreContext arch currentTcb)
      (step id (callee called) (.pop [.r1]))) := by
  rw [pendsv, isrPendsv, exec_append, exec_append, exec_congr saveContext_leaf]
  rfl

variable (arch callee) in
/-- What the second half makes of the TCB in `r0`. -/
theorem restoreContext_spec {m : Memory}
    (current : m = Function.update c.mem (slot currentTcb c.mem) (c.r .r0)) :
    let sp := m (c.r .r0 + 16)
    let c' := exec callee (restoreContext arch currentTcb) c
    (∀ old, Holds m sp (calleeSaved.map old) → ∀ x ∈ calleeSaved, c'.r x = old x) ∧
      c'.psp = sp + 32 ∧ c'.r .lr = m (c.r .r0 + 20) ∧ c'.mem = m ∧ c'.s = c.s := by
  intro sp c'
  let slotted := exec callee (loadSlot currentTcb) c
  let stored := exec callee [.str .r0 .r1 0] slotted
  let loaded := exec callee (loadTcb arch) stored
  let restored := exec callee (restoreRegs arch) loaded
  obtain ⟨mem, address, base, lr, s, -⟩ : slotted.mem = c.mem ∧
      slotted.r .r1 = slot currentTcb c.mem ∧ slotted.r .r0 = c.r .r0 ∧
      slotted.r .lr = c.r .lr ∧ slotted.s = c.s ∧ slotted.msp = c.msp := loadSlot_spec
  have stored_mem : stored.mem = m := by
    simp [stored, step, Cpu.store, mem, address, base, current]
  obtain ⟨mem', base', lr', s'⟩ : loaded.mem = m ∧ loaded.r .r0 = sp ∧
      loaded.r .lr = m (c.r .r0 + 20) ∧ loaded.s = c.s := by
    have tcb : stored.r .r0 = c.r .r0 := base
    have regs : stored.s = c.s := s
    cases arch <;> simp [loaded, loadTcb, step, Cpu.set, stored_mem, tcb, regs, sp]
  obtain ⟨saved, above, lr'', mem'', s''⟩ := restoreRegs_spec arch callee loaded
  have split : c' = exec callee [.msrPsp .r0, .cpsieI] restored := by
    simp only [c', restoreContext, exec_append, restored, loaded, stored, slotted]
  have tail (d : Cpu) : (exec callee [.msrPsp .r0, .cpsieI] d).r = d.r ∧
      (exec callee [.msrPsp .r0, .cpsieI] d).psp = d.r .r0 ∧
      (exec callee [.msrPsp .r0, .cpsieI] d).mem = d.mem ∧
      (exec callee [.msrPsp .r0, .cpsieI] d).s = d.s := ⟨rfl, rfl, rfl, rfl⟩
  obtain ⟨r, psp, mem''', s'''⟩ := tail restored
  rw [split, r, psp, mem''', s''']
  refine ⟨?_, ?_, ?_, ?_, ?_⟩
  · intro old held
    rw [← mem', ← base'] at held
    exact saved old held
  · rw [above, base']
  · rw [lr'', lr']
  · rw [mem'', mem']
  · rw [s'', s']

end PicoOS.Switch
