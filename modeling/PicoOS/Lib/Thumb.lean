import Mathlib

/-!
# A Thumb core

Registers, stack pointers and word memory of a Cortex-M core, the
instructions a context switch is written in, and what the hardware stacks on
exception entry and pops on exception return. Memory is read and written in
aligned words, so it is a function of the word's address; the flags are left
out, no instruction here reads them.
-/
namespace Thumb

abbrev Word := BitVec 32

abbrev Memory := Word → Word

inductive Reg
  | r0 | r1 | r2 | r3 | r4 | r5 | r6 | r7 | r8 | r9 | r10 | r11 | r12 | lr
  deriving DecidableEq

structure Cpu where
  r : Reg → Word
  msp : Word
  psp : Word
  pc : Word
  xpsr : Word
  s : Fin 32 → Word
  fpscr : Word
  fpca : Bool
  primask : Bool
  mem : Memory

namespace Cpu

def set (c : Cpu) (x : Reg) (w : Word) : Cpu := { c with r := Function.update c.r x w }

def store (c : Cpu) (a w : Word) : Cpu := { c with mem := Function.update c.mem a w }

end Cpu

/-! ### Runs of words in memory -/

/-- The cells of `n` words from `a` on. -/
def span (a : Word) (n : Nat) : Set Word := {x | ∃ i < n, x = a + 4 * BitVec.ofNat 32 i}

def writeWords (m : Memory) (a : Word) : List Word → Memory
  | [] => m
  | w :: ws => writeWords (Function.update m a w) (a + 4) ws

/-- `m` holds the words `ws` from `a` on. -/
def Holds (m : Memory) (a : Word) : List Word → Prop
  | [] => True
  | w :: ws => m a = w ∧ Holds m (a + 4) ws

/-- The registers after words from `a` on are loaded into `regs`. -/
def loadRegs (m : Memory) (a : Word) (r : Reg → Word) : List Reg → Reg → Word
  | [] => r
  | x :: regs => loadRegs m (a + 4) (Function.update r x (m a)) regs

section Words

variable {m m' : Memory} {a b x : Word} {n : Nat} {ws us : List Word}

theorem four_mul_succ (i : Nat) :
    a + 4 * BitVec.ofNat 32 (i + 1) = a + 4 + 4 * BitVec.ofNat 32 i := by
  have ofNat_succ : BitVec.ofNat 32 (i + 1) = BitVec.ofNat 32 i + 1 := by
    rw [BitVec.ofNat_add]
    rfl
  rw [ofNat_succ]
  ring

theorem mem_span_succ : x ∈ span a (n + 1) ↔ x = a ∨ x ∈ span (a + 4) n := by
  constructor
  · rintro ⟨i, below, rfl⟩
    cases i with
    | zero => exact .inl (by simp)
    | succ i => exact .inr ⟨i, by omega, four_mul_succ i⟩
  · rintro (rfl | ⟨i, below, rfl⟩)
    · exact ⟨0, by omega, by simp⟩
    · exact ⟨i + 1, by omega, (four_mul_succ i).symm⟩

@[simp] theorem not_mem_span_zero : x ∉ span a 0 := by
  rintro ⟨i, below, -⟩
  omega

/-- The first cell of a run is not met again before the addresses wrap around. -/
theorem first_not_mem (short : 4 * (n + 1) ≤ 2 ^ 32) : a ∉ span (a + 4) n := by
  rintro ⟨i, below, wraps⟩
  have zero : (4 + 4 * BitVec.ofNat 32 i : Word) = 0 := by
    have cancelled : a + 0 = a + (4 + 4 * BitVec.ofNat 32 i) := by
      rw [add_zero, ← add_assoc, ← wraps]
    exact (add_left_cancel cancelled).symm
  have value := congrArg BitVec.toNat zero
  simp only [BitVec.toNat_add, BitVec.toNat_mul, BitVec.toNat_ofNat, BitVec.ofNat_eq_ofNat] at value
  omega

theorem writeWords_frame (outside : x ∉ span a ws.length) : writeWords m a ws x = m x := by
  induction ws generalizing m a with
  | nil => rfl
  | cons w ws ih =>
    rw [List.length_cons, mem_span_succ, not_or] at outside
    rw [writeWords, ih outside.2, Function.update_of_ne outside.1]

theorem holds_writeWords (short : 4 * ws.length ≤ 2 ^ 32) : Holds (writeWords m a ws) a ws := by
  induction ws generalizing m a with
  | nil => trivial
  | cons w ws ih =>
    rw [List.length_cons] at short
    constructor
    · rw [writeWords, writeWords_frame (first_not_mem short), Function.update_self]
    · exact ih (by omega)

theorem Holds.congr (held : Holds m a ws) (same : ∀ x ∈ span a ws.length, m' x = m x) :
    Holds m' a ws := by
  induction ws generalizing a with
  | nil => trivial
  | cons w ws ih =>
    constructor
    · rw [same a (mem_span_succ.mpr (.inl rfl))]
      exact held.1
    · exact ih held.2 fun x inside => same x (mem_span_succ.mpr (.inr inside))

theorem Holds.get (held : Holds m a ws) {i : Nat} (at_i : ws[i]? = some x) :
    m (a + 4 * BitVec.ofNat 32 i) = x := by
  induction ws generalizing a i with
  | nil => simp at at_i
  | cons w ws ih =>
    cases i with
    | zero =>
      rw [List.getElem?_cons_zero, Option.some_inj] at at_i
      simpa [at_i] using held.1
    | succ i =>
      rw [four_mul_succ]
      exact ih held.2 at_i

theorem holds_append :
    Holds m a (ws ++ us) ↔ Holds m a ws ∧ Holds m (a + 4 * BitVec.ofNat 32 ws.length) us := by
  induction ws generalizing a with
  | nil => simp [Holds]
  | cons w ws ih =>
    rw [List.cons_append, Holds, Holds, ih, List.length_cons, four_mul_succ, and_assoc]

theorem span_append : span a (n + k) = span a n ∪ span (a + 4 * BitVec.ofNat 32 n) k := by
  induction n generalizing a with
  | zero => ext x; simp
  | succ n ih =>
    ext x
    rw [Nat.add_right_comm, mem_span_succ, ih, four_mul_succ, Set.mem_union, Set.mem_union,
      mem_span_succ, or_assoc]

/-- Two runs of words one behind the other do not meet. -/
theorem span_disjoint (short : 4 * (n + k) ≤ 2 ^ 32) :
    Disjoint (span a n) (span (a + 4 * BitVec.ofNat 32 n) k) := by
  induction n generalizing a with
  | zero => exact Set.disjoint_left.mpr fun x none => absurd none not_mem_span_zero
  | succ n ih =>
    have first : a ∉ span (a + 4) (n + k) := first_not_mem (by omega)
    rw [span_append] at first
    rw [Set.disjoint_left]
    intro x member
    rw [four_mul_succ]
    rcases mem_span_succ.mp member with rfl | later
    · exact fun behind => first (.inr behind)
    · exact Set.disjoint_left.mp (ih (by omega)) later

/-- A register that is not in the list keeps its value. -/
theorem loadRegs_frame {r : Reg → Word} {regs : List Reg} {y : Reg} (absent : y ∉ regs) :
    loadRegs m a r regs y = r y := by
  induction regs generalizing a r with
  | nil => rfl
  | cons x regs ih =>
    rw [List.mem_cons, not_or] at absent
    rw [loadRegs, ih absent.2, Function.update_of_ne absent.1]

/-- Registers loaded from where their values were written have these values again. -/
theorem loadRegs_eq {r old : Reg → Word} {regs : List Reg} (distinct : regs.Nodup)
    (held : Holds m a (regs.map old)) {y : Reg} (member : y ∈ regs) :
    loadRegs m a r regs y = old y := by
  induction regs generalizing a r with
  | nil => cases member
  | cons x regs ih =>
    rw [List.nodup_cons] at distinct
    rw [loadRegs]
    rcases List.mem_cons.mp member with rfl | later
    · rw [loadRegs_frame distinct.1, Function.update_self]
      exact held.1
    · exact ih distinct.2 held.2 later

end Words

/-! ### Instructions -/

inductive Instr
  | cpsidI
  | cpsieI
  | mrsPsp (rd : Reg)
  | msrPsp (rn : Reg)
  | mov (rd rm : Reg)
  | ldrLit (rd : Reg) (w : Word)
  | ldr (rt rn : Reg) (imm : Word)
  | str (rt rn : Reg) (imm : Word)
  | addImm (rd rn : Reg) (imm : Word)
  | subImm (rd rn : Reg) (imm : Word)
  | add (rd rn rm : Reg)
  | lsl (rd rm : Reg) (n : Nat)
  | stmia (rn : Reg) (regs : List Reg)
  | stmdb (rn : Reg) (regs : List Reg)
  | ldmia (rn : Reg) (regs : List Reg)
  | push (regs : List Reg)
  | pop (regs : List Reg)
  | bl

/-- The bytes of a register list. -/
def bytes (regs : List Reg) : Word := 4 * BitVec.ofNat 32 regs.length

/-- One instruction. The multiple loads and stores write the base register back; `push` and `pop`
use MSP, the stack of handler mode; `bl` is one call of `callee`, from entry to return. -/
def step (callee : Cpu → Cpu) (c : Cpu) : Instr → Cpu
  | .cpsidI => { c with primask := true }
  | .cpsieI => { c with primask := false }
  | .mrsPsp rd => c.set rd c.psp
  | .msrPsp rn => { c with psp := c.r rn }
  | .mov rd rm => c.set rd (c.r rm)
  | .ldrLit rd w => c.set rd w
  | .ldr rt rn imm => c.set rt (c.mem (c.r rn + imm))
  | .str rt rn imm => c.store (c.r rn + imm) (c.r rt)
  | .addImm rd rn imm => c.set rd (c.r rn + imm)
  | .subImm rd rn imm => c.set rd (c.r rn - imm)
  | .add rd rn rm => c.set rd (c.r rn + c.r rm)
  | .lsl rd rm n => c.set rd (c.r rm <<< n)
  | .stmia rn regs =>
    { c with
      mem := writeWords c.mem (c.r rn) (regs.map c.r)
      r := Function.update c.r rn (c.r rn + bytes regs) }
  | .stmdb rn regs =>
    { c with
      mem := writeWords c.mem (c.r rn - bytes regs) (regs.map c.r)
      r := Function.update c.r rn (c.r rn - bytes regs) }
  | .ldmia rn regs =>
    { c with r := Function.update (loadRegs c.mem (c.r rn) c.r regs) rn (c.r rn + bytes regs) }
  | .push regs =>
    { c with
      mem := writeWords c.mem (c.msp - bytes regs) (regs.map c.r)
      msp := c.msp - bytes regs }
  | .pop regs =>
    { c with
      r := loadRegs c.mem c.msp c.r regs
      msp := c.msp + bytes regs }
  | .bl => callee c

/-- A straight piece of program. -/
def exec (callee : Cpu → Cpu) (program : List Instr) (c : Cpu) : Cpu :=
  program.foldl (step callee) c

@[simp] theorem exec_nil (callee : Cpu → Cpu) (c : Cpu) : exec callee [] c = c := rfl

@[simp] theorem exec_cons (callee : Cpu → Cpu) (i : Instr) (is : List Instr) (c : Cpu) :
    exec callee (i :: is) c = exec callee is (step callee c i) := rfl

theorem exec_append (callee : Cpu → Cpu) (is js : List Instr) (c : Cpu) :
    exec callee (is ++ js) c = exec callee js (exec callee is c) :=
  List.foldl_append

/-- Code without a call does not depend on the callee. -/
theorem exec_congr {f g : Cpu → Cpu} {program : List Instr} (leaf : ∀ i ∈ program, i ≠ .bl)
    (c : Cpu) : exec f program c = exec g program c := by
  induction program generalizing c with
  | nil => rfl
  | cons i is ih =>
    have same : step f c i = step g c i := by
      cases i with
      | bl => exact absurd rfl (leaf .bl List.mem_cons_self)
      | _ => rfl
    rw [exec_cons, exec_cons, same]
    exact ih (fun j member => leaf j (List.mem_cons_of_mem i member)) (step g c i)

/-! ### Exceptions -/

/-- EXC_RETURN for thread mode on PSP: bit 4 is clear when floating-point state was stacked. -/
def excReturn (fpca : Bool) : Word := if fpca then 0xFFFFFFED else 0xFFFFFFFD

/-- The size of the frame: 8 words, or 26 with floating-point state. -/
def frameSize (fpca : Bool) : Word := if fpca then 104 else 32

/-- Bit 9 of the stacked xPSR: the stack pointer was moved down a word to align the frame. -/
def stackedXpsr (xpsr : Word) (moved : Bool) : Word := if moved then xpsr ||| 0x200 else xpsr

/-- The words of the frame; the last word of an extended frame is reserved and not written. -/
def frame (c : Cpu) (moved : Bool) : List Word :=
  [c.r .r0, c.r .r1, c.r .r2, c.r .r3, c.r .r12, c.r .lr, c.pc, stackedXpsr c.xpsr moved] ++
    if c.fpca then (List.ofFn fun i : Fin 16 => c.s (i.castLE (by omega))) ++ [c.fpscr] else []

/-- The bytes the frame is moved down by; PSP is a multiple of four. -/
def alignment (c : Cpu) : Word := c.psp % 8

def exceptionEntry (c : Cpu) : Cpu :=
  let sp := c.psp - frameSize c.fpca - alignment c
  { c with
    mem := writeWords c.mem sp (frame c (alignment c ≠ 0))
    psp := sp
    r := Function.update c.r .lr (excReturn c.fpca)
    fpca := false }

/-- The return to thread mode on PSP that the EXC_RETURN in `lr` asks for. -/
def exceptionReturn (c : Cpu) : Cpu :=
  let extended := !(c.r .lr).getLsbD 4
  let word (n : Nat) := c.mem (c.psp + 4 * BitVec.ofNat 32 n)
  { c with
    r := loadRegs c.mem c.psp c.r [.r0, .r1, .r2, .r3, .r12, .lr]
    pc := word 6
    xpsr := word 7 &&& ~~~0x200
    psp := c.psp + frameSize extended + if (word 7).getLsbD 9 then 4 else 0
    s := fun i => if extended ∧ i.val < 16 then word (8 + i.val) else c.s i
    fpscr := if extended then word 24 else c.fpscr
    fpca := extended }

/-- The registers an exception frame holds of the first sixteen. -/
def stackedRegs : List Reg := [.r0, .r1, .r2, .r3, .r12, .lr]

/-- The registers that a function keeps for its caller. -/
def calleeSaved : List Reg := [.r4, .r5, .r6, .r7, .r8, .r9, .r10, .r11]

/-- A thread sees the same processor in `c'` as in `c`: the registers, PSP and the kind of frame
EXC_RETURN gives it, and with an extended frame also s0 to s15 and FPSCR. -/
structure SameThread (c c' : Cpu) : Prop where
  r : ∀ x, c'.r x = c.r x
  pc : c'.pc = c.pc
  xpsr : c'.xpsr = c.xpsr
  psp : c'.psp = c.psp
  fpca : c'.fpca = c.fpca
  s : c.fpca → ∀ i : Fin 32, i.val < 16 → c'.s i = c.s i
  fpscr : c.fpca → c'.fpscr = c.fpscr

section Frame

variable {c c' : Cpu} {moved : Bool}

theorem length_frame : (frame c moved).length = if c.fpca then 25 else 8 := by
  cases extended : c.fpca <;> simp [frame, extended]

theorem excReturn_bit (fpca : Bool) : (!(excReturn fpca).getLsbD 4) = fpca := by
  cases fpca <;> decide

theorem stackedXpsr_bit (free : c.xpsr.getLsbD 9 = false) :
    (stackedXpsr c.xpsr moved).getLsbD 9 = moved := by
  cases moved
  · exact free
  · simp [stackedXpsr]

theorem getLsbD_bit_nine : ∀ i < 32, (0x200 : Word).getLsbD i = decide (i = 9) := by decide

theorem stackedXpsr_clear (free : c.xpsr.getLsbD 9 = false) :
    stackedXpsr c.xpsr moved &&& ~~~0x200 = c.xpsr := by
  apply BitVec.eq_of_getLsbD_eq
  intro i below
  rw [BitVec.getLsbD_and, BitVec.getLsbD_not, getLsbD_bit_nine i below]
  by_cases ninth : i = 9
  · rw [ninth, free, decide_eq_true rfl, Bool.not_true, Bool.and_false, Bool.and_false]
  · cases moved
    · simp [stackedXpsr, below, ninth]
    · rw [stackedXpsr, if_pos rfl, BitVec.getLsbD_or, getLsbD_bit_nine i below]
      simp [below, ninth]

theorem frame_get_s (fpca : c.fpca) {i : Fin 32} (low : i.val < 16) :
    (frame c moved)[8 + i.val]? = some (c.s i) := by
  have behind (front : List Word) (length : front.length = 8) :
      (front ++ ((List.ofFn fun j : Fin 16 => c.s (j.castLE (by omega))) ++ [c.fpscr]))[8 + i.val]? =
        some (c.s i) := by
    rw [List.getElem?_append_right (by omega), length, Nat.add_sub_cancel_left,
      List.getElem?_append_left (by rwa [List.length_ofFn]), List.getElem?_ofFn, dif_pos low]
    rfl
  rw [frame, if_pos fpca]
  exact behind _ rfl

theorem frame_get_fpscr (fpca : c.fpca) : (frame c moved)[24]? = some c.fpscr := by
  rw [frame, if_pos fpca]
  rfl

theorem exceptionEntry_psp :
    (exceptionEntry c).psp = c.psp - frameSize c.fpca - alignment c := by
  simp only [exceptionEntry]

theorem exceptionEntry_mem : (exceptionEntry c).mem =
    writeWords c.mem (exceptionEntry c).psp (frame c (decide (alignment c ≠ 0))) := by
  simp only [exceptionEntry]

theorem exceptionEntry_lr : (exceptionEntry c).r .lr = excReturn c.fpca := by
  simp only [exceptionEntry, Function.update_self]

theorem exceptionEntry_saved : calleeSaved.map (exceptionEntry c).r = calleeSaved.map c.r := by
  apply List.map_congr_left
  intro x member
  have low : x ≠ .lr := by
    rintro rfl
    revert member
    decide
  simp only [exceptionEntry, Function.update_of_ne low]

theorem exceptionReturn_mem : (exceptionReturn c).mem = c.mem := rfl

/-- The frame has no place for s16 to s31. -/
theorem exceptionReturn_high {i : Fin 32} (upper : 16 ≤ i.val) :
    (exceptionReturn c).s i = c.s i := by
  have not_low : ¬ i.val < 16 := by omega
  simp [exceptionReturn, not_low]

/-- Where PSP comes to lie, the return finds the thread's PSP again. -/
theorem entry_psp (aligned : c.psp % 4 = 0) :
    (exceptionEntry c).psp + frameSize c.fpca + (if decide (alignment c ≠ 0) then 4 else 0) =
      c.psp := by
  have split : c.psp.toNat % 8 = 0 ∨ c.psp.toNat % 8 = 4 := by
    have value : c.psp.toNat % 4 = 0 := by simpa using congrArg BitVec.toNat aligned
    omega
  have exact : (if decide (alignment c ≠ 0) then 4 else 0) = alignment c := by
    rcases split with none | four
    · have zero : alignment c = 0 := BitVec.eq_of_toNat_eq (by simpa [alignment] using none)
      rw [zero]
      rfl
    · have word : alignment c = 4 := BitVec.eq_of_toNat_eq (by simpa [alignment] using four)
      rw [word]
      rfl
  rw [exact, exceptionEntry_psp]
  ring

variable (moved) in
/-- Returning through a thread's frame with its callee-saved registers in place gives the thread
back its processor. -/
theorem exceptionReturn_restores (free : c.xpsr.getLsbD 9 = false)
    (held : Holds c'.mem c'.psp (frame c moved))
    (psp : c'.psp + frameSize c.fpca + (if moved then 4 else 0) = c.psp)
    (ret : c'.r .lr = excReturn c.fpca) (saved : ∀ x ∈ calleeSaved, c'.r x = c.r x) :
    SameThread c (exceptionReturn c') := by
  have extended : (!(c'.r .lr).getLsbD 4) = c.fpca := by rw [ret, excReturn_bit]
  have xpsr : c'.mem (c'.psp + 4 * BitVec.ofNat 32 7) = stackedXpsr c.xpsr moved :=
    held.get rfl
  have whole := held
  rw [show frame c moved = stackedRegs.map c.r ++ ([c.pc, stackedXpsr c.xpsr moved] ++ _) from rfl,
    holds_append, holds_append] at held
  obtain ⟨regs, ⟨pc, -, -⟩, fp⟩ := held
  constructor
  · intro x
    by_cases stacked : x ∈ stackedRegs
    · exact loadRegs_eq (by decide) regs stacked
    · refine (loadRegs_frame stacked).trans (saved x ?_)
      cases x <;> simp_all [stackedRegs, calleeSaved]
  · exact pc
  · simp only [exceptionReturn, xpsr]
    exact stackedXpsr_clear free
  · simp only [exceptionReturn, xpsr, extended, stackedXpsr_bit free]
    exact psp
  · exact extended
  · intro fpca i low
    simp only [exceptionReturn, extended, fpca, low, and_self, if_true]
    exact whole.get (frame_get_s fpca low)
  · intro fpca
    simp only [exceptionReturn, extended, fpca, if_true]
    exact whole.get (frame_get_fpscr fpca)

end Frame

end Thumb
