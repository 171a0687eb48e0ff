import Mathlib
import PicoOS.Switch.Preserved

/-!
# What a resumed thread finds

Every run of a core's threads, from the start of its first thread: a thread is
resumed with the registers, PSP and frame it was suspended with. The handler
and the frame leave out s16 to s31, so a thread that uses the FPU finds these
only where no other thread has changed them.
-/
namespace PicoOS.Switch

open Thumb

variable {T : Type} [DecidableEq T] (L : Layout T) (arch : Arch)

/-- The thread that is switched to has the processor it was suspended with. -/
def Resumes (m : Machine T) : Event T → Prop
  | .switch next schedNextThread kept =>
    ∃ c, m.context next = some c ∧
      SameThread c (step L arch m (.switch next schedNextThread kept)).cpu
  | _ => True

/-- A thread with an extended frame also finds s16 to s31. -/
def ResumesHigh (m : Machine T) : Event T → Prop
  | .switch next schedNextThread kept =>
    ∀ c, m.context next = some c → c.fpca → ∀ i : Fin 32, 16 ≤ i.val →
      (step L arch m (.switch next schedNextThread kept)).cpu.s i = c.s i
  | _ => True

/-- While a thread with an extended frame is suspended, the running threads leave s16 to s31. -/
def HighUntouched (m : Machine T) : Event T → Prop
  | .run c =>
    ∀ t d, m.suspended t = some d → d.fpca → ∀ i : Fin 32, 16 ≤ i.val → c.s i = m.cpu.s i
  | _ => True

variable {L arch} {m : Machine T}

/-! ### Threads without floating point -/

/-- No thread has floating-point state. -/
def NoFp (m : Machine T) : Prop :=
  m.cpu.fpca = false ∧ ∀ t c, m.suspended t = some c → c.fpca = false

theorem NoFp.context (none : NoFp m) {t : T} {c : Cpu} (context : m.context t = some c) :
    c.fpca = false := by
  rw [Machine.context] at context
  split at context
  · cases context
    exact none.1
  · exact none.2 t c context

theorem noFp_step (invariant : Inv L m) (none : NoFp m) (e : Event T)
    (allowed : Allowed L .m0plus m e) : NoFp (step L .m0plus m e) := by
  cases e with
  | run c => exact ⟨allowed.2.2.2 rfl, none.2⟩
  | create t stack top entry arg =>
    refine ⟨none.1, fun u c suspended => ?_⟩
    by_cases new : u = t
    · subst new
      simp only [step, Function.update_self, Option.some_inj] at suspended
      subst suspended
      rfl
    · simp only [step, Function.update_of_ne new] at suspended
      exact none.2 u c suspended
  | free t =>
    refine ⟨none.1, fun u c suspended => ?_⟩
    by_cases freed : u = t
    · subst freed
      simp [step] at suspended
    · simp only [step, Function.update_of_ne freed] at suspended
      exact none.2 u c suspended
  | switch next schedNextThread kept =>
    obtain ⟨⟨c, context, same⟩, -⟩ := switch_spec invariant allowed
    refine ⟨same.fpca.trans (none.context context), fun t d suspended => ?_⟩
    simp only [step] at suspended
    split at suspended
    · exact none.context suspended
    · cases suspended

/-! ### The upper floating-point registers -/

/-- The suspended threads with floating-point state still have their s16 to s31. -/
def High (m : Machine T) : Prop :=
  ∀ t c, m.suspended t = some c → c.fpca → ∀ i : Fin 32, 16 ≤ i.val → m.cpu.s i = c.s i

theorem High.context (high : High m) {t : T} {c : Cpu} (context : m.context t = some c)
    (fpca : c.fpca) {i : Fin 32} (upper : 16 ≤ i.val) : m.cpu.s i = c.s i := by
  rw [Machine.context] at context
  split at context
  · cases context
    rfl
  · exact high t c context fpca i upper

theorem high_step (invariant : Inv L m) (high : High m) (e : Event T)
    (allowed : Allowed L arch m e) (untouched : HighUntouched m e) : High (step L arch m e) := by
  cases e with
  | run c =>
    intro t d suspended fpca i upper
    exact (untouched t d suspended fpca i upper).trans (high t d suspended fpca i upper)
  | create t stack top entry arg =>
    intro u c suspended fpca i upper
    by_cases new : u = t
    · subst new
      simp only [step, Function.update_self, Option.some_inj] at suspended
      subst suspended
      cases fpca
    · simp only [step, Function.update_of_ne new] at suspended
      exact high u c suspended fpca i upper
  | free t =>
    intro u c suspended fpca i upper
    by_cases freed : u = t
    · subst freed
      simp [step] at suspended
    · simp only [step, Function.update_of_ne freed] at suspended
      exact high u c suspended fpca i upper
  | switch next schedNextThread kept =>
    obtain ⟨-, same, -⟩ := switch_spec invariant allowed
    intro t c suspended fpca i upper
    simp only [step] at suspended
    split at suspended
    · exact (same i upper).trans (high.context suspended fpca upper)
    · cases suspended

/-! ### Runs -/

theorem resumes_step (invariant : Inv L m) (e : Event T) (allowed : Allowed L arch m e) :
    Resumes L arch m e := by
  cases e with
  | switch next schedNextThread kept => exact (switch_spec invariant allowed).1
  | run c => trivial
  | create t stack top entry arg => trivial
  | free t => trivial

theorem resumesHigh_step (invariant : Inv L m) (high : High m) (e : Event T)
    (allowed : Allowed L arch m e) : ResumesHigh L arch m e := by
  cases e with
  | switch next schedNextThread kept =>
    intro c context fpca i upper
    exact ((switch_spec invariant allowed).2.1 i upper).trans (high.context context fpca upper)
  | run c => trivial
  | create t stack top entry arg => trivial
  | free t => trivial

theorem resumesHigh_noFp (none : NoFp m) (e : Event T) : ResumesHigh L arch m e := by
  cases e with
  | switch next schedNextThread kept =>
    intro c context fpca
    rw [none.context context] at fpca
    cases fpca
  | run c => trivial
  | create t stack top entry arg => trivial
  | free t => trivial

/-- In every run a thread is resumed with the registers, PSP and EXC_RETURN it was suspended
with, on both cores; and with s16 to s31 too, on the Cortex-M0+ and wherever no thread changes
these while a thread with an extended frame is suspended. -/
theorem context_switch_restores (initial : Initial L arch m) {es : List (Event T)}
    (allowed : Run.Along (step L arch) (Allowed L arch) m es) :
    Run.Along (step L arch) (Resumes L arch) m es ∧
      (arch = .m0plus ∨ Run.Along (step L arch) HighUntouched m es →
        Run.Along (step L arch) (ResumesHigh L arch) m es) := by
  constructor
  · exact allowed.gives (I := Inv L) (fun _ e invariant now => inv_step invariant e now)
      (fun _ e invariant now => resumes_step invariant e now) initial.inv
  · rintro (rfl | untouched)
    · have none : NoFp m := by
        refine ⟨initial.fpca rfl, fun t c suspended => ?_⟩
        rw [initial.alone t] at suspended
        cases suspended
      exact allowed.gives (I := fun m => Inv L m ∧ NoFp m)
        (fun _ e both now => ⟨inv_step both.1 e now, noFp_step both.1 both.2 e now⟩)
        (fun _ e both _ => resumesHigh_noFp both.2 e) ⟨initial.inv, none⟩
    · have high : High m := by
        intro t c suspended
        rw [initial.alone t] at suspended
        cases suspended
      have both := (Run.along_and m es).mpr ⟨allowed, untouched⟩
      exact both.gives (I := fun m => Inv L m ∧ High m)
        (fun _ e held now => ⟨inv_step held.1 e now.1, high_step held.1 held.2 e now.1 now.2⟩)
        (fun _ e held now => resumesHigh_step held.1 held.2 e now.1) ⟨initial.inv, high⟩

/-! ### Two threads -/

/-- Two TCBs of `tcb_pool`, on core 0. -/
def twoLayout : Layout Bool where
  tcb t := if t then 0x20000100 else 0x20000000
  currentTcb := 0x20001000
  core := 0
  threadExit := 0x10000001
  tcb_injective := by decide
  fields_apart := by decide
  slot_apart := by decide
  sio_apart := by decide
  sio_slot := by decide

/-- The addresses between two bounds. -/
def region (low high : Nat) : Set Word := {x | low ≤ x.toNat ∧ x.toNat < high}

/-- One thread runs and uses the FPU: it has 1 in s16. -/
def alone : Machine Bool where
  cpu :=
    { r := fun _ => 0
      msp := 0x20040000
      psp := 0x20011000
      pc := 0
      xpsr := 0x01000000
      s := fun i => if i = 16 then 1 else 0
      fpscr := 0
      fpca := true
      primask := false
      mem := fun x => if x = 0x20001000 then 0x20000000 else 0 }
  current := false
  stack _ := region 0x20010000 0x20011000
  suspended _ := none

/-- `sched_next_thread` as it chooses `next`. -/
def choose (next : Bool) (c : Cpu) : Cpu := c.set .r0 (twoLayout.tcb next)

/-- A second thread is created and switched to. -/
def toSecond : List (Event Bool) :=
  [.create true (region 0x20020000 0x20021000) 0x20021000 0x10000101 0,
    .switch true (choose true) fun _ => true]

theorem span_region {a : Word} {n low high : Nat} (from_low : low ≤ a.toNat)
    (to_high : a.toNat + 4 * n ≤ high) (bound : high < 2 ^ 32) : span a n ⊆ region low high := by
  rintro x ⟨i, below, rfl⟩
  have value : (a + 4 * BitVec.ofNat 32 i).toNat = a.toNat + 4 * i := by
    simp only [BitVec.toNat_add, BitVec.toNat_mul, BitVec.toNat_ofNat, BitVec.ofNat_eq_ofNat]
    omega
  constructor
  · omega
  · omega

theorem region_cells {low high : Nat} (above : 0x20001004 ≤ low) (below : high ≤ 0xD0000000) :
    Disjoint (region low high) twoLayout.cells := by
  rw [Set.disjoint_left]
  rintro x ⟨from_low, to_high⟩ (((rfl | rfl) | ⟨t, rfl⟩) | ⟨t, rfl⟩)
  · have value : sioBase.toNat = 0xD0000000 := rfl
    omega
  · have value : twoLayout.slot.toNat = 0x20001000 := rfl
    omega
  · cases t
    · have value : (twoLayout.savedSp false).toNat = 0x20000010 := rfl
      omega
    · have value : (twoLayout.savedSp true).toNat = 0x20000110 := rfl
      omega
  · cases t
    · have value : (twoLayout.excReturn false).toNat = 0x20000014 := rfl
      omega
    · have value : (twoLayout.excReturn true).toNat = 0x20000114 := rfl
      omega

theorem alone_initial : Initial twoLayout .m33 alone := by
  constructor
  · intro t
    rfl
  · rfl
  · rfl
  · exact region_cells (by decide) (by decide)
  · intro m0plus
    cases m0plus

/-- A switch that only `choose` decides is allowed where the frame fits and the handler's stack is
apart. -/
theorem choose_allowed {m : Machine Bool} {next : Bool} (aligned : m.cpu.psp % 4 = 0)
    (free : m.cpu.xpsr.getLsbD 9 = false)
    (room : span ((exceptionEntry m.cpu).psp - 32) (savedWords m.cpu) ⊆ m.stack m.current)
    (main_cells : m.cpu.msp - 4 ∉ twoLayout.cells)
    (main_stacks : ∀ t, m.Live t → m.cpu.msp - 4 ∉ m.stack t) (live : m.Live next) :
    Allowed twoLayout .m33 m (.switch next (choose next) fun _ => true) := by
  refine ⟨aligned, free, room, main_cells, main_stacks, live, rfl, ?_, rfl, ?_, ?_⟩
  · simp only [choose, Cpu.set, Function.update_self]
  · intro i _
    rfl
  · intro t c _ _ x _
    rfl

theorem main_apart : (0x20040000 : Word) - 4 ∉ twoLayout.cells := by
  have inside : (0x20040000 : Word) - 4 ∈ region 0x2003FFFC 0x20040000 := ⟨by decide, by decide⟩
  exact Set.disjoint_left.mp (region_cells (by decide) (by decide)) inside

theorem toSecond_allowed :
    Run.Along (step twoLayout .m33) (Allowed twoLayout .m33) alone toSecond := by
  refine ⟨⟨?_, ?_, ?_, ?_⟩, ?_, trivial⟩
  · rintro (same | suspended)
    · cases same
    · exact suspended rfl
  · exact span_region (by decide) (by decide) (by decide)
  · exact region_cells (by decide) (by decide)
  · intro u _
    rw [Set.disjoint_left]
    rintro x ⟨above, -⟩ ⟨-, below⟩
    omega
  · apply choose_allowed
    · rfl
    · rfl
    · exact span_region (by decide) (by decide) (by decide)
    · exact main_apart
    · rintro t -
      cases t
      · rintro ⟨-, below⟩
        exact absurd below (by decide)
      · rintro ⟨-, below⟩
        exact absurd below (by decide)
    · right
      decide

/-- The second thread is resumed where it starts, and the first one keeps its place. -/
theorem context_switch_restores_second :
    Run.Along (step twoLayout .m33) (Resumes twoLayout .m33) alone toSecond ∧
      (Arch.m33 = .m0plus ∨ Run.Along (step twoLayout .m33) HighUntouched alone toSecond →
        Run.Along (step twoLayout .m33) (ResumesHigh twoLayout .m33) alone toSecond) :=
  context_switch_restores alone_initial toSecond_allowed

/-- The second thread after it has set the floating-point registers to 2. -/
def second (mem : Memory) : Cpu :=
  { alone.cpu with
    psp := 0x20021000
    s := fun _ => 2
    fpca := false
    mem := mem }

/-- The second thread sets the floating-point registers, and the first one is resumed. -/
def loseHigh : List (Event Bool) :=
  toSecond ++ [.run (second (Run.exec (step twoLayout .m33) alone toSecond).cpu.mem),
    .switch false (choose false) fun _ => true]

theorem second_allowed (m : Machine Bool) :
    Allowed twoLayout .m33 m (.run (second m.cpu.mem)) := by
  refine ⟨rfl, rfl, fun _ _ _ _ _ => rfl, fun m0plus => ?_⟩
  cases m0plus

theorem back_allowed {m : Machine Bool} (current : m.current = true)
    (regions : m.stack = Function.update (fun _ => region 0x20010000 0x20011000) true
      (region 0x20020000 0x20021000)) (waits : m.suspended false ≠ none) :
    Allowed twoLayout .m33 (step twoLayout .m33 m (.run (second m.cpu.mem)))
      (.switch false (choose false) fun _ => true) := by
  apply choose_allowed
  · show (0x20021000 : Word) % 4 = 0
    decide
  · show (0x01000000 : Word).getLsbD 9 = false
    decide
  · show span (0x20021000 - 32 - 0x20021000 % 8 - 32) 16 ⊆ m.stack m.current
    rw [current, regions, Function.update_self]
    exact span_region (by decide) (by decide) (by decide)
  · exact main_apart
  · rintro t -
    show (0x20040000 : Word) - 4 ∉ m.stack t
    rw [regions]
    cases t
    · rintro ⟨-, below⟩
      exact absurd below (by decide)
    · rintro ⟨-, below⟩
      exact absurd below (by decide)
  · exact .inr waits

/-- The first thread is resumed with the s16 of the second one. -/
theorem s16_lost :
    Initial twoLayout .m33 alone ∧
      Run.Along (step twoLayout .m33) (Allowed twoLayout .m33) alone loseHigh ∧
      ¬ Run.Along (step twoLayout .m33) (ResumesHigh twoLayout .m33) alone loseHigh := by
  have invariant : Inv twoLayout (Run.exec (step twoLayout .m33) alone toSecond) :=
    toSecond_allowed.invariant (I := Inv twoLayout) (fun _ e held now => inv_step held e now)
      alone_initial.inv
  obtain ⟨c, first, fpca, one⟩ : ∃ c,
      (Run.exec (step twoLayout .m33) alone toSecond).suspended false = some c ∧
        c.fpca = true ∧ c.s 16 = 1 := by
    simp [toSecond, step, Machine.context, alone]
  have regions : (Run.exec (step twoLayout .m33) alone toSecond).stack =
      Function.update (fun _ => region 0x20010000 0x20011000) true (region 0x20020000 0x20021000) :=
    rfl
  have current : (Run.exec (step twoLayout .m33) alone toSecond).current = true := rfl
  rw [loseHigh, Run.along_append, Run.along_append]
  have begun := toSecond_allowed
  generalize Run.exec (step twoLayout .m33) alone toSecond = m at *
  have ran := second_allowed m
  have back := back_allowed current regions (by simp [first])
  refine ⟨alone_initial, ⟨begun, ran, back, trivial⟩, ?_⟩
  rintro ⟨-, -, resumed, -⟩
  have lost := (switch_spec (inv_step invariant _ ran) back).2.1 16 (by decide)
  have found := resumed c (by simp [Machine.context, step, current, first]) fpca 16 (by decide)
  have two : (1 : Word) = 2 := one.symm.trans (found.symm.trans lost)
  exact absurd two (by decide)

end PicoOS.Switch
