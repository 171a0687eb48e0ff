import Mathlib
import PicoOS.Lib.Run

/-!
# Programs that take spinlocks

A program is known here by what it does with locks and interrupts alone; its
branches and loops may go either way. A program that passes the check takes
locks in increasing rank and gives back the last one first. On any number of
cores, interrupted wherever interrupts are on and switched from thread to
thread, checked programs never deadlock.
-/
namespace Locking

inductive Prog (L : Type) where
  | skip
  /-- Turn interrupts off, save what they were, and spin. -/
  | acquire (l : L)
  /-- Spin until the lock is free: the rest of an `acquire`. -/
  | spin (l : L)
  /-- Free the lock and restore what its `acquire` saved. -/
  | release (l : L)
  | seq (p q : Prog L)
  | either (p q : Prog L)
  | loop (p : Prog L)
  | irqsOff
  | irqsOn
  /-- The core goes on with another thread. -/
  | switch
  deriving DecidableEq

/-- One program after the other. -/
def Prog.block {L : Type} : List (Prog L) → Prog L
  | [] => .skip
  | p :: ps => .seq p (block ps)

/-- What is left to do, first things first. -/
abbrev Code (L : Type) := List (Prog L)

/-! ### The check -/

section
variable {L : Type} [DecidableEq L] (rank : L → Nat)

/-- The locks held after a program, the latest first, or `none` where it breaks the order. -/
def check : Prog L → List L → Option (List L)
  | .skip, held => some held
  | .acquire l, held => if ∀ k ∈ held, rank k < rank l then some (l :: held) else none
  | .spin _, _ => none
  | .release l, held =>
    match held with
    | k :: rest => if k = l then some rest else none
    | [] => none
  | .seq p q, held => (check p held).bind (check q)
  | .either p q, held => if check p held = check q held then check p held else none
  | .loop p, held => if check p held = some held then some held else none
  | .irqsOff, held | .irqsOn, held | .switch, held => if held = [] then some [] else none

def checkAll : Code L → List L → Option (List L)
  | [], held => some held
  | p :: k, held => (check rank p held).bind (checkAll k)

/-- A program that a thread may call and a handler may run: it starts and ends with no lock. -/
def Checked (p : Prog L) : Prop := check rank p [] = some []

instance (p : Prog L) : Decidable (Checked rank p) := inferInstanceAs (Decidable (_ = _))

end

/-! ### The system -/

structure CoreState (L T : Type) where
  irqs : Bool
  /-- What the acquires under way have saved, the latest first. -/
  saves : List Bool
  /-- The locks that this core has taken, the latest first. The hardware does not know. -/
  held : List L
  current : T

/-- `code` is the rest of the handlers on each core, and of each thread. -/
structure State (C L T : Type) where
  taken : L → Bool
  core : C → CoreState L T
  code : C ⊕ T → Code L

inductive Event (C T O H : Type) where
  /-- A core takes its next step, at a branch the given way. -/
  | run (c : C) (way : Bool)
  /-- The thread on a core, done with its last call, makes the next one. -/
  | call (c : C) (op : O)
  | interrupt (c : C) (h : H)
  | switch (c : C) (t : T)

section
variable {L T : Type} [DecidableEq L]

/-- One step of the code `k` on a core with the state `v`: the locks, the core and the code after
it. -/
def next (taken : L → Bool) (v : CoreState L T) (way : Bool) :
    Code L → Option ((L → Bool) × CoreState L T × Code L)
  | [] | .switch :: _ => none
  | .skip :: k => some (taken, v, k)
  | .acquire l :: k =>
    some (taken, { v with irqs := false, saves := v.irqs :: v.saves }, .spin l :: k)
  | .spin l :: k =>
    if taken l then
      none
    else
      some (Function.update taken l true, { v with held := l :: v.held }, k)
  | .release l :: k =>
    some (Function.update taken l false,
      { v with
        irqs := v.saves.headD v.irqs
        saves := v.saves.tail
        held := v.held.erase l }, k)
  | .seq p q :: k => some (taken, v, p :: q :: k)
  | .either p q :: k => some (taken, v, (if way then p else q) :: k)
  | .loop p :: k => some (taken, v, if way then p :: .loop p :: k else k)
  | .irqsOff :: k => some (taken, { v with irqs := false }, k)
  | .irqsOn :: k => some (taken, { v with irqs := true }, k)

end

namespace State

variable {C L T O H : Type} [DecidableEq C] [DecidableEq L] [DecidableEq T]

section
variable (s : State C L T) (c : C)

/-- A core runs its handlers, then its thread. -/
def top : C ⊕ T := if s.code (.inl c) = [] then .inr (s.core c).current else .inl c

def active : Code L := s.code (s.top c)

def goto (k : Code L) : State C L T := { s with code := Function.update s.code (s.top c) k }

def run (way : Bool) : State C L T :=
  match next s.taken (s.core c) way (s.active c) with
  | none => s
  | some (taken, v, k) =>
    { taken := taken
      core := Function.update s.core c v
      code := Function.update s.code (s.top c) k }

end

section
variable [Fintype C] (ops : O → Prog L) (handlers : H → Prog L)

/-- An event that cannot happen changes nothing. A core switches to a thread that is on no other
core. -/
def step (s : State C L T) : Event C T O H → State C L T
  | .run c way => s.run c way
  | .call c op => if s.active c = [] then s.goto c [ops op] else s
  | .interrupt c h =>
    if (s.core c).irqs then
      { s with code := Function.update s.code (.inl c) (handlers h :: s.code (.inl c)) }
    else
      s
  | .switch c t =>
    match s.active c with
    | .switch :: k =>
      if ∀ d, d ≠ c → (s.core d).current ≠ t then
        { s.goto c k with core := Function.update s.core c { s.core c with current := t } }
      else
        s
    | _ => s

end

/-- The lock that a core spins on while another one has it. -/
def waitsFor (s : State C L T) (c : C) : Option L :=
  match s.active c with
  | .spin l :: _ => if s.taken l then some l else none
  | _ => none

/-- Cores that all wait for locks that they hold among themselves. -/
def Deadlocked (s : State C L T) (cores : Finset C) : Prop :=
  cores.Nonempty ∧
    ∀ c ∈ cores, ∃ l, s.waitsFor c = some l ∧ ∃ d ∈ cores, l ∈ (s.core d).held

end State

/-! ### The invariant -/

section
variable {L T : Type} [DecidableEq L] {rank : L → Nat}

/-- The code can go on from the locks held, up to its end with none. -/
def Fits (rank : L → Nat) (held : List L) : Code L → Prop
  | .spin l :: k => (∀ h ∈ held, rank h < rank l) ∧ checkAll rank k (l :: held) = some []
  | k => checkAll rank k held = some []

def spinning : Code L → Nat
  | .spin _ :: _ => 1
  | _ => 0

/-- What holds of a core with the code it runs. -/
structure Ready (rank : L → Nat) (v : CoreState L T) (k : Code L) : Prop where
  fits : Fits rank v.held k
  sorted : v.held.Pairwise fun a b => rank b < rank a
  saved : v.saves.length = v.held.length + spinning k
  masked : v.saves ≠ [] → v.irqs = false
  /-- Only the first acquire can have found interrupts on. -/
  nested : ∀ b ∈ v.saves.dropLast, b = false

theorem fits_of_check {held : List L} {k : Code L} (h : checkAll rank k held = some []) :
    Fits rank held k ∧ spinning k = 0 := by
  unfold Fits spinning
  split
  next => cases h
  next => exact ⟨h, rfl⟩

theorem checkAll_cons {p : Prog L} {k : Code L} {held : List L}
    (h : checkAll rank (p :: k) held = some []) :
    ∃ after, check rank p held = some after ∧ checkAll rank k after = some [] :=
  Option.bind_eq_some_iff.mp h

namespace Ready

variable {v : CoreState L T} {k k' : Code L}

/-- Off a spin the rest of the code passes the check. -/
theorem checked (ready : Ready rank v k) (off : spinning k = 0) :
    checkAll rank k v.held = some [] := by
  have fits := ready.fits
  unfold Fits at fits
  split at fits
  next => cases off
  next => exact fits

/-- Code that fits the same locks. -/
theorem goes (ready : Ready rank v k) (off : spinning k = 0)
    (h : checkAll rank k' v.held = some []) : Ready rank v k' := by
  obtain ⟨fits, spin⟩ := fits_of_check h
  refine ⟨fits, ready.sorted, ?_, ready.masked, ready.nested⟩
  rw [ready.saved, off, spin]

/-- With no lock held nothing is saved. -/
theorem unsaved (ready : Ready rank v k) (off : spinning k = 0) (none : v.held = []) :
    v.saves = [] := by
  have saved := ready.saved
  rw [off, none] at saved
  exact List.eq_nil_of_length_eq_zero saved

/-- Where interrupts are on, no lock is held or waited for. -/
theorem unlocked (ready : Ready rank v k) (on : v.irqs = true) :
    v.held = [] ∧ spinning k = 0 := by
  have saves : v.saves = [] := by
    by_contra some
    rw [ready.masked some] at on
    cases on
  have saved := ready.saved
  rw [saves, List.length_nil] at saved
  exact ⟨List.eq_nil_of_length_eq_zero (by omega), by omega⟩

end Ready

/-- What a step does to the locks of a core. -/
inductive Takes (taken : L → Bool) (held : List L) : (L → Bool) → List L → Prop where
  | none : Takes taken held taken held
  | takes (l : L) (free : taken l = false) :
      Takes taken held (Function.update taken l true) (l :: held)
  | frees (l : L) (rest : List L) (first : held = l :: rest) :
      Takes taken held (Function.update taken l false) rest

/-- A step of checked code. -/
theorem next_ready {taken taken' : L → Bool} {v v' : CoreState L T} {way : Bool} {k k' : Code L}
    (ready : Ready rank v k) (h : next taken v way k = some (taken', v', k')) :
    Ready rank v' k' ∧ v'.current = v.current ∧ Takes taken v.held taken' v'.held := by
  cases k with
  | nil => cases h
  | cons p k =>
    cases p with
    | switch => cases h
    | skip =>
      cases h
      exact ⟨ready.goes rfl (ready.checked rfl), rfl, .none⟩
    | acquire l =>
      obtain ⟨after, check, rest⟩ := checkAll_cons (ready.checked rfl)
      simp only [Locking.check, Option.ite_none_right_eq_some, Option.some.injEq] at check
      obtain ⟨above, rfl⟩ := check
      cases h
      refine ⟨⟨⟨above, rest⟩, ready.sorted, ?_, fun _ => rfl, fun b inner => ?_⟩, rfl, .none⟩
      · rw [List.length_cons, ready.saved]
        rfl
      · cases saves : v.saves with
        | nil =>
          rw [saves] at inner
          cases inner
        | cons c cs =>
          rw [saves, List.dropLast_cons_of_ne_nil (by simp), ← saves] at inner
          rcases List.mem_cons.mp inner with rfl | inner
          · exact ready.masked (by simp [saves])
          · exact ready.nested b inner
    | spin l =>
      simp only [next, Option.ite_none_left_eq_some, Option.some.injEq] at h
      obtain ⟨free, h⟩ := h
      cases h
      obtain ⟨above, rest⟩ := ready.fits
      obtain ⟨fits, spin⟩ := fits_of_check rest
      refine ⟨⟨fits, List.pairwise_cons.mpr ⟨above, ready.sorted⟩, ?_, ready.masked,
        ready.nested⟩, rfl, .takes l (by simpa using free)⟩
      rw [ready.saved, spin]
      rfl
    | release l =>
      obtain ⟨after, check, rest⟩ := checkAll_cons (ready.checked rfl)
      unfold Locking.check at check
      split at check
      next m older first =>
        simp only [Option.ite_none_right_eq_some, Option.some.injEq] at check
        obtain ⟨rfl, rfl⟩ := check
        cases h
        have held : v.held.erase m = older := by rw [first, List.erase_cons_head]
        obtain ⟨fits, spin⟩ := fits_of_check rest
        have sorted := ready.sorted
        have saved := ready.saved
        rw [first] at sorted saved
        cases saves : v.saves with
        | nil =>
          rw [saves, List.length_nil, List.length_cons] at saved
          omega
        | cons b bs =>
          rw [saves] at saved
          refine ⟨⟨held ▸ fits, held ▸ (List.pairwise_cons.mp sorted).2, ?_, fun more => ?_,
            fun c inner => ?_⟩, rfl, held ▸ .frees m older first⟩
          · simp only [List.tail_cons, held, spin]
            simp only [List.length_cons, spinning] at saved
            omega
          · -- An acquire inside another one has found interrupts off.
            refine ready.nested b ?_
            have more : bs ≠ [] := more
            rw [saves, List.dropLast_cons_of_ne_nil more]
            exact List.mem_cons_self
          · refine ready.nested c ?_
            have more : bs ≠ [] := fun none => by
              rw [none] at inner
              cases inner
            rw [saves, List.dropLast_cons_of_ne_nil more]
            exact List.mem_cons_of_mem _ inner
      next => cases check
    | seq p q =>
      obtain ⟨after, check, rest⟩ := checkAll_cons (ready.checked rfl)
      obtain ⟨between, first, second⟩ := Option.bind_eq_some_iff.mp check
      cases h
      refine ⟨ready.goes rfl ?_, rfl, .none⟩
      simp [checkAll, first, second, rest]
    | either p q =>
      obtain ⟨after, check, rest⟩ := checkAll_cons (ready.checked rfl)
      simp only [Locking.check, Option.ite_none_right_eq_some] at check
      obtain ⟨same, first⟩ := check
      cases h
      refine ⟨ready.goes rfl ?_, rfl, .none⟩
      cases way <;> simp [checkAll, first, ← same, rest]
    | loop p =>
      obtain ⟨after, check, rest⟩ := checkAll_cons (ready.checked rfl)
      simp only [Locking.check, Option.ite_none_right_eq_some, Option.some.injEq] at check
      obtain ⟨again, rfl⟩ := check
      cases h
      refine ⟨ready.goes rfl ?_, rfl, .none⟩
      cases way <;> simp [checkAll, Locking.check, again, rest]
    | irqsOff =>
      obtain ⟨after, check, rest⟩ := checkAll_cons (ready.checked rfl)
      simp only [Locking.check, Option.ite_none_right_eq_some, Option.some.injEq] at check
      obtain ⟨none, rfl⟩ := check
      cases h
      have now := ready.goes rfl (by rw [none]; exact rest)
      exact ⟨⟨now.fits, now.sorted, now.saved, fun _ => rfl, now.nested⟩, rfl, .none⟩
    | irqsOn =>
      obtain ⟨after, check, rest⟩ := checkAll_cons (ready.checked rfl)
      simp only [Locking.check, Option.ite_none_right_eq_some, Option.some.injEq] at check
      obtain ⟨none, rfl⟩ := check
      cases h
      have unsaved := ready.unsaved rfl none
      have now := ready.goes rfl (by rw [none]; exact rest)
      exact ⟨⟨now.fits, now.sorted, now.saved, fun some => absurd unsaved some, now.nested⟩, rfl,
        .none⟩

end

namespace State

variable {C L T O H : Type} [DecidableEq C] [DecidableEq L] [DecidableEq T] {rank : L → Nat}

/-- The invariant of a system of checked programs. -/
structure Ok (rank : L → Nat) (s : State C L T) : Prop where
  distinct : ∀ c d, (s.core c).current = (s.core d).current → c = d
  ready : ∀ c, Ready rank (s.core c) (s.active c)
  /-- What no core runs can go on with no lock. -/
  idle : ∀ i, (∀ c, s.top c ≠ i) → checkAll rank (s.code i) [] = some []
  taken : ∀ l, s.taken l = true ↔ ∃ c, l ∈ (s.core c).held
  apart : ∀ c d l, l ∈ (s.core c).held → l ∈ (s.core d).held → c = d

namespace Ok

variable {s : State C L T} {c d : C}

omit [DecidableEq C] [DecidableEq L] [DecidableEq T] in
theorem top_cases (s : State C L T) (c : C) :
    s.top c = .inr (s.core c).current ∧ s.code (.inl c) = [] ∨
      s.top c = .inl c ∧ s.code (.inl c) ≠ [] := by
  unfold top
  split
  next done => exact .inl ⟨rfl, done⟩
  next busy => exact .inr ⟨rfl, busy⟩

omit [DecidableEq C] [DecidableEq T] in
theorem top_inj (ok : Ok rank s) (same : s.top c = s.top d) : c = d := by
  rcases top_cases s c with ⟨hc, _⟩ | ⟨hc, _⟩ <;> rcases top_cases s d with ⟨hd, _⟩ | ⟨hd, _⟩ <;>
    rw [hc, hd] at same
  · exact ok.distinct c d (Sum.inr.inj same)
  · cases same
  · cases same
  · exact Sum.inl.inj same

omit [DecidableEq C] [DecidableEq T] in
/-- A thread under a handler can go on with no lock. -/
theorem below (ok : Ok rank s) (busy : s.top c = .inl c) :
    checkAll rank (s.code (.inr (s.core c).current)) [] = some [] := by
  refine ok.idle _ fun d same => ?_
  rcases top_cases s d with ⟨hd, _⟩ | ⟨hd, _⟩ <;> rw [hd] at same
  · have eq := ok.distinct d c (Sum.inr.inj same)
    subst eq
    rw [hd] at busy
    cases busy
  · cases same

omit [DecidableEq T] in
/-- The locks after one core has moved. -/
theorem locks (ok : Ok rank s) {v : CoreState L T} {taken : L → Bool}
    (takes : Takes s.taken (s.core c).held taken v.held) :
    (∀ l, taken l = true ↔ ∃ d, l ∈ (Function.update s.core c v d).held) ∧
      ∀ d e l, l ∈ (Function.update s.core c v d).held → l ∈ (Function.update s.core c v e).held →
        d = e := by
  generalize after : v.held = held' at takes
  cases takes with
  | none =>
    have same (d : C) : (Function.update s.core c v d).held = (s.core d).held := by
      by_cases eq : d = c
      · subst eq
        simpa using after
      · simp [eq]
    simp only [same]
    exact ⟨ok.taken, ok.apart⟩
  | takes l free =>
    have now (d : C) (x : L) : x ∈ (Function.update s.core c v d).held ↔
        d = c ∧ x = l ∨ x ∈ (s.core d).held := by
      by_cases eq : d = c
      · subst eq
        simp [after]
      · simp [eq]
    have new (d : C) : l ∉ (s.core d).held := fun held => by
      rw [(ok.taken l).mpr ⟨d, held⟩] at free
      cases free
    simp only [now]
    refine ⟨fun x => ?_, fun d e x hd he => ?_⟩
    · by_cases eq : x = l
      · subst eq
        simp
      · simp [eq, ok.taken]
    · rcases hd with ⟨rfl, rfl⟩ | hd <;> rcases he with ⟨rfl, same⟩ | he
      · rfl
      · exact absurd he (new e)
      · exact absurd (same ▸ hd) (new d)
      · exact ok.apart d e x hd he
  | frees l _ first =>
    have once : l ∉ held' := by
      have sorted := (ok.ready c).sorted
      rw [first] at sorted
      exact fun again => Nat.lt_irrefl _ ((List.pairwise_cons.mp sorted).1 l again)
    have mine : l ∈ (s.core c).held := first ▸ List.mem_cons_self
    have now (d : C) (x : L) : x ∈ (Function.update s.core c v d).held ↔
        x ≠ l ∧ x ∈ (s.core d).held := by
      by_cases eq : d = c
      · subst eq
        rw [Function.update_self, after, first, List.mem_cons]
        constructor
        · exact fun member => ⟨fun same => once (same ▸ member), .inr member⟩
        · exact fun member => member.2.resolve_left member.1
      · rw [Function.update_of_ne eq]
        exact ⟨fun member => ⟨fun same => eq (ok.apart d c l (same ▸ member) mine), member⟩,
          And.right⟩
    simp only [now]
    refine ⟨fun x => ?_, fun d e x hd he => ok.apart d e x hd.2 he.2⟩
    by_cases eq : x = l
    · subst eq
      simp
    · simp [eq, ok.taken]

/-- One core moves. -/
theorem move (ok : Ok rank s) {v : CoreState L T} {taken : L → Bool} {k : Code L}
    (ready : Ready rank v k) (current : v.current = (s.core c).current)
    (takes : Takes s.taken (s.core c).held taken v.held) :
    Ok rank
      { taken := taken
        core := Function.update s.core c v
        code := Function.update s.code (s.top c) k } := by
  obtain ⟨owned, apart⟩ := ok.locks takes
  generalize next : (⟨taken, Function.update s.core c v, Function.update s.code (s.top c) k⟩ :
    State C L T) = s'
  have code (i : C ⊕ T) (other : i ≠ s.top c) : s'.code i = s.code i := by
    rw [← next]
    exact Function.update_of_ne other ..
  have code_top : s'.code (s.top c) = k := by
    rw [← next]
    exact Function.update_self ..
  have core_self : s'.core c = v := by
    rw [← next]
    exact Function.update_self ..
  have core (d : C) (other : d ≠ c) : s'.core d = s.core d := by
    rw [← next]
    exact Function.update_of_ne other ..
  have currents (d : C) : (s'.core d).current = (s.core d).current := by
    by_cases eq : d = c
    · rw [eq, core_self, current]
    · rw [core d eq]
  have top (d : C) (other : d ≠ c) : s'.top d = s.top d := by
    have apart : Sum.inl d ≠ s.top c := by
      rcases top_cases s c with ⟨hc, _⟩ | ⟨hc, _⟩ <;> rw [hc]
      · nofun
      · exact fun same => other (Sum.inl.inj same)
    unfold State.top
    rw [code _ apart, currents]
  -- Done with its handlers, the core goes on with the thread below.
  have goes : s'.top c = s.top c ∧ s'.active c = k ∨
      s.top c = .inl c ∧ k = [] ∧ s'.top c = .inr (s.core c).current := by
    rcases top_cases s c with ⟨hc, done⟩ | ⟨hc, _⟩
    · have still : s'.code (.inl c) = [] := by rw [code _ (by rw [hc]; nofun), done]
      have same : s'.top c = s.top c := by rw [hc, State.top, if_pos still, currents]
      exact .inl ⟨same, by rw [active, same, code_top]⟩
    · rw [hc] at code_top
      by_cases ended : k = []
      · exact .inr ⟨hc, ended, by rw [State.top, if_pos (code_top.trans ended), currents]⟩
      · have same : s'.top c = .inl c := by
          rw [State.top, if_neg (by rw [code_top]; exact ended)]
        exact .inl ⟨same.trans hc.symm, by rw [active, same, code_top]⟩
  constructor
  case distinct =>
    intro d e same
    rw [currents, currents] at same
    exact ok.distinct d e same
  case ready =>
    intro d
    by_cases eq : d = c
    · subst eq
      rw [core_self]
      rcases goes with ⟨_, active⟩ | ⟨busy, ended, under⟩
      · rw [active]
        exact ready
      · subst ended
        have fits := ready.fits
        have none : v.held = [] := Option.some.inj fits
        have rest : s'.code (.inr (s.core d).current) = s.code (.inr (s.core d).current) :=
          code _ (by rw [busy]; nofun)
        rw [active, under, rest]
        exact ready.goes rfl (none ▸ ok.below busy)
    · have same : s'.active d = s.active d := by
        rw [active, top d eq, code _ fun same => eq (ok.top_inj same)]
        rfl
      rw [core d eq, same]
      exact ok.ready d
  case idle =>
    intro i free
    by_cases eq : i = s.top c
    · rcases goes with ⟨same, _⟩ | ⟨_, ended, _⟩
      · exact absurd (same.trans eq.symm) (free c)
      · rw [eq, code_top, ended]
        rfl
    · rw [code i eq]
      refine ok.idle i fun d same => ?_
      by_cases other : d = c
      · exact eq (other ▸ same.symm)
      · exact free d ((top d other).trans same)
  case taken =>
    rw [← next]
    exact owned
  case apart =>
    rw [← next]
    exact apart

theorem run (ok : Ok rank s) (c : C) (way : Bool) : Ok rank (s.run c way) := by
  unfold State.run
  split
  next => exact ok
  next taken v k h =>
    obtain ⟨ready, current, takes⟩ := next_ready (ok.ready c) h
    exact ok.move ready current takes

/-- The thread on a core that has nothing to do calls a checked program. -/
theorem call (ok : Ok rank s) (free : s.active c = []) {p : Prog L} (checked : Checked rank p) :
    Ok rank (s.goto c [p]) := by
  have ready := ok.ready c
  rw [free] at ready
  have fits : checkAll rank [] (s.core c).held = some [] := ready.checked rfl
  have none : (s.core c).held = [] := Option.some.inj fits
  have moved := ok.move (c := c) (v := s.core c) (k := [p])
    (ready.goes rfl (by rw [none]; simp [checkAll, show check rank p [] = some [] from checked]))
    rfl .none
  rwa [Function.update_eq_self] at moved

/-- A checked handler interrupts a core. -/
theorem interrupt (ok : Ok rank s) (on : (s.core c).irqs = true) {p : Prog L}
    (checked : Checked rank p) :
    Ok rank { s with code := Function.update s.code (.inl c) (p :: s.code (.inl c)) } := by
  obtain ⟨none, off⟩ := (ok.ready c).unlocked on
  have clear : checkAll rank (s.active c) [] = some [] := none ▸ (ok.ready c).checked off
  have under : checkAll rank (s.code (.inl c)) [] = some [] := by
    rcases top_cases s c with ⟨_, done⟩ | ⟨hc, _⟩
    · rw [done]
      rfl
    · rw [active, hc] at clear
      exact clear
  have handler : checkAll rank (p :: s.code (.inl c)) [] = some [] := by
    simp [checkAll, show check rank p [] = some [] from checked, under]
  generalize next : ({ s with code := Function.update s.code (.inl c) (p :: s.code (.inl c)) } :
    State C L T) = s'
  have code_self : s'.code (.inl c) = p :: s.code (.inl c) := by
    rw [← next]
    exact Function.update_self ..
  have code (i : C ⊕ T) (other : i ≠ .inl c) : s'.code i = s.code i := by
    rw [← next]
    exact Function.update_of_ne other ..
  have core : s'.core = s.core := by rw [← next]
  have top_self : s'.top c = .inl c := by rw [State.top, if_neg (by rw [code_self]; nofun)]
  have top (d : C) (other : d ≠ c) : s'.top d = s.top d := by
    rw [State.top, State.top, code _ fun same => other (Sum.inl.inj same), core]
  constructor
  case distinct =>
    rw [core]
    exact ok.distinct
  case ready =>
    intro d
    rw [core]
    by_cases eq : d = c
    · subst eq
      rw [active, top_self, code_self]
      exact (ok.ready d).goes off (none ▸ handler)
    · have same : s'.active d = s.active d := by
        rw [active, top d eq, code]
        · rfl
        · intro same
          rcases top_cases s d with ⟨hd, _⟩ | ⟨hd, _⟩ <;> rw [hd] at same
          · cases same
          · exact eq (Sum.inl.inj same)
      rw [same]
      exact ok.ready d
  case idle =>
    intro i free
    have other : i ≠ .inl c := fun same => free c (top_self.trans same.symm)
    rw [code i other]
    by_cases eq : s.top c = i
    · exact eq ▸ clear
    · refine ok.idle i fun d same => ?_
      by_cases here : d = c
      · exact eq (here ▸ same)
      · exact free d ((top d here).trans same)
  case taken =>
    rw [← next]
    exact ok.taken
  case apart =>
    rw [← next]
    exact ok.apart

/-- A core with no lock goes on with another thread. -/
theorem change (ok : Ok rank s) (none : (s.core c).held = []) (unsaved : (s.core c).saves = [])
    {t : T} (free : ∀ d, d ≠ c → (s.core d).current ≠ t) :
    Ok rank { s with core := Function.update s.core c { s.core c with current := t } } := by
  have off : spinning (s.active c) = 0 := by
    have saved := (ok.ready c).saved
    rw [none, unsaved] at saved
    simpa using saved.symm
  have clear : checkAll rank (s.active c) [] = some [] := none ▸ (ok.ready c).checked off
  generalize next : ({ s with core := Function.update s.core c { s.core c with current := t } } :
    State C L T) = s'
  have code : s'.code = s.code := by rw [← next]
  have core_self : s'.core c = { s.core c with current := t } := by
    rw [← next]
    exact Function.update_self ..
  have core (d : C) (other : d ≠ c) : s'.core d = s.core d := by
    rw [← next]
    exact Function.update_of_ne other ..
  have held (d : C) : (s'.core d).held = (s.core d).held := by
    by_cases eq : d = c
    · rw [eq, core_self]
    · rw [core d eq]
  have top (d : C) (other : d ≠ c) : s'.top d = s.top d := by
    rw [State.top, State.top, code, core d other]
  have fresh (fits : checkAll rank (s'.active c) [] = some []) :
      Ready rank (s'.core c) (s'.active c) := by
    have now := (ok.ready c).goes off (by rw [none]; exact fits)
    rw [core_self]
    exact ⟨now.fits, now.sorted, now.saved, now.masked, now.nested⟩
  constructor
  case distinct =>
    intro d e same
    by_cases hd : d = c <;> by_cases he : e = c
    · rw [hd, he]
    · rw [hd, core_self, core e he] at same
      exact absurd same.symm (free e he)
    · rw [he, core_self, core d hd] at same
      exact absurd same (free d hd)
    · rw [core d hd, core e he] at same
      exact ok.distinct d e same
  case ready =>
    intro d
    by_cases eq : d = c
    · subst eq
      apply fresh
      rcases top_cases s d with ⟨hd, done⟩ | ⟨hd, busy⟩
      · have now : s'.top d = .inr t := by rw [State.top, code, if_pos done, core_self]
        rw [active, now, code]
        by_cases same : (s.core d).current = t
        · rw [active, hd, same] at clear
          exact clear
        · refine ok.idle _ fun e runs => ?_
          by_cases here : e = d
          · rw [here, hd] at runs
            exact same (Sum.inr.inj runs)
          · rcases top_cases s e with ⟨he, _⟩ | ⟨he, _⟩ <;> rw [he] at runs
            · exact free e here (Sum.inr.inj runs)
            · cases runs
      · have now : s'.top d = s.top d := by rw [hd, State.top, code, if_neg busy]
        rw [active, now, code]
        exact clear
    · rw [core d eq, active, top d eq, code]
      exact ok.ready d
  case idle =>
    intro i out
    rw [code]
    by_cases eq : s.top c = i
    · exact eq ▸ clear
    · refine ok.idle i fun d same => ?_
      by_cases here : d = c
      · exact eq (here ▸ same)
      · exact out d ((top d here).trans same)
  case taken =>
    intro l
    simp only [held]
    rw [← next]
    exact ok.taken l
  case apart =>
    intro d e l hd he
    rw [held] at hd he
    exact ok.apart d e l hd he

end Ok

section
variable [Fintype C] {ops : O → Prog L} {handlers : H → Prog L}

theorem step_ok (calls : ∀ op, Checked rank (ops op)) (interrupts : ∀ h, Checked rank (handlers h))
    {s : State C L T} (ok : Ok rank s) (e : Event C T O H) : Ok rank (s.step ops handlers e) := by
  cases e with
  | run c way => exact ok.run c way
  | call c op =>
    simp only [step]
    split
    next free => exact ok.call free (calls op)
    next => exact ok
  | interrupt c h =>
    simp only [step]
    split
    next on => exact ok.interrupt on (interrupts h)
    next => exact ok
  | switch c t =>
    simp only [step]
    split
    next k at_ =>
      split
      next free =>
        have ready := ok.ready c
        rw [at_] at ready
        obtain ⟨after, check, rest⟩ := checkAll_cons (ready.checked rfl)
        simp only [Locking.check, Option.ite_none_right_eq_some, Option.some.injEq] at check
        obtain ⟨none, rfl⟩ := check
        have moved : Ok rank (s.goto c k) := by
          have moved := ok.move (c := c) (v := s.core c) (k := k)
            (ready.goes rfl (none ▸ rest)) rfl .none
          rwa [Function.update_eq_self] at moved
        exact moved.change none (ready.unsaved rfl none) free
      next => exact ok
    next => exact ok

end

/-- Every lock is free, nobody is in a program, and no two cores are in one thread. -/
structure Initial (s : State C L T) : Prop where
  distinct : ∀ c d, (s.core c).current = (s.core d).current → c = d
  free : ∀ l, s.taken l = false
  quiet : ∀ c, (s.core c).held = [] ∧ (s.core c).saves = []
  done : ∀ i, s.code i = []

omit [DecidableEq C] [DecidableEq T] in
theorem Initial.ok {s : State C L T} (start : Initial s) : Ok rank s where
  distinct := start.distinct
  ready c := by
    obtain ⟨none, unsaved⟩ := start.quiet c
    rw [active, start.done]
    refine ⟨?_, ?_, ?_, fun some => absurd unsaved some, ?_⟩ <;> simp [none, unsaved, Fits, checkAll, spinning]
  idle i _ := by
    rw [start.done]
    rfl
  taken l := by
    rw [start.free]
    simp [(start.quiet _).1]
  apart c d l hc := by
    rw [(start.quiet c).1] at hc
    cases hc

/-! ### What follows -/

section
variable {s : State C L T}

/-- A lock is acquired over locks of lower rank only. -/
def InOrder (rank : L → Nat) (s : State C L T) : Event C T O H → Prop
  | .run c _ =>
    match s.active c with
    | .acquire l :: _ => ∀ k ∈ (s.core c).held, rank k < rank l
    | _ => True
  | _ => True

omit [DecidableEq C] [DecidableEq T] in
theorem Ok.inOrder (ok : Ok rank s) (e : Event C T O H) : InOrder rank s e := by
  cases e with
  | run c way =>
    simp only [InOrder]
    split
    next l k at_ =>
      have ready := ok.ready c
      rw [at_] at ready
      obtain ⟨after, check, _⟩ := checkAll_cons (ready.checked rfl)
      simp only [Locking.check, Option.ite_none_right_eq_some] at check
      exact check.1
    next => trivial
  | call | interrupt | switch => trivial

omit [DecidableEq C] [DecidableEq T] in
/-- Interrupts are off on a core that has a lock. -/
theorem Ok.masked (ok : Ok rank s) (c : C) (some : (s.core c).held ≠ []) :
    (s.core c).irqs = false := by
  by_contra on
  exact some ((ok.ready c).unlocked (by simpa using on)).1

omit [DecidableEq C] [DecidableEq L] [DecidableEq T] in
theorem waitsFor_eq_some {c : C} {l : L} (h : s.waitsFor c = some l) :
    ∃ k, s.active c = .spin l :: k ∧ s.taken l = true := by
  unfold waitsFor at h
  split at h
  next m k at_ =>
    simp only [Option.ite_none_right_eq_some, Option.some.injEq] at h
    obtain ⟨taken, rfl⟩ := h
    exact ⟨k, at_, taken⟩
  next => cases h

omit [DecidableEq C] [DecidableEq T] in
/-- A core waits for a lock above all of its own. -/
theorem Ok.waits_above (ok : Ok rank s) {c : C} {l : L} (h : s.waitsFor c = some l) :
    ∀ k ∈ (s.core c).held, rank k < rank l := by
  obtain ⟨k, at_, _⟩ := waitsFor_eq_some h
  have ready := ok.ready c
  rw [at_] at ready
  exact ready.fits.1

omit [DecidableEq C] [DecidableEq T] in
/-- The lock that a core waits for is held by another core. -/
theorem Ok.holder (ok : Ok rank s) {c : C} {l : L} (h : s.waitsFor c = some l) :
    ∃ d, d ≠ c ∧ l ∈ (s.core d).held := by
  obtain ⟨_, _, taken⟩ := waitsFor_eq_some h
  obtain ⟨d, held⟩ := (ok.taken l).mp taken
  refine ⟨d, fun same => ?_, held⟩
  subst same
  exact Nat.lt_irrefl _ (ok.waits_above h l held)

omit [DecidableEq C] [DecidableEq T] in
/-- Of the cores that wait, one waits for a lock of the highest rank, and its holder would have to
wait for a higher one. -/
theorem Ok.not_deadlocked (ok : Ok rank s) (cores : Finset C) : ¬ s.Deadlocked cores := by
  rintro ⟨some, waits⟩
  obtain ⟨c, member, highest⟩ :=
    cores.exists_max_image (fun c => ((s.waitsFor c).map rank).getD 0) some
  obtain ⟨l, for_l, d, other, held⟩ := waits c member
  obtain ⟨m, for_m, _⟩ := waits d other
  have above := ok.waits_above for_m l held
  have bound := highest d other
  simp only [for_l, for_m, Option.map_some, Option.getD_some] at bound
  omega

omit [DecidableEq C] [DecidableEq T] in
/-- A core that holds a lock and does not wait can take its next step. -/
theorem Ok.proceeds (ok : Ok rank s) {c : C} (some : (s.core c).held ≠ [])
    (free : s.waitsFor c = none) (way : Bool) :
    (next s.taken (s.core c) way (s.active c)).isSome = true := by
  have ready := ok.ready c
  cases code : s.active c with
  | nil =>
    rw [code] at ready
    exact absurd (Option.some.inj (ready.checked rfl)) some
  | cons p k =>
    cases p with
    | switch =>
      rw [code] at ready
      obtain ⟨after, check, _⟩ := checkAll_cons (ready.checked rfl)
      simp only [Locking.check, Option.ite_none_right_eq_some] at check
      exact absurd check.1 some
    | spin l =>
      simp only [waitsFor, code, ite_eq_right_iff, reduceCtorEq, imp_false] at free
      simp [next, free]
    | _ => rfl

end

end State

end Locking
