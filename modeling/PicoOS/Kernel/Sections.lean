import PicoOS.Kernel.Prims

/-!
# Sections under a primitive's lock

A thread enters the section of a primitive where it finds the stripe free, and
stays on its core, with interrupts off, until it has left the section. So no
two cores are inside the sections of one stripe, and nobody is switched out
inside one.
-/
namespace PicoOS.Kernel

/-- The sections that are under way exclude each other, and no saved context is in one. -/
structure Masked (m : Machine) : Prop where
  apart : ∀ c s, m.heldStripe c = some s → m.heldStripe c.other ≠ some s
  outside : SavedOutside m.k

section
variable {m : Machine} {c : Core} {x : Ctx} {a : Act}

theorem heldStripe_eq (m : Machine) (c : Core) :
    m.heldStripe c = (m.cpu c).holder.bind fun x => x.pc.stripe := by
  unfold Machine.heldStripe Cpu.holder
  cases m.cpu c with
  | thread x => cases held : x.pc.stripe <;> simp [held]
  | _ => rfl

theorem wakePc_stripe {k : KernelState} {wakes : Option WaitList} {s : Stripe}
    (h : (wakePc k wakes).stripe = some s) :
    ∃ w, wakes = some w ∧ s = primPoolAssign w.addr := by
  cases wakes with
  | none => cases h
  | some w =>
    refine ⟨w, rfl, ?_⟩
    cases w <;> exact (Option.some.inj h).symm

/-- The lists that a call wakes are of the primitive that it locks. -/
theorem waitTake_addr {k : KernelState} {t : Slot} {op : WaitOp} {s : Section} {w : WaitList}
    (h : waitTake k t op = some s) (wakes : s.wakes = some w) : w.addr = op.list.addr := by
  cases op <;> simp only [waitTake, Option.ite_none_right_eq_some, Option.some.injEq] at h <;>
    obtain ⟨_, rfl⟩ := h <;> cases wakes <;> rfl

theorem postTake_addr {k : KernelState} {op : PostOp} {w : WaitList}
    (wakes : (postTake k op).wakes = some w) : w.addr = op.addr := by
  cases op with
  | mqueueTrySend | mqueueTryRecv =>
    simp only [postTake] at wakes
    split at wakes <;> cases wakes
    rfl
  | _ => cases wakes <;> rfl

/-- A thread holds a stripe after a step only if it held it before, or enters a section and has
found it free. -/
theorem act_stripe (h : m.act c x = some a) {s : Stripe} (inside : a.pc.stripe = some s) :
    x.pc.stripe = some s ∨ x.pc.enters = true ∧ m.heldStripe c.other ≠ some s := by
  cases at_ : x.pc with
  | test op again =>
    have free : m.stripeFree c op.list.addr = true := by
      simp only [Machine.act, at_, Option.ite_none_right_eq_some] at h
      exact h.1
    have found : s = primPoolAssign op.list.addr := by
      obtain ⟨cur, _, ⟨sec, taken, rfl⟩ | ⟨_, _, blocks, _⟩⟩ := test_cases at_ h
      · obtain ⟨w, wakes, rfl⟩ := wakePc_stripe inside
        rw [waitTake_addr taken wakes]
      · rw [blocks] at inside
        exact (Option.some.inj inside).symm
    exact .inr ⟨rfl, by simpa [Machine.stripeFree, found] using free⟩
  | post op =>
    have free : m.stripeFree c op.addr = true := by
      simp only [Machine.act, at_, Option.ite_none_right_eq_some] at h
      exact h.1
    rw [post_cases at_ h] at inside
    obtain ⟨w, wakes, rfl⟩ := wakePc_stripe inside
    exact .inr ⟨rfl, by simpa [Machine.stripeFree, postTake_addr wakes] using free⟩
  | waking w =>
    simp only [Machine.act, at_, Option.some.injEq] at h
    rw [← h] at inside
    unfold wakeStep at inside
    split at inside
    next => cases inside
    next => exact .inl inside
  | scanning e prev cur =>
    simp only [Machine.act, at_, Option.some.injEq] at h
    rw [← h] at inside
    unfold scanStep at inside
    split at inside
    next => cases inside
    next => split at inside <;> exact .inl inside
  | unblocking t loop =>
    simp only [Machine.act, at_, Option.ite_none_right_eq_some] at h
    obtain ⟨⟨k, live⟩, _, rfl⟩ := Option.map_eq_some_iff.mp h.2
    cases live <;> cases loop <;> first | exact .inl inside | cases inside
  | freeing t stage caller =>
    simp only [Machine.act, at_, Option.some.injEq] at h
    rw [← h] at inside
    unfold freeingStep at inside
    split at inside
    next => cases caller <;> exact .inl inside
    next =>
      cases caller with
      | killer => cases inside
      | waker loop => cases loop <;> exact .inl inside
  | index r u =>
    simp only [Machine.act, at_] at h
    rcases (indexStep_cases h).2 with
      ⟨_, pc⟩ | pc | pc | pc | ⟨_, _, pc⟩ | ⟨_, _, pc⟩ <;> rw [pc] at inside <;> cases inside
  | access p u =>
    simp only [Machine.act, at_] at h
    rcases accessStep_cases h with pc | ⟨_, pc⟩ | ⟨_, _, pc⟩ | pc | pc <;> rw [pc] at inside <;>
      cases inside
  | killLock t r rest yield =>
    simp only [Machine.act, at_, Option.ite_none_right_eq_some] at h
    obtain ⟨⟨k, now⟩, _, rfl⟩ := Option.map_eq_some_iff.mp h.2
    cases now <;> cases inside
  | blocking | sleepLock =>
    simp only [Machine.act, at_, Option.ite_none_right_eq_some] at h
    obtain ⟨cur, _, h⟩ := Option.bind_eq_some_iff.mp h.2
    obtain ⟨k, _, rfl⟩ := Option.map_eq_some_iff.mp h
    cases inside
  | createAdd t =>
    simp only [Machine.act, at_, Option.ite_none_right_eq_some] at h
    obtain ⟨k, _, rfl⟩ := Option.map_eq_some_iff.mp h.2
    cases inside
  | user =>
    simp only [Machine.act, at_] at h
    cases h
  | _ =>
    simp only [Machine.act, at_, Option.some.injEq] at h
    rw [← h] at inside
    simp only [killFindStep, killNextStep, snapshotStep, createFindStep, createAllocStep,
      createInitStep, createCountStep, procFindStep] at inside
    repeat' split at inside
    all_goals cases inside

end

theorem step_masked {m : Machine} (masked : Masked m) (e : Event) : Masked (m.step e) := by
  have stepped := step_stepped m e
  generalize m.step e = m' at stepped ⊢
  cases stepped with
  | rest _ rest =>
    have same (d : Core) : m'.heldStripe d = m.heldStripe d := by
      rw [heldStripe_eq, heldStripe_eq, rest.holder masked.outside d]
    refine ⟨fun c s held => ?_, fun t x saved => ?_⟩
    · rw [same] at held ⊢
      exact masked.apart c s held
    · exact (rest.saved t x saved).elim (masked.outside t x) id
  | act c runs h =>
    rename_i x a
    have mine : m.heldStripe c = x.pc.stripe := by
      simp [Machine.heldStripe, (executes_eq_some.mp runs).1]
    have now : (m.commit c x a).heldStripe c = a.pc.stripe := by
      simp [Machine.heldStripe, Machine.commit]
    have other : (m.commit c x a).heldStripe c.other = m.heldStripe c.other := by
      simp [Machine.heldStripe, Machine.commit, Core.other_ne]
    have free {s : Stripe} (inside : a.pc.stripe = some s) : m.heldStripe c.other ≠ some s := by
      rcases act_stripe h inside with before | ⟨_, free⟩
      · exact masked.apart c s (mine.trans before)
      · exact free
    refine ⟨fun d s held => ?_, fun t y saved => ?_⟩
    · rcases Core.eq_or_other c d with rfl | rfl
      · rw [other]
        exact free (now ▸ held)
      · rw [Core.other_other, now]
        exact fun both => free both (other ▸ held)
    · rcases (act_frame h).saved t y saved with before | fresh
      · exact masked.outside t y before
      · rw [fresh]
        rfl

theorem AtBoot.masked {m : Machine} (boot : AtBoot m) : Masked m where
  apart c s held := by
    obtain ⟨t, run, _⟩ := boot.1 c
    simp only [Machine.heldStripe, run] at held
    cases held
  outside t x saved := by
    rcases boot.2.1 t with empty | fresh
    · rw [empty] at saved
      cases saved
    · rw [fresh] at saved
      cases saved
      rfl

end PicoOS.Kernel
