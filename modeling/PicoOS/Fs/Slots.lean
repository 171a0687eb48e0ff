import PicoOS.Fs.Run

/-!
# Which slot of the descriptor table a call takes or frees

An open takes at most the slot that `openSlot` computes beforehand; no other call
takes one, and deleting or formatting frees the slots of the files that go.
-/
namespace PicoOS.Fs

variable {cfg : FsConfig}

/-- The slot and the file of an open that is going to succeed. -/
def openSlot (cfg : FsConfig) (s : FsState) (name : Option CStr) (mode : UInt32) :
    Option (Nat × Nat) :=
  match name with
  | none => none
  | some name =>
    match openFile cfg s name.stripSlash mode with
    | none => none
    | some i =>
      if hasFlag mode vfsOWronly && s.scratchOwner.isSome then none
      else (allocOpenFd s).map fun k => (k, i)

theorem fdFile_congr {s s' : FsState} {fd : Int}
    (h : s'.openFds fd.toNat = s.openFds fd.toNat) : fdFile s' fd = fdFile s fd := by
  unfold fdFile validFd
  rw [h]

theorem Resolved.openFds {s s' : FsState} {name : CStr} {mode : UInt32} {i : Nat}
    (file : Resolved cfg s name mode i s') :
    s'.openFds = s.openFds ∧ s'.scratchOwner = s.scratchOwner := by
  cases file with
  | found _ => exact ⟨rfl, rfl⟩
  | created _ _ _ => exact ⟨createEntry_openFds .., createEntry_scratchOwner ..⟩

/-- An open takes the slot that `openSlot` says, or none. -/
theorem fsOpen_slot (cfg : FsConfig) (s : FsState) (name : Option CStr) (mode : UInt32) :
    (openSlot cfg s name mode = none ∧ (fsOpen cfg s name mode).1 = -1 ∧
      (fsOpen cfg s name mode).2.openFds = s.openFds) ∨
    ∃ k i ofd, openSlot cfg s name mode = some (k, i) ∧ (fsOpen cfg s name mode).1 = k ∧
      k < fsMaxOpenFds ∧ ofd.used = true ∧ ofd.fileIdx = i ∧
      (fsOpen cfg s name mode).2.openFds = Function.update s.openFds k ofd := by
  have call := fsOpen_cases cfg s name mode
  generalize fsOpen cfg s name mode = r at call ⊢
  cases call with
  | missing h =>
    left
    cases name with
    | none => exact ⟨rfl, rfl, rfl⟩
    | some n =>
      have absent : openFile cfg s n.stripSlash mode = none := by
        simp only [openFile, (h n rfl).1, ite_eq_right_iff]
        exact (h n rfl).2
      exact ⟨by simp [openSlot, absent], rfl, rfl⟩
  | busy given file writing owner =>
    cases given
    obtain ⟨fds, same⟩ := Resolved.openFds file
    rw [same, ← Option.isSome_iff_ne_none] at owner
    exact .inl ⟨by simp [openSlot, file.openFile, writing, owner], rfl, fds⟩
  | @full n i s₁ given file _ slots =>
    cases given
    obtain ⟨fds, -⟩ := Resolved.openFds file
    rw [allocOpenFd_congr fds] at slots
    refine .inl ⟨by simp [openSlot, file.openFile, slots], rfl, ?_⟩
    dsimp only
    split
    · exact (claimed_openFds s₁ i mode).trans fds
    · exact fds
  | @done n i s₁ k given file owner slot =>
    cases given
    obtain ⟨fds, same⟩ := Resolved.openFds file
    rw [allocOpenFd_congr fds] at slot
    rw [same] at owner
    have free : (hasFlag mode vfsOWronly && s.scratchOwner.isSome) = false := by
      cases writing : hasFlag mode vfsOWronly with
      | false => rfl
      | true => rw [owner writing]; rfl
    refine .inr ⟨k, i, openedFd (claimed s₁ i mode) i mode, by simp [openSlot, file.openFile, slot, free], rfl,
      (allocOpenFd_some slot).1, rfl, rfl, ?_⟩
    simp only [FsState.setFd, claimed_openFds, fds]

/-- The other calls free slots at most. -/
theorem step_slot {s : FsState} {op : FsOp} (notOpen : ∀ name mode, op ≠ .open name mode)
    {fd : Int} {i : Nat} (h : fdFile (step cfg s op) fd = some i) : fdFile s fd = some i := by
  rw [fdFile_eq_some, validFd_iff] at h ⊢
  obtain ⟨⟨lower, upper, used⟩, file⟩ := h
  suffices (s.openFds fd.toNat).used = true ∧ (s.openFds fd.toNat).fileIdx = i from
    ⟨⟨lower, upper, this.1⟩, this.2⟩
  cases op with
  | «open» name mode => exact absurd rfl (notOpen name mode)
  | read f buf n =>
    simp only [step] at used file
    have call := fsRead_cases s f buf n
    generalize fsRead s f buf n = r at call used file
    cases call with
    | invalid _ => exact ⟨used, file⟩
    | empty _ _ => exact ⟨used, file⟩
    | done _ isFd _ _ =>
      subst isFd
      simp only [setFd_openFds] at used file
      split at used
      next eq => rw [if_pos eq] at file; exact eq ▸ ⟨used, file⟩
      next ne => rw [if_neg ne] at file; exact ⟨used, file⟩
  | write f buf =>
    simp only [step] at used file
    have call := fsWrite_cases s f buf
    generalize fsWrite s f buf = r at call used file
    cases call with
    | invalid _ => exact ⟨used, file⟩
    | empty _ _ => exact ⟨used, file⟩
    | refused _ _ _ _ => exact ⟨used, file⟩
    | done _ _ isFd _ _ _ =>
      subst isFd
      simp only [setEntry_openFds, setFd_openFds] at used file
      split at used
      next eq => rw [if_pos eq] at file; exact eq ▸ ⟨used, file⟩
      next ne => rw [if_neg ne] at file; exact ⟨used, file⟩
  | close f =>
    simp only [step] at used file
    have call := fsClose_cases cfg s f
    generalize fsClose cfg s f = r at call used file
    cases call with
    | invalid _ => exact ⟨used, file⟩
    | clean _ _ _ =>
      simp only [setFd_openFds] at used file
      split at used
      · cases used
      next ne => rw [if_neg ne] at file; exact ⟨used, file⟩
    | committed _ _ _ flash _ =>
      simp only [setFd_openFds] at used file
      split at used
      · cases used
      next ne =>
        rw [if_neg ne] at file
        rw [← flash.openFds]
        exact ⟨used, file⟩
  | delete name =>
    simp only [step] at used file
    have call := fsDelete_cases cfg s name
    generalize fsDelete cfg s name = r at call used file
    cases call with
    | missing _ => exact ⟨used, file⟩
    | done _ _ flash _ =>
      rw [flash.openFds, removeEntry_openFds] at used file
      simp only [forceClose] at used file
      split at used
      · cases used
      next keep => rw [if_neg keep] at file; exact ⟨used, file⟩

/-- A delete frees every slot of its file. -/
theorem delete_slot {s : FsState} {name : Option CStr} {fd : Int} {i : Nat}
    (h : fdFile (step cfg s (.delete name)) fd = some i) :
    target cfg s (.delete name) ≠ some i := by
  rw [fdFile_eq_some, validFd_iff] at h
  obtain ⟨⟨-, upper, used⟩, file⟩ := h
  simp only [step] at used file
  have call := fsDelete_cases cfg s name
  generalize fsDelete cfg s name = r at call used file
  cases call with
  | missing absent =>
    cases name with
    | none => exact fun eq => by cases eq
    | some n => simp [target, absent n rfl]
  | done given found flash _ =>
    cases given
    rw [flash.openFds, removeEntry_openFds] at used file
    simp only [forceClose] at used file
    split at used
    · cases used
    next keep =>
      rw [if_neg keep] at file
      simp only [target, Option.bind_some, found, ne_eq, Option.some.injEq]
      rintro rfl
      exact keep ⟨upper, used, file⟩

/-- A format frees every slot. -/
theorem format_slot (s : FsState) (fd : Int) : fdFile (fsFormat cfg s) fd = none := by
  by_contra occupied
  obtain ⟨i, file⟩ := Option.ne_none_iff_exists'.mp occupied
  obtain ⟨valid, -⟩ := fdFile_eq_some.mp file
  obtain ⟨-, upper, used⟩ := (validFd_iff fd).mp valid
  rw [(fsFormat_flashOnly cfg s).1.openFds] at used
  simp only [formatted, if_pos upper] at used
  cases used

end PicoOS.Fs
