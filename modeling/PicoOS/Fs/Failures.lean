import PicoOS.Fs.PowerLoss
import PicoOS.Fs.Content
import Mathlib

/-!
# Calls that fail half way

An `fs_open` creates and truncates before the steps that can still refuse it,
and a write session grows the RAM size long before its commit can fail. Neither
is taken back.
-/
namespace PicoOS.Fs

variable {cfg : FsConfig} {s s' : FsState}

/-! ### A failed open -/

/-- The same directory, contents, buffer owner and descriptors in both states. -/
structure Unchanged (cfg : FsConfig) (s s' : FsState) : Prop where
  fileCount : s'.superblockRam.fileCount = s.superblockRam.fileCount
  entry : ∀ i < cfg.fsMaxFiles, s'.entry i = s.entry i
  content : ∀ i < cfg.fsMaxFiles, ∀ k < fsBlockSize,
    s'.flash (fileFlashOffset i + k) = s.flash (fileFlashOffset i + k)
  /-- Data that a writer has stored but not committed. -/
  pending : s.scratchOwner ≠ none → s'.fsBuffer = s.fsBuffer
  scratchOwner : s'.scratchOwner = s.scratchOwner
  openFds : s'.openFds = s.openFds

theorem Unchanged.refl (cfg : FsConfig) (s : FsState) : Unchanged cfg s s :=
  ⟨rfl, fun _ _ => rfl, fun _ _ _ _ => rfl, fun _ => rfl, rfl, rfl⟩

/-- The opens that are refused after they have created or truncated the file. -/
def LeavesTrace (cfg : FsConfig) (s : FsState) (name : CStr) (mode : UInt32) : Prop :=
  -- the entry is filled in and flushed before the buffer and the table are looked at
  (findFile cfg s name = none ∧ hasFlag mode vfsOCreat = true ∧ allocFileEntry cfg s ≠ none ∧
    ((hasFlag mode vfsOWronly = true ∧ s.scratchOwner ≠ none) ∨ allocOpenFd s = none)) ∨
  -- the buffer is given back when the table is full, the size is not
  (∃ i, findFile cfg s name = some i ∧ hasFlag mode vfsOWronly = true ∧
    hasFlag mode vfsOTrunc = true ∧ s.scratchOwner = none ∧ allocOpenFd s = none ∧
    (s.entry i).size ≠ 0)

/-- Giving the buffer back undoes a claim, but for the size a truncation has cut. -/
theorem claimed_full {i : Nat} {mode : UInt32} (inside : i < cfg.fsMaxFiles)
    (writing : hasFlag mode vfsOWronly = true) (free : s.scratchOwner = none) :
    Unchanged cfg s { claimed s i mode with scratchOwner := none } ↔
      (hasFlag mode vfsOTrunc = true → (s.entry i).size = 0) := by
  have entry (j : Nat) : ({ claimed s i mode with scratchOwner := none } : FsState).entry j =
      if hasFlag mode vfsOTrunc = true ∧ j = i then { s.entry j with size := 0 }
      else s.entry j := by
    have cut := claimed_entry s i j mode
    simp only [writing, true_and] at cut
    exact cut
  constructor
  · intro same trunc
    have size := congrArg FsEntry.size (same.entry i inside)
    rw [entry, if_pos ⟨trunc, rfl⟩] at size
    exact size.symm
  · intro empty
    have kept (j : Nat) : ({ claimed s i mode with scratchOwner := none } : FsState).entry j =
        s.entry j := by
      rw [entry]
      split
      next cut =>
        obtain ⟨trunc, rfl⟩ := cut
        rw [← empty trunc]
      · rfl
    have count : (claimed s i mode).superblockRam.fileCount = s.superblockRam.fileCount := by
      rw [claimed_superblockRam]
      split <;> rfl
    exact ⟨count, fun j _ => kept j, fun _ _ _ _ => by simp, fun owned => absurd free owned,
      free.symm, claimed_openFds ..⟩

/-- On a file that exists, only a truncating open can fail late. -/
theorem leavesTrace_found {name : CStr} {mode : UInt32} {i : Nat}
    (found : findFile cfg s name = some i) :
    LeavesTrace cfg s name mode ↔ hasFlag mode vfsOWronly = true ∧ hasFlag mode vfsOTrunc = true ∧
      s.scratchOwner = none ∧ allocOpenFd s = none ∧ (s.entry i).size ≠ 0 := by
  constructor
  · rintro (⟨absent, -⟩ | ⟨j, is_file, rest⟩)
    · rw [found] at absent
      cases absent
    · rw [found] at is_file
      cases is_file
      exact rest
  · exact fun rest => .inr ⟨i, found, rest⟩

/-- An `fs_open` that returns -1 has changed nothing, if and only if it is not one of those that
are refused late. -/
theorem failed_open_unchanged_iff (cfg : FsConfig) (s : FsState) (name : CStr) (mode : UInt32) :
    ((fsOpen cfg s (some name) mode).1 = -1 →
        Unchanged cfg s (fsOpen cfg s (some name) mode).2) ↔
      ¬ LeavesTrace cfg s name.stripSlash mode := by
  have call := fsOpen_cases cfg s (some name) mode
  generalize fsOpen cfg s (some name) mode = r at call ⊢
  -- an open that has created an entry shows it
  have traced {i : Nat} {s₁ s₂ : FsState}
      (absent : findFile cfg s name.stripSlash = none) (creat : hasFlag mode vfsOCreat = true)
      (slot : allocFileEntry cfg s = some i) (is_state : s₁ = createEntry cfg s i name.stripSlash)
      (used : (s₂.entry i).used = (s₁.entry i).used)
      (late : (hasFlag mode vfsOWronly = true ∧ s₁.scratchOwner ≠ none) ∨
        allocOpenFd s₁ = none) :
      ((-1 : Int) = -1 → Unchanged cfg s s₂) ↔ ¬ LeavesTrace cfg s name.stripSlash mode := by
    subst is_state
    rw [createEntry_scratchOwner, allocOpenFd_congr (createEntry_openFds ..)] at late
    have trace : LeavesTrace cfg s name.stripSlash mode :=
      .inl ⟨absent, creat, by simp [slot], late⟩
    have changed : ¬ Unchanged cfg s s₂ := by
      intro same
      obtain ⟨inside, unused⟩ := allocFileEntry_some slot
      rw [same.entry i inside, createEntry_entry, if_pos rfl, unused] at used
      cases used
    exact iff_of_false (fun same => changed (same rfl)) (not_not_intro trace)
  cases call with
  | missing h =>
    obtain ⟨absent, full⟩ := h name rfl
    apply iff_of_true
    · exact fun _ => Unchanged.refl cfg s
    · rintro (⟨-, creat, room, -⟩ | ⟨i, found, -⟩)
      · exact room (full creat)
      · rw [absent] at found
        cases found
  | @busy _ i s₁ given file writing owner =>
    cases given
    cases file with
    | found found =>
      rw [leavesTrace_found found]
      apply iff_of_true
      · exact fun _ => Unchanged.refl cfg s
      · exact fun trace => owner trace.2.2.1
    | created absent creat slot =>
      exact traced absent creat slot rfl rfl (.inl ⟨writing, owner⟩)
  | @full _ i s₁ given file owner slots =>
    cases given
    cases file with
    | found found =>
      rw [leavesTrace_found found]
      split
      next writing =>
        have inside := (findFile_some found).1
        have undone := claimed_full inside writing (owner writing)
        constructor
        · rintro same ⟨-, trunc, -, -, data⟩
          exact data (undone.mp (same rfl) trunc)
        · intro kept _
          apply undone.mpr
          intro trunc
          by_contra data
          exact kept ⟨writing, trunc, owner writing, slots, data⟩
      next reading =>
        apply iff_of_true
        · exact fun _ => Unchanged.refl cfg s
        · exact fun trace => reading trace.1
    | created absent creat slot =>
      apply traced absent creat slot rfl _ (.inr slots)
      split
      · exact claimed_used ..
      · rfl
  | @done _ i s₁ fd given file owner slot =>
    cases given
    apply iff_of_true
    · intro minus
      exact absurd minus (by omega)
    · intro trace
      cases file with
      | found found =>
        rw [leavesTrace_found found, slot] at trace
        cases trace.2.2.2.1
      | created absent creat room =>
        rw [createEntry_scratchOwner] at owner
        rw [allocOpenFd_congr (createEntry_openFds ..)] at slot
        rcases trace with ⟨-, -, -, ⟨writing, busy⟩ | full⟩ | ⟨j, found, -⟩
        · exact busy (owner writing)
        · rw [slot] at full
          cases full
        · rw [absent] at found
          cases found

/-- File `a` is being written, so `b` cannot be opened for writing: it is created all the same. -/
theorem busy_open_creates : Reachable twoFiles pendingA ∧
    (fsOpen twoFiles pendingA (some fileB) (vfsOWronly ||| vfsOCreat)).1 = -1 ∧
    ¬ Unchanged twoFiles pendingA
      (fsOpen twoFiles pendingA (some fileB) (vfsOWronly ||| vfsOCreat)).2 := by
  refine ⟨pendingA_reachable, by decide +kernel, fun same => ?_⟩
  have count := same.fileCount
  revert count
  decide +kernel

/-! ### How far a session writes -/

/-- Where the bytes end that a call stores through descriptor `fd`; 0 if it stores none. -/
def storedEnd (fd : Int) (s : FsState) : FsOp → Nat
  | .write f (some data) =>
    if f = fd ∧ 0 < writable (s.openFds fd.toNat) data then
      (s.openFds fd.toNat).pos + writable (s.openFds fd.toNat) data
    else 0
  | _ => 0

/-- The furthest that the writes of a run through descriptor `fd` reach. -/
def writeEnd (cfg : FsConfig) (fd : Int) : FsState → List FsOp → Nat
  | _, [] => 0
  | s, op :: ops => max (storedEnd fd s op) (writeEnd cfg fd (step cfg s op) ops)

namespace InSession

variable {i fd : Nat} {name : Vector UInt8 16} {sector : List UInt8}

/-- Only its own writes change the size of a file in session. -/
theorem step_size (h : InSession cfg fd i name sector s) (op : FsOp)
    (goesOn : ¬ endsSession cfg fd i s op) :
    ((PicoOS.Fs.step cfg s op).entry i).size.toNat = max (s.entry i).size.toNat (storedEnd fd s op) := by
  -- a call that stores nothing leaves the entry as it is
  have quiet (stores : storedEnd fd s op = 0) (same : (PicoOS.Fs.step cfg s op).entry i = s.entry i) :
      ((PicoOS.Fs.step cfg s op).entry i).size.toNat = max (s.entry i).size.toNat (storedEnd fd s op) := by
    rw [same, stores, Nat.max_zero]
  cases op with
  | «open» n mode =>
    apply quiet rfl
    by_cases mine : target cfg s (.open n mode) = some i
    · simp only [PicoOS.Fs.step]
      rcases h.opened mine (fsOpen_cases cfg s n mode) with same | ⟨slot, ofd, -, same⟩
      · rw [same]
      · rw [same]
        rfl
    · exact (FileFrame.step h.inv _ mine).entry
  | read f buf n =>
    apply quiet rfl
    simp only [PicoOS.Fs.step]
    have call := fsRead_cases s f buf n
    generalize fsRead s f buf n = r at call ⊢
    cases call <;> rfl
  | write f buf =>
    simp only [PicoOS.Fs.step] at quiet ⊢
    have call := fsWrite_cases s f buf
    generalize fsWrite s f buf = r at call quiet ⊢
    cases call with
    | invalid invalid =>
      apply quiet _ rfl
      cases buf with
      | none => rfl
      | some data =>
        apply if_neg
        rintro ⟨rfl, -⟩
        rw [(validFd_iff _).mpr ⟨Int.natCast_nonneg fd, (h.inv.bound fd h.writer.1).1, h.writer.1⟩]
          at invalid
        cases invalid
    | empty _ given =>
      apply quiet _ rfl
      rcases given with rfl | rfl
      · rfl
      · exact if_neg fun stores => by simp [writable] at stores
    | @refused data _ given _ refused =>
      subst given
      apply quiet _ rfl
      apply if_neg
      rintro ⟨rfl, some⟩
      rw [Int.toNat_natCast, h.writer.2] at refused
      rcases refused with reader | full
      · cases reader
      · exact absurd full some.ne'
    | @done data ofd len valid given isFd writing isLen some =>
      subst given isFd isLen
      -- a file has one writer, so this is the session's descriptor
      have valid := (validFd_iff f).mp valid
      have mine : f.toNat = fd := h.inv.unique _ _ ⟨valid.2.2, writing⟩ h.writer
      have is_fd : f = fd := by
        rw [← mine]
        exact (Int.toNat_of_nonneg valid.1).symm
      subst is_fd
      rw [Int.toNat_natCast] at some ⊢
      rw [setEntry_entry, if_pos h.file.symm, h.file, grown_size]
      · simp only [storedEnd, Int.toNat_natCast, some, and_self, if_true]
      · unfold writable at some ⊢
        omega
  | close f =>
    apply quiet rfl
    simp only [PicoOS.Fs.step]
    have call := fsClose_cases cfg s f
    generalize fsClose cfg s f = r at call ⊢
    cases call with
    | invalid _ => rfl
    | clean _ _ _ => rfl
    | committed _ _ _ flash _ => exact flash.entry i
  | delete n => exact quiet rfl (FileFrame.step h.inv _ goesOn).entry

theorem exec_size (h : InSession cfg fd i name sector s) {ops : List FsOp}
    (goesOn : Run.Along (PicoOS.Fs.step cfg) (fun s op => ¬ endsSession cfg fd i s op) s ops) :
    ((Run.exec (PicoOS.Fs.step cfg) s ops).entry i).size.toNat =
      max (s.entry i).size.toNat (writeEnd cfg fd s ops) := by
  induction ops generalizing s with
  | nil => exact (Nat.max_zero _).symm
  | cons op ops ih =>
    rw [Run.exec_cons, ih (h.step op goesOn.1) goesOn.2, h.step_size op goesOn.1, Nat.max_assoc]
    rfl

end InSession

/-- The size a file has when a write session on it begins. -/
theorem fsOpen_size {s₁ : FsState} {name : CStr} {mode : UInt32} {fd : Int} {i : Nat}
    (opened : fsOpen cfg s (some name) mode = (fd, s₁)) (success : 0 ≤ fd)
    (writing : hasFlag mode vfsOWronly = true) (file : (s₁.openFds fd.toNat).fileIdx = i) :
    (s₁.entry i).size = if hasFlag mode vfsOTrunc = true then 0 else sizeBefore cfg s name := by
  obtain ⟨i', s', k, rfl, resolved, -, -, rfl⟩ := fsOpen_success opened success
  have is_file : i' = i := by
    rw [setFd_openFds] at file
    exact (congrArg OpenFd.fileIdx (if_pos rfl)).symm.trans file
  subst is_file
  have size : (s'.entry i').size = sizeBefore cfg s name := by
    unfold sizeBefore
    cases resolved with
    | found found => rw [found]
    | created absent _ _ =>
      rw [absent, createEntry_entry, if_pos rfl]
      rfl
  rw [setFd_entry, claimed_entry]
  by_cases trunc : hasFlag mode vfsOTrunc = true
  · rw [if_pos ⟨writing, trunc, rfl⟩, if_pos trunc]
  · rw [if_neg fun cut => trunc cut.2.1, if_neg trunc, size]

/-! ### After a failed commit -/

/-- The calls that change the contents of file `i`, or remove it. -/
def Rewrites (cfg : FsConfig) (i : Nat) (s : FsState) : FsOp → Prop
  | .open name mode => target cfg s (.open name mode) = some i ∧ hasFlag mode vfsOWronly = true
  | .delete name => target cfg s (.delete name) = some i
  | _ => False

/-- File `i` is not being written; its entry is `e` and its sector holds `sector`. -/
structure Settled (cfg : FsConfig) (i : Nat) (e : FsEntry) (sector : List UInt8) (s : FsState) :
    Prop where
  inv : Inv cfg s
  entry : s.entry i = e
  used : e.used = true
  sector : Memory.read s.flash (fileFlashOffset i) fsBlockSize = sector
  readers : ∀ fd, (s.openFds fd).Writer → (s.openFds fd).fileIdx ≠ i

namespace Settled

variable {i : Nat} {e : FsEntry} {sector : List UInt8}

/-- Taking, moving or closing a descriptor that is no writer of the file. -/
theorem setFd (h : Settled cfg i e sector s) (fd : Nat) (ofd : OpenFd)
    (inv : Inv cfg (s.setFd fd ofd)) (reader : ofd.Writer → ofd.fileIdx ≠ i) :
    Settled cfg i e sector (s.setFd fd ofd) := by
  refine ⟨inv, h.entry, h.used, h.sector, fun k => ?_⟩
  rw [setFd_openFds]
  split
  · exact reader
  · exact h.readers k

/-- Nothing happens to the file until a call rewrites it. -/
theorem step (h : Settled cfg i e sector s) (op : FsOp) (keeps : ¬ Rewrites cfg i s op) :
    Settled cfg i e sector (PicoOS.Fs.step cfg s op) := by
  have inv := h.inv.step op
  by_cases other : target cfg s op ≠ some i
  · have frame := FileFrame.step h.inv op other
    refine ⟨inv, frame.entry.trans h.entry, h.used, ?_, ?_⟩
    · rw [read_sector_congr frame.sector]
      exact h.sector
    · intro fd writer file
      have same := frame.gained fd writer.1 file
      rw [same] at writer file
      exact h.readers fd writer file
  rw [not_not] at other
  -- a descriptor that denotes the file is no writer
  have reader {fd : Int} (valid : validFd s fd = true) (mine : fdFile s fd = some i) :
      ¬ (s.openFds fd.toNat).Writer :=
    fun writer => h.readers _ writer (fdFile_eq_some.mp mine).2
  cases op with
  | «open» n mode =>
    have reading : ¬ hasFlag mode vfsOWronly = true := fun writing => keeps ⟨other, writing⟩
    simp only [PicoOS.Fs.step] at inv ⊢
    have used : (s.entry i).used = true := by rw [h.entry, h.used]
    have call := fsOpen_cases cfg s n mode
    generalize fsOpen cfg s n mode = r at call inv ⊢
    cases call with
    | missing _ => exact h
    | busy _ _ writing _ => exact absurd writing reading
    | full given file _ _ =>
      cases given
      rw [if_neg reading, file.existing other used]
      exact h
    | @done _ k s₁ slot given file _ _ =>
      cases given
      have same := file.existing other used
      have claim : claimed s₁ k mode = s₁ := if_neg reading
      rw [claim, same] at inv ⊢
      exact h.setFd _ _ inv fun writer => absurd writer.2 reading
  | read f buf n =>
    simp only [PicoOS.Fs.step] at inv ⊢
    have call := fsRead_cases s f buf n
    generalize fsRead s f buf n = r at call inv ⊢
    cases call with
    | invalid _ => exact h
    | empty _ _ => exact h
    | done valid isFd _ _ =>
      subst isFd
      exact h.setFd _ _ inv fun writer => absurd writer (reader valid other)
  | write f buf =>
    simp only [PicoOS.Fs.step] at inv ⊢
    have call := fsWrite_cases s f buf
    generalize fsWrite s f buf = r at call inv ⊢
    cases call with
    | invalid _ => exact h
    | empty _ _ => exact h
    | refused _ _ _ _ => exact h
    | done valid _ isFd writing _ _ =>
      subst isFd
      exact absurd ⟨((validFd_iff f).mp valid).2.2, writing⟩ (reader valid other)
  | close f =>
    simp only [PicoOS.Fs.step] at inv ⊢
    have call := fsClose_cases cfg s f
    generalize fsClose cfg s f = r at call inv ⊢
    cases call with
    | invalid _ => exact h
    | clean _ _ _ =>
      refine ⟨inv, h.entry, h.used, h.sector, fun k => ?_⟩
      rw [setFd_openFds]
      split
      · rintro ⟨opened, -⟩
        cases opened
      · exact h.readers k
    | committed valid isFd dirty _ _ =>
      subst isFd
      have used := ((validFd_iff f).mp valid).2.2
      exact absurd ⟨used, h.inv.dirty _ used dirty⟩ (reader valid other)
  | delete n => exact absurd other keeps

theorem exec (h : Settled cfg i e sector s) {ops : List FsOp}
    (keeps : Run.Along (PicoOS.Fs.step cfg) (fun s op => ¬ Rewrites cfg i s op) s ops) :
    Settled cfg i e sector (Run.exec (PicoOS.Fs.step cfg) s ops) :=
  Run.Along.invariant (I := Settled cfg i e sector) (fun _ op hs => hs.step op) h keeps

end Settled

/-- A commit whose erase fails closes the descriptor and frees the buffer, and that is all. -/
theorem fsClose_erase_failed {fd : Int} {s₁ : FsState}
    (closed : fsClose cfg s fd = (-1, s₁)) (valid : validFd s fd = true)
    (failed : (flashEraseSector (fileFlashOffset (s.openFds fd.toNat).fileIdx) s).1 ≠ 0) :
    s₁.superblockRam = s.superblockRam ∧ s₁.flash = s.flash ∧
      s₁.openFds = Function.update s.openFds fd.toNat (closedFd (s.openFds fd.toNat)) := by
  have untouched : (flashEraseSector (fileFlashOffset (s.openFds fd.toNat).fileIdx) s).2.flash =
      s.flash := if_neg failed
  unfold fsClose at closed
  rw [valid, Bool.not_true, if_neg Bool.false_ne_true] at closed
  cases dirty : (s.openFds fd.toNat).dirty with
  | false => simp [dirty] at closed
  | true =>
    simp only [dirty, if_true, commit, failed, ne_eq, not_false_eq_true, Prod.mk.injEq,
      true_and] at closed
    subst closed
    refine ⟨?_, ?_, ?_⟩
    · split <;> rfl
    · split <;> exact untouched
    · split <;> rfl

/-- File `i` as the calls of a later run find it: its size in the directory, which `fs_list`
reports and `fs_open` and `fs_read` go by, the bytes in its sector, where every descriptor reads,
and the size that a flush stores. -/
structure AsBefore (cfg : FsConfig) (before : FsState) (i : Nat) (length : UInt32) (s : FsState) :
    Prop where
  size : (s.entry i).size = length
  sector : Memory.read s.flash (fileFlashOffset i) fsBlockSize =
    Memory.read before.flash (fileFlashOffset i) fsBlockSize
  source : ∀ fd len, fdFile s fd = some i → readSource s (s.openFds fd.toNat) len =
    Memory.read s.flash (fileFlashOffset i + (s.openFds fd.toNat).pos) len
  flushed : (superblockFlush cfg s).1 = 0 → flashSize cfg (superblockFlush cfg s).2 i = length

theorem Settled.asBefore {i : Nat} {e : FsEntry} {before : FsState} (inside : i < cfg.fsMaxFiles)
    (h : Settled cfg i e (Memory.read before.flash (fileFlashOffset i) fsBlockSize) s) :
    AsBefore cfg before i e.size s where
  size := congrArg FsEntry.size h.entry
  sector := h.sector
  source fd len mine := by
    obtain ⟨valid, file⟩ := fdFile_eq_some.mp mine
    unfold readSource
    rw [if_neg, file]
    rintro ⟨-, dirty⟩
    have used := ((validFd_iff fd).mp valid).2.2
    exact h.readers _ ⟨used, h.inv.dirty _ used dirty⟩ file
  flushed done := by
    rw [(superblockFlush_persisted cfg done).flashSize_eq inside,
      (superblockFlush_flashOnly cfg s).entry, h.entry]

/-- A write session whose commit fails to erase leaves the file as it was before the session, if
and only if the session has not changed its length. -/
theorem failed_commit_atomic_iff (cfg : FsConfig) {s₀ : FsState} (reachable : Reachable cfg s₀)
    (name : CStr) (mode : UInt32) (fd : Int) (s₁ : FsState) (i : Nat) (session : List FsOp)
    (s₂ : FsState) (opened : fsOpen cfg s₀ (some name) mode = (fd, s₁)) (success : 0 ≤ fd)
    (writing : hasFlag mode vfsOWronly = true) (file : (s₁.openFds fd.toNat).fileIdx = i)
    (isOpen : Run.Along (step cfg) (fun s op => ¬ endsSession cfg fd i s op) s₁ session)
    (closed : fsClose cfg (Run.exec (step cfg) s₁ session) fd = (-1, s₂))
    (failed : (flashEraseSector (fileFlashOffset i) (Run.exec (step cfg) s₁ session)).1 ≠ 0) :
    (∀ later, Run.Along (step cfg) (fun s op => ¬ Rewrites cfg i s op) s₂ later →
        AsBefore cfg s₀ i (sizeBefore cfg s₀ name) (Run.exec (step cfg) s₂ later)) ↔
      max (if hasFlag mode vfsOTrunc = true then 0 else (sizeBefore cfg s₀ name).toNat)
        (writeEnd cfg fd s₁ session) = (sizeBefore cfg s₀ name).toNat := by
  obtain ⟨inside, started⟩ := fsOpen_inSession reachable.inv opened success writing file
  have fdNat : (fd.toNat : Int) = fd := Int.toNat_of_nonneg success
  rw [← fdNat] at isOpen
  have length := started.exec_size isOpen
  rw [fdNat, fsOpen_size opened success writing file] at length
  have ended := started.exec isOpen
  generalize Run.exec (step cfg) s₁ session = t at closed failed length ended
  have used := ended.writer.1
  have valid : validFd t fd = true := (validFd_iff fd).mpr ⟨success, (ended.inv.bound _ used).1, used⟩
  obtain ⟨ram, flash, fds⟩ := fsClose_erase_failed closed valid (by rwa [ended.file])
  have settled : Settled cfg i (t.entry i)
      (Memory.read s₀.flash (fileFlashOffset i) fsBlockSize) s₂ := by
    have inv := ended.inv.closed (fsClose_cases cfg t fd)
    rw [closed] at inv
    refine ⟨inv, by rw [FsState.entry, ram]; rfl, ended.used, ?_, ?_⟩
    · rw [flash]
      exact ended.sector
    · -- the only writer there was is closed
      intro k writer
      rw [fds] at writer ⊢
      by_cases same : k = fd.toNat
      · rw [same, Function.update_self] at writer
        cases writer.1
      · rw [Function.update_of_ne same] at writer ⊢
        exact absurd (ended.inv.unique _ _ writer ended.writer) same
  have size_iff : (t.entry i).size = sizeBefore cfg s₀ name ↔
      max (if hasFlag mode vfsOTrunc = true then 0 else (sizeBefore cfg s₀ name).toNat)
        (writeEnd cfg fd s₁ session) = (sizeBefore cfg s₀ name).toNat := by
    rw [← UInt32.toNat_inj, length]
    split <;> rfl
  rw [← size_iff]
  constructor
  · intro later
    have now := (later [] trivial).size
    rwa [Run.exec_nil, settled.entry] at now
  · intro same later keeps
    rw [← same]
    exact (settled.exec keeps).asBefore inside

/-- Two files on erased flash that fails at the first commit. -/
def failingA : FsState := fsInit twoFiles (.powerOn (fun _ => 0xFF) (List.replicate 7 0 ++ [-1]))

theorem failingA_reachable : Reachable twoFiles failingA :=
  ⟨failingA, [], ⟨fun _ => 0xFF, List.replicate 7 0 ++ [-1], rfl⟩, rfl⟩

/-- File `a` is created there and written to. -/
def failingWrite : FsState :=
  Run.exec (step twoFiles) (step twoFiles failingA createA) [.write 0 (some [0x41, 0x42])]

theorem failingA_opened : fsOpen twoFiles failingA (some fileA) (vfsOWronly ||| vfsOCreat) =
    (0, step twoFiles failingA createA) := Prod.ext (by decide +kernel) rfl

theorem failingA_closed : fsClose twoFiles failingWrite 0 =
    (-1, step twoFiles failingWrite (.close 0)) := Prod.ext (by decide +kernel) rfl

/-- The session has made the file longer, so that its failure shows. -/
theorem failed_commit_atomic_createA :
    ¬ ∀ later, Run.Along (step twoFiles) (fun s op => ¬ Rewrites twoFiles 0 s op)
        (step twoFiles failingWrite (.close 0)) later →
      AsBefore twoFiles failingA 0 (sizeBefore twoFiles failingA fileA)
        (Run.exec (step twoFiles) (step twoFiles failingWrite (.close 0)) later) := by
  intro atomic
  have length := (failed_commit_atomic_iff twoFiles failingA_reachable fileA
    (vfsOWronly ||| vfsOCreat) 0 (step twoFiles failingA createA) 0 [.write 0 (some [0x41, 0x42])]
    (step twoFiles failingWrite (.close 0)) failingA_opened (by decide) (by decide)
    (by decide +kernel) ⟨id, trivial⟩ failingA_closed (by decide +kernel)).mp atomic
  exact absurd length (by decide +kernel)

/-- The commit of two bytes to a new file fails, and the file keeps their length. -/
theorem failed_commit_keeps_size :
    fsOpen twoFiles failingA (some fileA) (vfsOWronly ||| vfsOCreat) =
      (0, step twoFiles failingA createA) ∧
    fsClose twoFiles failingWrite 0 = (-1, step twoFiles failingWrite (.close 0)) ∧
    (flashEraseSector (fileFlashOffset 0) failingWrite).1 ≠ 0 ∧
    ¬ AsBefore twoFiles failingA 0 (sizeBefore twoFiles failingA fileA)
      (step twoFiles failingWrite (.close 0)) := by
  refine ⟨failingA_opened, failingA_closed, by decide +kernel, fun same => ?_⟩
  have size := same.size
  revert size
  decide +kernel

end PicoOS.Fs
