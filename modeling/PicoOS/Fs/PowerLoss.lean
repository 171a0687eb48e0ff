import PicoOS.Fs.Isolation
import PicoOS.Fs.Remount

/-!
# Power loss during a write session

The data of an open write session stays in `fs_buffer`, so its sector survives a
loss of power. Its size does not stay behind: the mirror carries it, and the next
create or delete of any file writes the mirror out.
-/
namespace PicoOS.Fs

variable {cfg : FsConfig} {s s₁ : FsState} {i : Nat}

/-! ### The size on flash -/

/-- The size of file `i` in the mirror as the last flush of a run wrote it out. -/
def flushedSize (cfg : FsConfig) (i : Nat) : UInt32 → FsState → List FsOp → UInt32
  | size, _, [] => size
  | size, s, op :: ops =>
    flushedSize cfg i (if flushes cfg s op then ((step cfg s op).entry i).size else size)
      (step cfg s op) ops

/-- The size on flash after a run is the one the last flush wrote. -/
theorem flashSize_exec (hi : i < cfg.fsMaxFiles) (nil : s.flashRc = []) (ops : List FsOp) :
    flashSize cfg (Run.exec (step cfg) s ops) i = flushedSize cfg i (flashSize cfg s i) s ops := by
  induction ops generalizing s with
  | nil => rfl
  | cons op ops ih =>
    have size : flashSize cfg (step cfg s op) i =
        if flushes cfg s op then ((step cfg s op).entry i).size else flashSize cfg s i := by
      split
      next flush => exact (flushes_persisted op nil flush).1.flashSize_eq hi
      next quiet =>
        simp only [flashSize, readSuperblock_congr (quiet_step op (by simpa using quiet)).2]
    rw [Run.exec_cons, ih (step_flashRc nil op), size]
    rfl

/-! ### An open write session -/

/-- The calls that end the session of descriptor `fd` on file `i`. -/
def endsSession (cfg : FsConfig) (fd : Int) (i : Nat) (s : FsState) : FsOp → Prop
  | .close f => f = fd
  | .delete name => target cfg s (.delete name) = some i
  | _ => False

/-- Descriptor `fd` is open for writing on file `i`, and the file has this name and
these bytes in its sector. -/
structure InSession (cfg : FsConfig) (fd i : Nat) (name : Vector UInt8 16) (sector : List UInt8)
    (s : FsState) : Prop where
  inv : Inv cfg s
  writer : (s.openFds fd).Writer
  file : (s.openFds fd).fileIdx = i
  used : (s.entry i).used = true
  name : (s.entry i).name = name
  sector : Memory.read s.flash (fileFlashOffset i) fsBlockSize = sector

theorem read_sector_congr {flash flash' : Nat → UInt8}
    (h : ∀ k, k < fsBlockSize → flash' (fileFlashOffset i + k) = flash (fileFlashOffset i + k)) :
    Memory.read flash' (fileFlashOffset i) fsBlockSize =
      Memory.read flash (fileFlashOffset i) fsBlockSize := by
  apply Memory.read_congr
  intro a lower upper
  have := h (a - fileFlashOffset i) (by omega)
  rwa [Nat.add_sub_cancel' lower] at this

/-- Opening a file that exists creates nothing. -/
theorem Resolved.existing {n : CStr} {mode : UInt32} {k : Nat} (file : Resolved cfg s n mode k s₁)
    (mine : PicoOS.Fs.openFile cfg s n mode = some i) (used : (s.entry i).used = true) : s₁ = s := by
  cases Option.some.inj (file.openFile.symm.trans mine)
  cases file with
  | found _ => rfl
  | created _ _ room =>
    have free := (allocFileEntry_some room).2
    rw [used] at free
    cases free

namespace InSession

variable {fd : Nat} {name : Vector UInt8 16} {sector : List UInt8} {s' : FsState}

/-- Rebuild the session facts when a call leaves descriptor, entry and sector usable. -/
theorem of_kept (h : InSession cfg fd i name sector s) (inv : Inv cfg s')
    (used : (s'.openFds fd).used = (s.openFds fd).used)
    (file : (s'.openFds fd).fileIdx = (s.openFds fd).fileIdx)
    (mode : (s'.openFds fd).mode = (s.openFds fd).mode)
    (entry : ∃ size, s'.entry i = { s.entry i with size := size })
    (flash : ∀ k, k < fsBlockSize →
      s'.flash (fileFlashOffset i + k) = s.flash (fileFlashOffset i + k)) :
    InSession cfg fd i name sector s' := by
  obtain ⟨size, entry⟩ := entry
  refine ⟨inv, ?_, file.trans h.file, ?_, ?_, ?_⟩
  · rw [OpenFd.Writer, used, mode]
    exact h.writer
  · rw [entry]; exact h.used
  · rw [entry]; exact h.name
  · rw [read_sector_congr flash]; exact h.sector

/-- While a file is being written, opening it once more takes at most a free descriptor. -/
theorem opened (h : InSession cfg fd i name sector s) {n : Option CStr} {mode : UInt32}
    {r : Int × FsState} (mine : target cfg s (.open n mode) = some i)
    (call : Opened cfg s n mode r) :
    r.2 = s ∨ ∃ slot ofd, (s.openFds slot).used = false ∧ r.2 = s.setFd slot ofd := by
  -- The session holds the buffer, so this open cannot be another writer.
  have reading {s₁ : FsState} (same : s₁ = s)
      (owner : hasFlag mode vfsOWronly = true → s₁.scratchOwner = none) :
      ¬ hasFlag mode vfsOWronly = true := by
    subst same
    exact fun writing => h.inv.no_writer (owner writing) fd h.writer
  cases call with
  | missing _ => exact .inl rfl
  | busy given file _ _ =>
    cases given
    exact .inl (file.existing mine h.used)
  | full given file owner _ =>
    cases given
    have same := file.existing mine h.used
    rw [if_neg (reading same owner)]
    exact .inl same
  | @done _ k s₁ slot given file owner free =>
    cases given
    have same := file.existing mine h.used
    have claim : claimed s₁ k mode = s₁ := if_neg (reading same owner)
    rw [claim, same]
    rw [same] at free
    exact .inr ⟨slot, _, (allocOpenFd_some free).2, rfl⟩

/-- A session goes on through every call that does not end it. -/
theorem step (h : InSession cfg fd i name sector s) (op : FsOp)
    (goesOn : ¬ endsSession cfg fd i s op) : InSession cfg fd i name sector (step cfg s op) := by
  have inv := h.inv.step op
  by_cases other : target cfg s op ≠ some i
  · have frame := FileFrame.step h.inv op other
    have same := frame.kept fd h.writer.1 h.file
    exact h.of_kept inv (by rw [same]) (by rw [same]) (by rw [same])
      ⟨(s.entry i).size, by rw [frame.entry]⟩ frame.sector
  rw [not_not] at other
  -- the calls on the session's own file
  cases op with
  | «open» n mode =>
    simp only [PicoOS.Fs.step] at inv ⊢
    rcases h.opened other (fsOpen_cases cfg s n mode) with same | ⟨slot, ofd, free, same⟩
    · rw [same]
      exact h
    · rw [same] at inv ⊢
      have ne : fd ≠ slot := by
        rintro rfl
        rw [h.writer.1] at free
        cases free
      refine h.of_kept inv ?_ ?_ ?_ ⟨(s.entry i).size, rfl⟩ fun _ _ => rfl <;>
        rw [setFd_openFds, if_neg ne]
  | read f buf n =>
    simp only [PicoOS.Fs.step] at inv ⊢
    have call := fsRead_cases s f buf n
    generalize fsRead s f buf n = r at call inv ⊢
    cases call with
    | invalid _ => exact h
    | empty _ _ => exact h
    | done _ isFd _ _ =>
      subst isFd
      refine h.of_kept inv ?_ ?_ ?_ ⟨(s.entry i).size, rfl⟩ fun _ _ => rfl <;>
        · rw [setFd_openFds]
          split
          next eq => rw [eq]
          · rfl
  | write f buf =>
    simp only [PicoOS.Fs.step] at inv ⊢
    have call := fsWrite_cases s f buf
    generalize fsWrite s f buf = r at call inv ⊢
    cases call with
    | invalid _ => exact h
    | empty _ _ => exact h
    | refused _ _ _ _ => exact h
    | @done data ofd len _ _ isFd _ _ _ =>
      subst isFd
      refine h.of_kept inv ?_ ?_ ?_ ?_ fun _ _ => rfl
      iterate 3
        rw [setEntry_openFds, setFd_openFds]
        split
        next eq => rw [eq]
        · rfl
      rw [setEntry_entry]
      split
      next eq =>
        rw [← eq]
        unfold grown
        split
        · exact ⟨_, rfl⟩
        · exact ⟨(s.entry i).size, rfl⟩
      · exact ⟨(s.entry i).size, rfl⟩
  | close f =>
    have ne (valid : validFd s f = true) : fd ≠ f.toNat := by
      rintro rfl
      exact goesOn (Int.toNat_of_nonneg ((validFd_iff f).mp valid).1).symm
    simp only [PicoOS.Fs.step] at inv ⊢
    have call := fsClose_cases cfg s f
    generalize fsClose cfg s f = r at call inv ⊢
    cases call with
    | invalid _ => exact h
    | clean valid _ _ =>
      refine h.of_kept inv ?_ ?_ ?_ ⟨(s.entry i).size, rfl⟩ fun _ _ => rfl <;>
        rw [setFd_openFds, if_neg (ne valid)]
    | committed valid isFd dirty _ _ =>
      subst isFd
      have used := ((validFd_iff f).mp valid).2.2
      have writer : (s.openFds f.toNat).Writer := ⟨used, h.inv.dirty _ used dirty⟩
      exact absurd (h.inv.unique _ _ h.writer writer) (ne valid)
  | delete n => exact absurd other goesOn

theorem exec (h : InSession cfg fd i name sector s) {ops : List FsOp}
    (goesOn : Run.Along (PicoOS.Fs.step cfg) (fun s op => ¬ endsSession cfg fd i s op) s ops) :
    InSession cfg fd i name sector (Run.exec (PicoOS.Fs.step cfg) s ops) :=
  Run.Along.invariant (I := InSession cfg fd i name sector) (fun _ op hs => hs.step op) h goesOn

end InSession

/-- The size of the file called `name` before it is opened; 0 if the open creates it. -/
def sizeBefore (cfg : FsConfig) (s : FsState) (name : CStr) : UInt32 :=
  match findFile cfg s name.stripSlash with
  | some i => (s.entry i).size
  | none => 0

/-- A successful open for writing starts a session over the sector as it was. -/
theorem fsOpen_inSession {name : CStr} {mode : UInt32} {fd : Int} (inv : Inv cfg s)
    (opened : fsOpen cfg s (some name) mode = (fd, s₁)) (success : 0 ≤ fd)
    (writing : hasFlag mode vfsOWronly = true) (file : (s₁.openFds fd.toNat).fileIdx = i) :
    i < cfg.fsMaxFiles ∧ InSession cfg fd.toNat i (s₁.entry i).name
      (Memory.read s.flash (fileFlashOffset i) fsBlockSize) s₁ := by
  have inv₁ : Inv cfg s₁ := by
    have := inv.opened (fsOpen_cases cfg s (some name) mode)
    rwa [opened] at this
  obtain ⟨i', s', k, rfl, resolved, -, -, rfl⟩ := fsOpen_success opened success
  have atFd : ((claimed s' i' mode).setFd k (openedFd (claimed s' i' mode) i' mode)).openFds
      (Int.ofNat k).toNat = openedFd (claimed s' i' mode) i' mode := by
    rw [setFd_openFds]
    exact if_pos rfl
  rw [atFd] at file
  change i' = i at file
  subst file
  have flash (j : Nat) (hj : j < fsBlockSize) :
      s'.flash (fileFlashOffset i' + j) = s.flash (fileFlashOffset i' + j) := by
    cases resolved with
    | found _ => rfl
    | created _ _ _ =>
      exact (createEntry_flashOnly cfg s i' _).outside (inFile_add hj).not_superblock
  refine ⟨resolved.used.1, inv₁, ?_, ?_, ?_, rfl, ?_⟩
  · rw [atFd]
    exact ⟨rfl, writing⟩
  · rw [atFd]
    rfl
  · exact (claimed_used s' i' i' mode).trans resolved.used.2
  · rw [setFd_flash, claimed_flash]
    exact read_sector_congr flash

/-! ### The state after a loss of power -/

/-- After a reboot file `i` has the size and the bytes it had before its session. -/
structure Restored (before opened : FsState) (i : Nat) (size : UInt32) (m : FsState) : Prop where
  used : (m.entry i).used = true
  name : (m.entry i).name = (opened.entry i).name
  size : (m.entry i).size = size
  content : Memory.read m.flash (fileFlashOffset i) fsBlockSize =
    Memory.read before.flash (fileFlashOffset i) fsBlockSize

/-- Power loss: a reboot in the middle of a write session restores the file if and
only if the last flush of the run wrote out the size from before the session. -/
theorem power_loss_restores_iff (cfg : FsConfig) (flash : Nat → UInt8) (ops : List FsOp)
    (name : CStr) (mode : UInt32) (fd : Int) (s₁ : FsState) (i : Nat) (session : List FsOp)
    (opened : fsOpen cfg (Run.exec (step cfg) (fsInit cfg (.powerOn flash [])) ops) (some name) mode =
      (fd, s₁)) (success : 0 ≤ fd) (writing : hasFlag mode vfsOWronly = true)
    (file : (s₁.openFds fd.toNat).fileIdx = i)
    (isOpen : Run.Along (step cfg) (fun s op => ¬ endsSession cfg fd i s op) s₁ session) :
    Restored (Run.exec (step cfg) (fsInit cfg (.powerOn flash [])) ops) s₁ i
        (sizeBefore cfg (Run.exec (step cfg) (fsInit cfg (.powerOn flash [])) ops) name)
        (remount cfg (Run.exec (step cfg) s₁ session)) ↔
      flushedSize cfg i ((fsInit cfg (.powerOn flash [])).entry i).size
          (fsInit cfg (.powerOn flash [])) (ops ++ .open (some name) mode :: session) =
        sizeBefore cfg (Run.exec (step cfg) (fsInit cfg (.powerOn flash [])) ops) name := by
  obtain ⟨persisted, mirror, nil⟩ := boot_persisted cfg flash
  have inv₀ : Inv cfg (fsInit cfg (.powerOn flash [])) := Booted.inv ⟨flash, [], rfl⟩
  generalize fsInit cfg (.powerOn flash []) = s₀ at *
  have inv : Inv cfg (Run.exec (step cfg) s₀ ops) :=
    Run.exec_invariant (I := Inv cfg) (fun _ op h => h.step op) inv₀ ops
  obtain ⟨hi, started⟩ := fsOpen_inSession inv opened success writing file
  have fdNat : (fd.toNat : Int) = fd := Int.toNat_of_nonneg success
  rw [← fdNat] at isOpen
  have ended := started.exec isOpen
  have run : Run.exec (step cfg) s₀ (ops ++ .open (some name) mode :: session) =
      Run.exec (step cfg) s₁ session := by
    rw [Run.exec_append, Run.exec_cons]
    simp only [step, opened]
  -- what a reboot finds is what the last flush of the whole run has written
  have mirrored := Run.exec_invariant (I := fun s => Mirror cfg s ∧ s.flashRc = [])
    (fun s op h => ⟨h.1.step h.2 op, step_flashRc h.2 op⟩) ⟨mirror, nil⟩
    (ops ++ .open (some name) mode :: session)
  have size := flashSize_exec hi nil (ops ++ .open (some name) mode :: session)
  rw [run] at mirrored size
  rw [persisted.flashSize_eq hi] at size
  rw [← size, remount, mirrored.1.reboot]
  have entry := mirrored.1.entry hi
  constructor
  · exact fun restored => restored.size
  · intro same
    refine ⟨?_, ?_, same, ended.sector⟩
    · have used := congrArg FsEntry.used entry
      exact used.trans ended.used
    · have name := congrArg FsEntry.name entry
      exact name.trans ended.name

theorem createA_opened :
    fsOpen twoFiles freshFs (some fileA) (vfsOWronly ||| vfsOCreat) =
      (0, step twoFiles freshFs createA) := Prod.ext (by decide +kernel) rfl

/-- A session that creates `a` and writes to it, with no other call before the loss. -/
theorem createA_write_restored :
    Restored freshFs (step twoFiles freshFs createA) 0 (sizeBefore twoFiles freshFs fileA)
      (remount twoFiles pendingA) :=
  (power_loss_restores_iff twoFiles _ [] fileA (vfsOWronly ||| vfsOCreat) 0
    (step twoFiles freshFs createA) 0 [.write 0 (some [0x41, 0x42])] createA_opened (by decide)
    (by decide) (by decide +kernel) ⟨id, trivial⟩).mpr (by decide +kernel)

/-- The same session with `b` created meanwhile: a reboot finds two bytes in `a`. -/
theorem createB_exposes_pendingA :
    Run.Along (step twoFiles) (fun s op => ¬ endsSession twoFiles 0 0 s op)
        (step twoFiles freshFs createA) [.write 0 (some [0x41, 0x42]), createB] ∧
      ¬ Restored freshFs (step twoFiles freshFs createA) 0 (sizeBefore twoFiles freshFs fileA)
        (remount twoFiles (Run.exec (step twoFiles) (step twoFiles freshFs createA)
          [.write 0 (some [0x41, 0x42]), createB])) := by
  refine ⟨⟨id, id, trivial⟩, fun restored => ?_⟩
  have size := restored.size
  revert size
  decide +kernel

end PicoOS.Fs
