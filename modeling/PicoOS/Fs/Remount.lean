import PicoOS.Fs.Mirror

/-!
# Remounting after a run of calls

With all descriptors closed, a remount finds the files it left unless the last
thing that happened to the directory is a truncation: truncating a file marks
no descriptor dirty, so closing it without a write flushes nothing.
-/
namespace PicoOS.Fs

variable {cfg : FsConfig} {s : FsState}

/-- The bytes of file `i` as a reader gets them from flash. -/
def fileContent (s : FsState) (i : Nat) : List UInt8 :=
  Memory.read s.flash (fileFlashOffset i) (s.entry i).size.toNat

/-- The same directory with the same contents. -/
structure SameFiles (cfg : FsConfig) (s m : FsState) : Prop where
  fileCount : m.superblockRam.fileCount = s.superblockRam.fileCount
  used : ∀ i, i < cfg.fsMaxFiles → (m.entry i).used = (s.entry i).used
  name : ∀ i, i < cfg.fsMaxFiles → (s.entry i).used = true → (m.entry i).name = (s.entry i).name
  size : ∀ i, i < cfg.fsMaxFiles → (s.entry i).used = true → (m.entry i).size = (s.entry i).size
  content : ∀ i, i < cfg.fsMaxFiles → (s.entry i).used = true → fileContent m i = fileContent s i

/-- Running `fs_init` again on the flash of `s`. -/
def remount (cfg : FsConfig) (s : FsState) : FsState := fsInit cfg (.powerOn s.flash s.flashRc)

/-- Whether some truncation of the run has had no superblock flush after it. -/
def truncationPending (cfg : FsConfig) : Bool → FsState → List FsOp → Bool
  | pending, _, [] => pending
  | pending, s, op :: ops =>
    truncationPending cfg (!flushes cfg s op && (pending || truncates cfg s op)) (step cfg s op) ops

/-- What a run without unsaved data leaves on flash: every size is that of RAM,
but for files that were truncated since the last flush. -/
def Tracked (cfg : FsConfig) (pending : Bool) (s : FsState) : Prop :=
  Unsaved s ∨
    (∀ i, i < cfg.fsMaxFiles → flashSize cfg s i = (s.entry i).size ∨
      (s.entry i).used = true ∧ (s.entry i).size = 0) ∧
    (pending = true ↔ ∃ i, i < cfg.fsMaxFiles ∧ (s.entry i).used = true ∧ (s.entry i).size = 0 ∧
      flashSize cfg s i ≠ 0)

namespace Tracked

theorem of_persisted (h : Persisted cfg s) : Tracked cfg false s := by
  refine .inr ⟨fun i hi => .inl (h.flashSize_eq hi), ?_⟩
  simp only [Bool.false_eq_true, false_iff, not_exists, not_and, not_not]
  intro i hi _ empty
  rw [h.flashSize_eq hi, empty]

/-- The invariant of a run, one call. -/
theorem step (nil : s.flashRc = []) {pending : Bool} (h : Tracked cfg pending s)
    (op : FsOp) :
    Tracked cfg (!flushes cfg s op && (pending || truncates cfg s op)) (step cfg s op) := by
  cases flush : flushes cfg s op with
  | true => exact of_persisted (flushes_persisted op nil flush).1
  | false =>
    obtain ⟨effect, sector⟩ := quiet_step op flush
    have sizes : flashSize cfg (PicoOS.Fs.step cfg s op) = flashSize cfg s := by
      funext i
      simp only [flashSize, readSuperblock_congr sector]
    rcases h with unsaved | ⟨agree, iff⟩
    · exact .inl (unsaved.step op flush)
    simp only [Bool.not_false, Bool.true_and, Tracked, sizes]
    cases effect with
    | same ram kept =>
      rw [kept, Bool.or_false]
      simp only [FsState.entry, ram]
      exact .inr ⟨agree, iff⟩
    | written _ used dirty _ _ => exact .inl ⟨_, used, dirty⟩
    | @truncated i idx used ram free cut =>
      -- file `i` has size 0 in RAM now and its old size on flash
      right
      have entry (j : Nat) : (PicoOS.Fs.step cfg s op).entry j =
          if j = i then { s.entry i with size := 0 } else s.entry j := by
        rw [FsState.entry, ram]
        exact setEntry_entry s i j _
      refine ⟨fun j hj => ?_, ?_⟩
      · rw [entry]
        split
        · exact .inr ⟨used, rfl⟩
        · exact agree j hj
      · rw [Bool.or_eq_true, iff, cut]
        constructor
        · rintro (⟨j, hj, usedJ, empty, stale⟩ | data)
          · refine ⟨j, hj, ?_⟩
            rw [entry]
            split
            next eq => exact ⟨used, rfl, stale⟩
            · exact ⟨usedJ, empty, stale⟩
          · refine ⟨i, idx, ?_⟩
            rw [entry, if_pos rfl]
            refine ⟨used, rfl, ?_⟩
            rcases agree i idx with same | ⟨-, empty⟩
            · rw [same]; exact data
            · exact absurd empty data
        · rintro ⟨j, hj, usedJ, empty, stale⟩
          rw [entry] at usedJ empty
          split at usedJ
          next eq =>
            subst eq
            by_cases data : (s.entry j).size = 0
            · exact .inl ⟨j, hj, used, data, stale⟩
            · exact .inr data
          next ne =>
            rw [if_neg ne] at empty
            exact .inl ⟨j, hj, usedJ, empty, stale⟩

theorem exec (nil : s.flashRc = []) {pending : Bool} (h : Tracked cfg pending s)
    (ops : List FsOp) :
    Tracked cfg (truncationPending cfg pending s ops) (Run.exec (PicoOS.Fs.step cfg) s ops) := by
  induction ops generalizing s pending with
  | nil => exact h
  | cons op ops ih => exact ih (step_flashRc nil op) (h.step nil op)

/-- Without unsaved data, flash has the size of every file unless a truncation is pending. -/
theorem sizes_iff {pending : Bool} (h : Tracked cfg pending s) (saved : ¬ Unsaved s) :
    (∀ i, i < cfg.fsMaxFiles → (s.entry i).used = true → flashSize cfg s i = (s.entry i).size) ↔
      pending = false := by
  obtain ⟨agree, iff⟩ := h.resolve_left saved
  rw [← Bool.not_eq_true, iff]
  constructor
  · rintro sizes ⟨i, hi, used, empty, stale⟩
    exact stale ((sizes i hi used).trans empty)
  · intro clean i hi used
    rcases agree i hi with same | ⟨-, empty⟩
    · exact same
    · rw [empty]
      by_contra stale
      exact clean ⟨i, hi, used, empty, stale⟩

end Tracked

/-- A remount brings back the same files exactly when flash holds the mirror. -/
theorem Mirror.remount_same_iff (h : Mirror cfg s) :
    SameFiles cfg s (remount cfg s) ↔
      ∀ i, i < cfg.fsMaxFiles → (s.entry i).used = true → flashSize cfg s i = (s.entry i).size := by
  rw [remount, h.reboot]
  constructor
  · exact fun same i hi used => same.size i hi used
  · intro sizes
    have entry (i : Nat) (hi : i < cfg.fsMaxFiles) :
        (readSuperblock cfg s.flash).files i = { s.entry i with size := flashSize cfg s i } :=
      h.entry hi
    refine ⟨h.flash.fileCount, fun i hi => ?_, fun i hi _ => ?_, sizes, fun i hi used => ?_⟩
    · have same := congrArg FsEntry.used (entry i hi)
      exact same
    · have same := congrArg FsEntry.name (entry i hi)
      exact same
    · have size := sizes i hi used
      simp only [flashSize] at size
      simp only [fileContent, FsState.powerOn, FsState.entry] at size ⊢
      rw [size]

/-- Remount round trip: after a run that closes every descriptor, `fs_init` finds
the same files if and only if no truncation is left without a later flush. -/
theorem remount_round_trip_iff (cfg : FsConfig) (flash : Nat → UInt8) (ops : List FsOp)
    (closed : ∀ fd, ((Run.exec (step cfg) (fsInit cfg (.powerOn flash [])) ops).openFds fd).used =
      false) :
    SameFiles cfg (Run.exec (step cfg) (fsInit cfg (.powerOn flash [])) ops)
        (remount cfg (Run.exec (step cfg) (fsInit cfg (.powerOn flash [])) ops)) ↔
      truncationPending cfg false (fsInit cfg (.powerOn flash [])) ops = false := by
  obtain ⟨persisted, mirror, nil⟩ := boot_persisted cfg flash
  have tracked := (Tracked.of_persisted persisted).exec nil ops
  have mirrored := Run.exec_invariant (I := fun s => Mirror cfg s ∧ s.flashRc = [])
    (fun s op h => ⟨h.1.step h.2 op, step_flashRc h.2 op⟩) ⟨mirror, nil⟩ ops
  have saved : ¬ Unsaved (Run.exec (step cfg) (fsInit cfg (.powerOn flash [])) ops) := by
    rintro ⟨fd, used, -⟩
    rw [closed] at used
    cases used
  rw [mirrored.1.remount_same_iff, tracked.sizes_iff saved]

/-- Create `a` with data, close it, then truncate it and close it without a write. -/
def truncateA : List FsOp :=
  [createA, .write 0 (some [0x41]), .close 0,
    .open (some fileA) (vfsOWronly ||| vfsOTrunc), .close 0]

theorem truncateA_closed (fd : Nat) :
    ((Run.exec (step twoFiles) freshFs truncateA).openFds fd).used = false :=
  (freshFs_booted.inv.exec truncateA).closed_of_table (by decide +kernel) fd

/-- Create `a` with data and close it: a remount finds it. -/
theorem storeA_remounted :
    let s := Run.exec (step twoFiles) freshFs [createA, .write 0 (some [0x41]), .close 0]
    SameFiles twoFiles s (remount twoFiles s) :=
  (remount_round_trip_iff twoFiles _ [createA, .write 0 (some [0x41]), .close 0]
    ((freshFs_booted.inv.exec _).closed_of_table (by decide +kernel))).mpr (by decide +kernel)

/-- Every descriptor is closed, and yet the remount brings the old size back. -/
theorem truncateA_not_remounted :
    (∀ fd, ((Run.exec (step twoFiles) freshFs truncateA).openFds fd).used = false) ∧
      ¬ SameFiles twoFiles (Run.exec (step twoFiles) freshFs truncateA)
        (remount twoFiles (Run.exec (step twoFiles) freshFs truncateA)) := by
  refine ⟨truncateA_closed, fun same => ?_⟩
  have size := same.size 0 (by decide) (by decide +kernel)
  revert size
  decide +kernel

end PicoOS.Fs
