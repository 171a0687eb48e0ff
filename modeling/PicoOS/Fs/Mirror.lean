import PicoOS.Fs.Run

/-!
# The RAM mirror and the superblock on flash

Creating a file, committing one and deleting one persist the whole mirror; every
other call changes at most sizes in RAM. So flash and RAM never differ in more
than file sizes, and a reboot mounts the sizes of the last flush.
-/
namespace PicoOS.Fs

variable {cfg : FsConfig} {s s' : FsState}

/-! ### Which calls flush, which truncate -/

/-- The calls that reach `superblock_flush`. -/
def flushes (cfg : FsConfig) (s : FsState) : FsOp → Bool
  | .open none _ => false
  | .open (some name) mode =>
    (findFile cfg s name.stripSlash).isNone && hasFlag mode vfsOCreat &&
      (allocFileEntry cfg s).isSome
  | .read _ _ _ => false
  | .write _ _ => false
  | .close fd => validFd s fd && (s.openFds fd.toNat).dirty
  | .delete none => false
  | .delete (some name) => (findFile cfg s name.stripSlash).isSome

/-- The opens that cut an existing file with data down to size 0: they do so
whether or not they then find a free descriptor. -/
def truncates (cfg : FsConfig) (s : FsState) : FsOp → Bool
  | .open (some name) mode =>
    hasFlag mode vfsOWronly && hasFlag mode vfsOTrunc && s.scratchOwner.isNone &&
      match findFile cfg s name.stripSlash with
      | some i => (s.entry i).size != 0
      | none => false
  | _ => false

/-- What a call that does not flush may do to the mirror. -/
inductive QuietEffect (cfg : FsConfig) (s : FsState) (op : FsOp) (s' : FsState) : Prop
  | same (ram : s'.superblockRam = s.superblockRam) (kept : truncates cfg s op = false)
  | truncated {i} (idx : i < cfg.fsMaxFiles) (used : (s.entry i).used = true)
      (ram : s'.superblockRam = (s.setEntry i { s.entry i with size := 0 }).superblockRam)
      (free : s.scratchOwner = none) (cut : truncates cfg s op = true ↔ (s.entry i).size ≠ 0)
  | written (fd : Nat) {i size} (used : (s'.openFds fd).used = true) (dirty : (s'.openFds fd).dirty = true)
      (ram : s'.superblockRam = (s.setEntry i { s.entry i with size := size }).superblockRam)
      (kept : truncates cfg s op = false)

theorem claimed_superblockRam (s : FsState) (i : Nat) (mode : UInt32) :
    (claimed s i mode).superblockRam =
      if hasFlag mode vfsOWronly = true ∧ hasFlag mode vfsOTrunc = true then
        (s.setEntry i { s.entry i with size := 0 }).superblockRam else s.superblockRam := by
  unfold claimed claimBuffer
  split
  next writing =>
    split
    next trunc => rw [if_pos ⟨writing, trunc⟩]; rfl
    next keep => rw [if_neg fun h => keep h.2]
  next reading => rw [if_neg fun h => reading h.1]

theorem Resolved.quiet {name : CStr} {mode : UInt32} {i : Nat}
    (file : Resolved cfg s name mode i s')
    (quiet : ¬ (findFile cfg s name = none ∧ hasFlag mode vfsOCreat = true ∧
      allocFileEntry cfg s ≠ none)) : findFile cfg s name = some i ∧ s' = s := by
  cases file with
  | found h => exact ⟨h, rfl⟩
  | created absent creat h => exact absurd ⟨absent, creat, by simp [h]⟩ quiet

/-- An open that gets as far as the claim has the truncation of `claimed`. -/
theorem claimed_quiet {name : CStr} {mode : UInt32} {i : Nat}
    (found : findFile cfg s name.stripSlash = some i)
    (owner : hasFlag mode vfsOWronly = true → s.scratchOwner = none)
    (ram : s'.superblockRam = (claimed s i mode).superblockRam) :
    QuietEffect cfg s (.open (some name) mode) s' := by
  rw [claimed_superblockRam] at ram
  split at ram
  next flags =>
    refine .truncated (findFile_some found).1 (findFile_some found).2.1 ram (owner flags.1) ?_
    simp [truncates, flags.1, flags.2, owner flags.1, found]
  next noFlags =>
    refine .same ram ?_
    rw [not_and] at noFlags
    cases writing : hasFlag mode vfsOWronly with
    | false => simp [truncates, writing]
    | true => simp [truncates, Bool.eq_false_of_not_eq_true (noFlags writing)]

theorem quiet_step (op : FsOp) (quiet : flushes cfg s op = false) :
    QuietEffect cfg s op (step cfg s op) ∧
      ∀ a, InSuperblock a → (step cfg s op).flash a = s.flash a := by
  cases op with
  | «open» name mode =>
    simp only [step]
    have call := fsOpen_cases cfg s name mode
    generalize fsOpen cfg s name mode = r at call ⊢
    cases call with
    | missing h =>
      refine ⟨.same rfl ?_, fun _ _ => rfl⟩
      cases name with
      | none => rfl
      | some n => simp [truncates, (h n rfl).1]
    | busy given file writing owner =>
      subst given
      obtain ⟨-, rfl⟩ := file.quiet (by
        simpa [flushes, Option.isSome_iff_ne_none] using quiet)
      refine ⟨.same rfl ?_, fun _ _ => rfl⟩
      simp [truncates, Option.isNone_iff_eq_none, owner]
    | @full n i s₁ given file owner _ =>
      subst given
      obtain ⟨found, rfl⟩ := file.quiet (by
        simpa [flushes, Option.isSome_iff_ne_none] using quiet)
      refine ⟨claimed_quiet found owner ?_, fun a _ => ?_⟩
      · split
        · rfl
        next reading => rw [claimed_superblockRam, if_neg fun h => reading h.1]
      · split
        · exact congrFun (claimed_flash _ i mode) a
        · rfl
    | @done n i s₁ fd given file owner _ =>
      subst given
      obtain ⟨found, rfl⟩ := file.quiet (by
        simpa [flushes, Option.isSome_iff_ne_none] using quiet)
      exact ⟨claimed_quiet found owner rfl, fun a _ => congrFun (claimed_flash _ i mode) a⟩
  | read fd buf n =>
    simp only [step]
    have call := fsRead_cases s fd buf n
    generalize fsRead s fd buf n = r at call ⊢
    cases call <;> exact ⟨.same rfl rfl, fun _ _ => rfl⟩
  | write fd buf =>
    simp only [step]
    have call := fsWrite_cases s fd buf
    generalize fsWrite s fd buf = r at call ⊢
    cases call with
    | invalid _ => exact ⟨.same rfl rfl, fun _ _ => rfl⟩
    | empty _ _ => exact ⟨.same rfl rfl, fun _ _ => rfl⟩
    | refused _ _ _ _ => exact ⟨.same rfl rfl, fun _ _ => rfl⟩
    | @done data ofd len valid _ isFd _ _ _ =>
      have used := ((validFd_iff fd).mp valid).2.2
      -- a write changes the size of the entry and nothing else of it
      have shape : grown (s.entry ofd.fileIdx) (ofd.pos + len) =
          { s.entry ofd.fileIdx with
            size := (grown (s.entry ofd.fileIdx) (ofd.pos + len)).size } := by
        unfold grown
        split <;> rfl
      rw [shape]
      refine ⟨.written fd.toNat ?_ ?_ rfl rfl, fun _ _ => rfl⟩
      · rw [setEntry_openFds, setFd_openFds, if_pos rfl]
        exact isFd ▸ used
      · rw [setEntry_openFds, setFd_openFds, if_pos rfl]
  | close fd =>
    simp only [step]
    have call := fsClose_cases cfg s fd
    generalize fsClose cfg s fd = r at call ⊢
    cases call with
    | invalid _ => exact ⟨.same rfl rfl, fun _ _ => rfl⟩
    | clean _ _ _ => exact ⟨.same rfl rfl, fun _ _ => rfl⟩
    | committed valid isFd dirty _ _ => simp [flushes, valid, isFd, dirty] at quiet
  | delete name =>
    simp only [step]
    have call := fsDelete_cases cfg s name
    generalize fsDelete cfg s name = r at call ⊢
    cases call with
    | missing _ => exact ⟨.same rfl rfl, fun _ _ => rfl⟩
    | done given found _ _ => simp [flushes, given, found] at quiet

/-! ### Flushing calls -/

theorem Persisted.congr (h : Persisted cfg s) (ram : s'.superblockRam = s.superblockRam)
    (flash : s'.flash = s.flash) : Persisted cfg s' := by
  unfold Persisted at *
  rwa [ram, flash]

/-- The same magic and version in RAM. -/
def SameHeader (s s' : FsState) : Prop :=
  s'.superblockRam.magic = s.superblockRam.magic ∧ s'.superblockRam.version = s.superblockRam.version

theorem SameHeader.of_ram (ram : s'.superblockRam = s.superblockRam) : SameHeader s s' := by
  rw [SameHeader, ram]
  exact ⟨rfl, rfl⟩

theorem removeEntry_sameHeader (s : FsState) (i : Nat) : SameHeader s (removeEntry s i) := by
  unfold removeEntry
  dsimp only
  split <;> exact ⟨rfl, rfl⟩

/-- A call that flushes leaves exactly its final mirror on flash. -/
theorem flushes_persisted (op : FsOp) (nil : s.flashRc = []) (flush : flushes cfg s op = true) :
    Persisted cfg (step cfg s op) ∧ SameHeader s (step cfg s op) := by
  -- an open flushes only the entry that it creates, and a new entry is empty
  have created {name : CStr} {mode : UInt32} {i : Nat} {s₁ : FsState}
      (file : Resolved cfg s name mode i s₁) (absent : findFile cfg s name = none) :
      (Persisted cfg s₁ ∧ SameHeader s s₁) ∧ (s₁.entry i).size = 0 := by
    cases file with
    | found h => rw [absent] at h; cases h
    | created _ _ _ =>
      refine ⟨⟨createEntry_persisted cfg i name nil, ?_⟩, by simp [createEntry_entry, newEntry]⟩
      rw [SameHeader, (createEntry_flashOnly cfg s i name).superblockRam]
      exact ⟨rfl, rfl⟩
  -- so that `O_TRUNC` has nothing to cut off afterwards
  have claimed_same {i : Nat} {s₁ : FsState} (mode : UInt32) (empty : (s₁.entry i).size = 0) :
      (claimed s₁ i mode).superblockRam = s₁.superblockRam := by
    rw [claimed_superblockRam]
    split
    · rw [← empty]
      simp [FsState.setEntry, FsState.entry]
    · rfl
  cases op with
  | «open» name mode =>
    simp only [step]
    have call := fsOpen_cases cfg s name mode
    generalize fsOpen cfg s name mode = r at call ⊢
    cases name with
    | none => cases flush
    | some n =>
      simp only [flushes, Bool.and_eq_true, Option.isNone_iff_eq_none] at flush
      obtain ⟨⟨absent, creat⟩, room⟩ := flush
      cases call with
      | missing h => rw [(h n rfl).2 creat] at room; cases room
      | busy given file _ _ => cases given; exact (created file absent).1
      | full given file _ _ =>
        cases given
        obtain ⟨⟨persisted, header⟩, empty⟩ := created file absent
        split
        · refine ⟨persisted.congr (claimed_same mode empty) (claimed_flash ..), ?_⟩
          rw [SameHeader, claimed_same mode empty]
          exact header
        · exact ⟨persisted, header⟩
      | done given file _ _ =>
        cases given
        obtain ⟨⟨persisted, header⟩, empty⟩ := created file absent
        refine ⟨persisted.congr (claimed_same mode empty) (claimed_flash ..), ?_⟩
        rw [SameHeader, setFd_superblockRam, claimed_same mode empty]
        exact header
  | read fd buf n => cases flush
  | write fd buf => cases flush
  | close fd =>
    simp only [step]
    have call := fsClose_cases cfg s fd
    generalize fsClose cfg s fd = r at call ⊢
    cases call with
    | invalid h => simp [flushes, h] at flush
    | clean _ isFd clean => simp [flushes, isFd, clean] at flush
    | committed _ _ _ flash ok => exact ⟨(ok nil).2.1, .of_ram flash.superblockRam⟩
  | delete name =>
    simp only [step]
    have call := fsDelete_cases cfg s name
    generalize fsDelete cfg s name = r at call ⊢
    cases call with
    | missing h =>
      cases name with
      | none => cases flush
      | some n => simp [flushes, h n rfl] at flush
    | @done _ i _ _ _ _ flash ok =>
      refine ⟨(ok nil).2, ?_⟩
      rw [SameHeader, flash.superblockRam]
      exact removeEntry_sameHeader (forceClose s i) i

/-! ### Unsaved data -/

/-- Some open descriptor has data that is not on flash yet. -/
def Unsaved (s : FsState) : Prop := ∃ fd, (s.openFds fd).used = true ∧ (s.openFds fd).dirty = true

/-- Unsaved data goes away only in a call that flushes. -/
theorem Unsaved.step (h : Unsaved s) (op : FsOp) (quiet : flushes cfg s op = false) :
    Unsaved (step cfg s op) := by
  obtain ⟨d, used, dirty⟩ := h
  have resolved_same {name : CStr} {mode : UInt32} {i : Nat} {s₁ : FsState}
      (file : Resolved cfg s name mode i s₁) : s₁.openFds = s.openFds := by
    cases file with
    | found _ => rfl
    | created _ _ _ => exact createEntry_openFds ..
  refine ⟨d, ?_⟩
  cases op with
  | «open» name mode =>
    simp only [PicoOS.Fs.step]
    have call := fsOpen_cases cfg s name mode
    generalize fsOpen cfg s name mode = r at call ⊢
    cases call with
    | missing _ => exact ⟨used, dirty⟩
    | busy _ file _ _ => rw [resolved_same file]; exact ⟨used, dirty⟩
    | @full n i s₁ _ file _ _ =>
      have same : (claimed s₁ i mode).openFds d = s.openFds d := by
        rw [claimed_openFds, resolved_same file]
      split
      · exact ⟨by rw [same]; exact used, by rw [same]; exact dirty⟩
      · rw [resolved_same file]; exact ⟨used, dirty⟩
    | done _ file _ slot =>
      have taken := (allocOpenFd_some slot).2
      rw [resolved_same file] at taken
      rw [setFd_openFds, if_neg (by rintro rfl; rw [taken] at used; cases used), claimed_openFds,
        resolved_same file]
      exact ⟨used, dirty⟩
  | read fd buf n =>
    simp only [PicoOS.Fs.step]
    have call := fsRead_cases s fd buf n
    generalize fsRead s fd buf n = r at call ⊢
    cases call with
    | invalid _ => exact ⟨used, dirty⟩
    | empty _ _ => exact ⟨used, dirty⟩
    | done _ isFd _ _ =>
      rw [setFd_openFds]
      split
      next eq => subst isFd; subst eq; exact ⟨used, dirty⟩
      · exact ⟨used, dirty⟩
  | write fd buf =>
    simp only [PicoOS.Fs.step]
    have call := fsWrite_cases s fd buf
    generalize fsWrite s fd buf = r at call ⊢
    cases call with
    | invalid _ => exact ⟨used, dirty⟩
    | empty _ _ => exact ⟨used, dirty⟩
    | refused _ _ _ _ => exact ⟨used, dirty⟩
    | done _ _ isFd _ _ _ =>
      rw [setEntry_openFds, setFd_openFds]
      split
      next eq => subst isFd; subst eq; exact ⟨used, rfl⟩
      · exact ⟨used, dirty⟩
  | close fd =>
    simp only [PicoOS.Fs.step]
    have call := fsClose_cases cfg s fd
    generalize fsClose cfg s fd = r at call ⊢
    cases call with
    | invalid _ => exact ⟨used, dirty⟩
    | clean _ isFd clean =>
      -- what is closed without a commit is another descriptor
      have ne : d ≠ fd.toNat := by
        rintro rfl
        rw [isFd, clean] at dirty
        cases dirty
      rw [setFd_openFds, if_neg ne]
      exact ⟨used, dirty⟩
    | committed valid isFd dirty _ _ => simp [flushes, valid, isFd, dirty] at quiet
  | delete name =>
    simp only [PicoOS.Fs.step]
    have call := fsDelete_cases cfg s name
    generalize fsDelete cfg s name = r at call ⊢
    cases call with
    | missing _ => exact ⟨used, dirty⟩
    | done given found _ _ => simp [flushes, given, found] at quiet

/-! ### The mirror invariant -/

/-- The size of file `i` that flash holds. -/
def flashSize (cfg : FsConfig) (s : FsState) (i : Nat) : UInt32 :=
  ((readSuperblock cfg s.flash).files i).size

/-- `sb` with other file sizes. -/
def Superblock.withSizes (sb : Superblock) (sizes : Nat → UInt32) : Superblock :=
  { sb with files := fun i => { sb.files i with size := sizes i } }

/-- The mirror is that of a valid filesystem, and flash holds it up to file sizes. -/
structure Mirror (cfg : FsConfig) (s : FsState) : Prop where
  magic : s.superblockRam.magic = fsSuperblockMagic
  version : s.superblockRam.version = 1
  flash : (readSuperblock cfg s.flash).Agree cfg (s.superblockRam.withSizes (flashSize cfg s))

theorem Persisted.flashSize_eq (h : Persisted cfg s) {i : Nat} (hi : i < cfg.fsMaxFiles) :
    flashSize cfg s i = (s.entry i).size :=
  congrArg FsEntry.size (h.files i hi)

theorem Persisted.mirror (h : Persisted cfg s) (magic : s.superblockRam.magic = fsSuperblockMagic)
    (version : s.superblockRam.version = 1) : Mirror cfg s := by
  refine ⟨magic, version, h.magic, h.version, h.fileCount, fun i hi => ?_⟩
  have size := h.flashSize_eq hi
  rw [h.files i hi]
  simp only [Superblock.withSizes, size]
  rfl

namespace Mirror

theorem entry (h : Mirror cfg s) {i : Nat} (hi : i < cfg.fsMaxFiles) :
    (readSuperblock cfg s.flash).files i = { s.entry i with size := flashSize cfg s i } :=
  h.flash.files i hi

/-- A changed size in RAM keeps the mirror while the superblock sector is left alone. -/
theorem resize (h : Mirror cfg s) (i : Nat) (size : UInt32)
    (ram : s'.superblockRam = (s.setEntry i { s.entry i with size := size }).superblockRam)
    (flash : ∀ a, InSuperblock a → s'.flash a = s.flash a) : Mirror cfg s' := by
  have same : readSuperblock cfg s'.flash = readSuperblock cfg s.flash := readSuperblock_congr flash
  have sizes : flashSize cfg s' = flashSize cfg s := by
    funext j
    simp only [flashSize, same]
  refine ⟨by rw [ram]; exact h.magic, by rw [ram]; exact h.version, ?_⟩
  rw [same, ram, sizes]
  refine ⟨h.flash.magic, h.flash.version, h.flash.fileCount, fun j hj => ?_⟩
  rw [h.flash.files j hj]
  simp only [Superblock.withSizes, FsState.setEntry, FsState.entry]
  by_cases eq : j = i
  · subst eq; simp
  · simp [Function.update_of_ne eq]

theorem mountable (h : Mirror cfg s) : PicoOS.Fs.mountable cfg s.flash = true := by
  simp only [PicoOS.Fs.mountable, Bool.and_eq_true, beq_iff_eq]
  exact ⟨h.flash.magic.trans h.magic, h.flash.version.trans h.version⟩

/-- What a reboot mounts: the directory on flash, over the same flash. -/
theorem reboot (h : Mirror cfg s) (flashRc : List Int) : fsInit cfg (.powerOn s.flash flashRc) =
    { FsState.powerOn s.flash flashRc with superblockRam := readSuperblock cfg s.flash } := by
  have mount := fsInit_cases cfg s.flash flashRc
  generalize fsInit cfg (.powerOn s.flash flashRc) = m at mount ⊢
  cases mount with
  | mounted _ => rfl
  | blank invalid _ _ => rw [h.mountable] at invalid; cases invalid

end Mirror

theorem Mirror.step (h : Mirror cfg s) (nil : s.flashRc = []) (op : FsOp) :
    Mirror cfg (step cfg s op) := by
  cases flush : flushes cfg s op with
  | true =>
    obtain ⟨persisted, magic, version⟩ := flushes_persisted op nil flush
    exact persisted.mirror (magic.trans h.magic) (version.trans h.version)
  | false =>
    obtain ⟨effect, sector⟩ := quiet_step op flush
    cases effect with
    | same ram _ =>
      refine h.resize 0 (s.entry 0).size ?_ sector
      rw [ram]
      simp [FsState.setEntry, FsState.entry]
    | truncated _ _ ram _ _ => exact h.resize _ _ ram sector
    | written _ _ _ ram _ => exact h.resize _ _ ram sector

/-- A boot without flash errors leaves the mounted directory on flash. -/
theorem boot_persisted (cfg : FsConfig) (flash : Nat → UInt8) :
    let s := fsInit cfg (.powerOn flash [])
    Persisted cfg s ∧ Mirror cfg s ∧ s.flashRc = [] := by
  have mount := fsInit_cases cfg flash []
  generalize fsInit cfg (.powerOn flash []) = s at mount ⊢
  cases mount with
  | mounted valid =>
    simp only [PicoOS.Fs.mountable, Bool.and_eq_true, beq_iff_eq] at valid
    have persisted : Persisted cfg { FsState.powerOn flash [] with
      superblockRam := readSuperblock cfg flash } := Superblock.Agree.refl _
    exact ⟨persisted, persisted.mirror valid.1 valid.2, rfl⟩
  | blank _ flashOnly ok =>
    refine ⟨ok rfl, (ok rfl).mirror ?_ ?_, flashOnly.flashRc rfl⟩
    · rw [flashOnly.superblockRam]; rfl
    · rw [flashOnly.superblockRam]; rfl

end PicoOS.Fs
