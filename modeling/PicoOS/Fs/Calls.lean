import PicoOS.Fs.Ops
import PicoOS.Fs.Sectors

/-!
# What each filesystem call can do

One lemma per call listing its outcomes, and the simp set for the state
updates. Later proofs case on these and never unfold a call.
-/
namespace PicoOS.Fs

variable {cfg : FsConfig} {s : FsState}

/-! ### Field lemmas -/

@[simp] theorem setEntry_entry (s : FsState) (i j : Nat) (e : FsEntry) :
    (s.setEntry i e).entry j = if j = i then e else s.entry j := by
  simp [FsState.setEntry, FsState.entry, Function.update_apply]

@[simp] theorem setEntry_flash (s : FsState) (i : Nat) (e : FsEntry) :
    (s.setEntry i e).flash = s.flash := rfl

@[simp] theorem setEntry_flashRc (s : FsState) (i : Nat) (e : FsEntry) :
    (s.setEntry i e).flashRc = s.flashRc := rfl

@[simp] theorem setEntry_openFds (s : FsState) (i : Nat) (e : FsEntry) :
    (s.setEntry i e).openFds = s.openFds := rfl

@[simp] theorem setEntry_scratchOwner (s : FsState) (i : Nat) (e : FsEntry) :
    (s.setEntry i e).scratchOwner = s.scratchOwner := rfl

@[simp] theorem setEntry_fsBuffer (s : FsState) (i : Nat) (e : FsEntry) :
    (s.setEntry i e).fsBuffer = s.fsBuffer := rfl

@[simp] theorem setFd_openFds (s : FsState) (fd k : Nat) (ofd : OpenFd) :
    (s.setFd fd ofd).openFds k = if k = fd then ofd else s.openFds k := by
  simp [FsState.setFd, Function.update_apply]

@[simp] theorem setFd_entry (s : FsState) (fd i : Nat) (ofd : OpenFd) :
    (s.setFd fd ofd).entry i = s.entry i := rfl

@[simp] theorem setFd_superblockRam (s : FsState) (fd : Nat) (ofd : OpenFd) :
    (s.setFd fd ofd).superblockRam = s.superblockRam := rfl

@[simp] theorem setFd_flash (s : FsState) (fd : Nat) (ofd : OpenFd) :
    (s.setFd fd ofd).flash = s.flash := rfl

@[simp] theorem setFd_flashRc (s : FsState) (fd : Nat) (ofd : OpenFd) :
    (s.setFd fd ofd).flashRc = s.flashRc := rfl

@[simp] theorem setFd_scratchOwner (s : FsState) (fd : Nat) (ofd : OpenFd) :
    (s.setFd fd ofd).scratchOwner = s.scratchOwner := rfl

@[simp] theorem setFd_fsBuffer (s : FsState) (fd : Nat) (ofd : OpenFd) :
    (s.setFd fd ofd).fsBuffer = s.fsBuffer := rfl

/-! ### Searches -/

theorem findFile_some {name : CStr} {i : Nat} (h : findFile cfg s name = some i) :
    i < cfg.fsMaxFiles ∧ (s.entry i).used = true ∧
      strncmpEq (s.entry i).nameByte name.byte fsNameMax = true := by
  have found := List.find?_some h
  have member := List.mem_of_find?_eq_some h
  simp only [Bool.and_eq_true, List.mem_range] at found member
  exact ⟨member, found⟩

theorem allocFileEntry_some {i : Nat} (h : allocFileEntry cfg s = some i) :
    i < cfg.fsMaxFiles ∧ (s.entry i).used = false := by
  have found := List.find?_some h
  have member := List.mem_of_find?_eq_some h
  simp only [Bool.not_eq_true', List.mem_range] at found member
  exact ⟨member, found⟩

theorem allocOpenFd_some {fd : Nat} (h : allocOpenFd s = some fd) :
    fd < fsMaxOpenFds ∧ (s.openFds fd).used = false := by
  have found := List.find?_some h
  have member := List.mem_of_find?_eq_some h
  simp only [Bool.not_eq_true', List.mem_range] at found member
  exact ⟨member, found⟩

theorem allocOpenFd_congr {s s' : FsState} (h : s'.openFds = s.openFds) :
    allocOpenFd s' = allocOpenFd s := by
  simp only [allocOpenFd, h]

theorem validFd_iff (fd : Int) :
    validFd s fd = true ↔
      0 ≤ fd ∧ fd.toNat < fsMaxOpenFds ∧ (s.openFds fd.toNat).used = true := by
  simp only [validFd, Bool.and_eq_true, decide_eq_true_eq]
  constructor
  · rintro ⟨⟨lower, upper⟩, used⟩
    exact ⟨lower, by omega, used⟩
  · rintro ⟨lower, upper, used⟩
    exact ⟨⟨lower, by omega⟩, used⟩

/-! ### Open -/

/-- The file an open works on: one that exists, or one it has just created. -/
inductive Resolved (cfg : FsConfig) (s : FsState) (name : CStr) (mode : UInt32) :
    Nat → FsState → Prop
  | found {i} (h : findFile cfg s name = some i) : Resolved cfg s name mode i s
  | created {i} (absent : findFile cfg s name = none) (creat : hasFlag mode vfsOCreat = true)
      (h : allocFileEntry cfg s = some i) : Resolved cfg s name mode i (createEntry cfg s i name)

/-- `claimBuffer` for a mode that writes. -/
def claimed (s : FsState) (i : Nat) (mode : UInt32) : FsState :=
  if hasFlag mode vfsOWronly then claimBuffer s i mode else s

/-- The outcomes of `fs_open`. -/
inductive Opened (cfg : FsConfig) (s : FsState) (name : Option CStr) (mode : UInt32) :
    Int × FsState → Prop
  | missing (h : ∀ n, name = some n → findFile cfg s n.stripSlash = none ∧
      (hasFlag mode vfsOCreat = true → allocFileEntry cfg s = none)) : Opened cfg s name mode (-1, s)
  | busy {n i s₁} (given : name = some n) (file : Resolved cfg s n.stripSlash mode i s₁)
      (writing : hasFlag mode vfsOWronly = true) (owner : s₁.scratchOwner ≠ none) :
      Opened cfg s name mode (-1, s₁)
  | full {n i s₁} (given : name = some n) (file : Resolved cfg s n.stripSlash mode i s₁)
      (owner : hasFlag mode vfsOWronly = true → s₁.scratchOwner = none)
      (slots : allocOpenFd s₁ = none) :
      Opened cfg s name mode (-1, if hasFlag mode vfsOWronly then
        { claimed s₁ i mode with scratchOwner := none } else s₁)
  | done {n i s₁ fd} (given : name = some n) (file : Resolved cfg s n.stripSlash mode i s₁)
      (owner : hasFlag mode vfsOWronly = true → s₁.scratchOwner = none)
      (slot : allocOpenFd s₁ = some fd) :
      Opened cfg s name mode (fd, (claimed s₁ i mode).setFd fd (openedFd (claimed s₁ i mode) i mode))

theorem lookupOrCreate_cases (cfg : FsConfig) (s : FsState) (name : CStr) (mode : UInt32) :
    (lookupOrCreate cfg s name mode = (none, s) ∧ findFile cfg s name = none ∧
      (hasFlag mode vfsOCreat = true → allocFileEntry cfg s = none)) ∨
    ∃ i s₁, lookupOrCreate cfg s name mode = (some i, s₁) ∧ Resolved cfg s name mode i s₁ := by
  unfold lookupOrCreate
  cases found : findFile cfg s name with
  | some i => exact .inr ⟨i, s, rfl, .found found⟩
  | none =>
    cases creat : hasFlag mode vfsOCreat with
    | false => exact .inl ⟨rfl, rfl, by simp⟩
    | true =>
      cases alloc : allocFileEntry cfg s with
      | none => exact .inl ⟨rfl, rfl, fun _ => rfl⟩
      | some i => exact .inr ⟨i, _, rfl, .created found creat alloc⟩

section Claimed

variable (s : FsState) (i j : Nat) (mode : UInt32)

@[simp] theorem claimed_openFds : (claimed s i mode).openFds = s.openFds := by
  unfold claimed claimBuffer
  split <;> (try split) <;> rfl

@[simp] theorem claimed_flash : (claimed s i mode).flash = s.flash := by
  unfold claimed claimBuffer
  split <;> (try split) <;> rfl

@[simp] theorem claimed_flashRc : (claimed s i mode).flashRc = s.flashRc := by
  unfold claimed claimBuffer
  split <;> (try split) <;> rfl

theorem claimed_scratchOwner : (claimed s i mode).scratchOwner =
    if hasFlag mode vfsOWronly = true then some i else s.scratchOwner := by
  unfold claimed claimBuffer
  split <;> (try split) <;> rfl

/-- Only a truncating writer changes the entry, and only its size. -/
theorem claimed_entry : (claimed s i mode).entry j =
    if hasFlag mode vfsOWronly = true ∧ hasFlag mode vfsOTrunc = true ∧ j = i then
      { s.entry j with size := 0 } else s.entry j := by
  unfold claimed claimBuffer
  split
  next writing =>
    split
    next trunc =>
      rw [setEntry_entry]
      by_cases eq : j = i
      · subst eq; simp [writing, trunc, FsState.entry]
      · simp [eq, FsState.entry]
    next keep => rw [if_neg fun h => keep h.2.1]; rfl
  next reading => rw [if_neg fun h => reading h.1]

theorem claimed_used : ((claimed s i mode).entry j).used = (s.entry j).used := by
  rw [claimed_entry]
  split <;> rfl

end Claimed

theorem fsOpen_cases (cfg : FsConfig) (s : FsState) (name : Option CStr) (mode : UInt32) :
    Opened cfg s name mode (fsOpen cfg s name mode) := by
  cases name with
  | none => exact .missing (by simp)
  | some n =>
    rcases lookupOrCreate_cases cfg s n.stripSlash mode with ⟨eq, absent, full⟩ | ⟨i, s₁, eq, file⟩
    · simp only [fsOpen, eq]
      exact .missing fun m hm => by cases hm; exact ⟨absent, full⟩
    · simp only [fsOpen, eq]
      by_cases busy : (hasFlag mode vfsOWronly && s₁.scratchOwner.isSome) = true
      · rw [if_pos busy]
        simp only [Bool.and_eq_true, Option.isSome_iff_ne_none] at busy
        exact .busy rfl file busy.1 busy.2
      · rw [if_neg busy]
        have owner : hasFlag mode vfsOWronly = true → s₁.scratchOwner = none := by
          intro writing
          simpa [writing] using busy
        have slots : allocOpenFd (claimed s₁ i mode) = allocOpenFd s₁ :=
          allocOpenFd_congr (claimed_openFds s₁ i mode)
        have claims : (if hasFlag mode vfsOWronly then claimBuffer s₁ i mode else s₁) =
            claimed s₁ i mode := rfl
        rw [claims, slots]
        cases slot : allocOpenFd s₁ with
        | none =>
          have shape : (if hasFlag mode vfsOWronly then
              { claimed s₁ i mode with scratchOwner := none } else claimed s₁ i mode) =
              if hasFlag mode vfsOWronly then { claimed s₁ i mode with scratchOwner := none }
              else s₁ := by
            cases writing : hasFlag mode vfsOWronly <;> simp [claimed, writing]
          have outcome : Opened cfg s (some n) mode _ := .full rfl file owner slot
          rw [← shape] at outcome
          exact outcome
        | some fd => exact .done rfl file owner slot

/-- An open that returns a descriptor. -/
theorem fsOpen_success {cfg : FsConfig} {s s₁ : FsState} {n : CStr} {mode : UInt32} {fd : Int}
    (opened : fsOpen cfg s (some n) mode = (fd, s₁)) (success : 0 ≤ fd) :
    ∃ i s' k, fd = Int.ofNat k ∧ Resolved cfg s n.stripSlash mode i s' ∧
      (hasFlag mode vfsOWronly = true → s'.scratchOwner = none) ∧ allocOpenFd s' = some k ∧
      s₁ = (claimed s' i mode).setFd k (openedFd (claimed s' i mode) i mode) := by
  have call := fsOpen_cases cfg s (some n) mode
  rw [opened] at call
  cases call with
  | missing _ => exact absurd success (by decide)
  | busy _ _ _ _ => exact absurd success (by decide)
  | full _ _ _ _ => exact absurd success (by decide)
  | done given file owner slot =>
    cases given
    exact ⟨_, _, _, rfl, file, owner, slot, rfl⟩

/-! ### Read and write -/

/-- How many bytes a read of `n` through `ofd` moves. -/
def readable (s : FsState) (ofd : OpenFd) (n : Nat) : Nat :=
  min n ((s.entry ofd.fileIdx).size.toNat - ofd.pos)

/-- The outcomes of `fs_read`. -/
inductive ReadResult (s : FsState) (fd : Int) (buf : Bool) (n : Nat) :
    Int × List UInt8 × FsState → Prop
  | invalid (h : validFd s fd = false) : ReadResult s fd buf n (-1, [], s)
  | empty (valid : validFd s fd = true)
      (h : buf = false ∨ readable s (s.openFds fd.toNat) n = 0) : ReadResult s fd buf n (0, [], s)
  | done {ofd len} (valid : validFd s fd = true) (isFd : s.openFds fd.toNat = ofd)
      (isLen : readable s ofd n = len) (some : 0 < len) :
      ReadResult s fd buf n
        (len, readSource s ofd len, s.setFd fd.toNat { ofd with pos := ofd.pos + len })

theorem fsRead_cases (s : FsState) (fd : Int) (buf : Bool) (n : Nat) :
    ReadResult s fd buf n (fsRead s fd buf n) := by
  unfold fsRead
  cases valid : validFd s fd with
  | false => exact .invalid valid
  | true =>
    simp only [Bool.not_true, Bool.false_eq_true, if_false]
    split
    next nothing =>
      refine .empty valid ?_
      simp only [Bool.or_eq_true, Bool.not_eq_true', beq_iff_eq] at nothing
      rcases nothing with null | zero
      · exact .inl null
      · exact .inr (by simp [readable, zero])
    · split
      next some => exact .done valid rfl rfl some
      next none => exact .empty valid (.inr (Nat.eq_zero_of_not_pos none))

/-- How many bytes of `data` fit behind the cursor of `ofd`. -/
def writable (ofd : OpenFd) (data : List UInt8) : Nat := min data.length (fsMaxFileData - ofd.pos)

/-- The entry of a file after a write that ends at `pos`. -/
def grown (e : FsEntry) (pos : Nat) : FsEntry :=
  if e.size.toNat < pos then { e with size := UInt32.ofNat pos } else e

/-- The outcomes of `fs_write`. -/
inductive WriteResult (s : FsState) (fd : Int) (buf : Option (List UInt8)) : Int × FsState → Prop
  | invalid (h : validFd s fd = false) : WriteResult s fd buf (-1, s)
  | empty (valid : validFd s fd = true) (h : buf = none ∨ buf = some []) : WriteResult s fd buf (0, s)
  | refused {data} (valid : validFd s fd = true) (given : buf = some data) (nonempty : data ≠ [])
      (h : hasFlag (s.openFds fd.toNat).mode vfsOWronly = false ∨
        writable (s.openFds fd.toNat) data = 0) : WriteResult s fd buf (-1, s)
  | done {data ofd len} (valid : validFd s fd = true) (given : buf = some data)
      (isFd : s.openFds fd.toNat = ofd) (writing : hasFlag ofd.mode vfsOWronly = true)
      (isLen : writable ofd data = len) (some : 0 < len) :
      WriteResult s fd buf (len,
        ({ s with fsBuffer := Memory.write s.fsBuffer ofd.pos (data.take len) }.setFd fd.toNat
          { ofd with pos := ofd.pos + len, dirty := true }).setEntry ofd.fileIdx
            (grown (s.entry ofd.fileIdx) (ofd.pos + len)))

theorem setEntry_grown {s : FsState} {i : Nat} {e : FsEntry} (h : s.entry i = e) (pos : Nat) :
    s.setEntry i (grown e pos) =
      if e.size.toNat < pos then s.setEntry i { e with size := UInt32.ofNat pos } else s := by
  unfold grown
  split
  · rfl
  · simp [FsState.setEntry, ← h, FsState.entry]

theorem fsWrite_cases (s : FsState) (fd : Int) (buf : Option (List UInt8)) :
    WriteResult s fd buf (fsWrite s fd buf) := by
  unfold fsWrite
  cases valid : validFd s fd with
  | false => exact .invalid valid
  | true =>
    simp only [Bool.not_true, Bool.false_eq_true, if_false]
    cases buf with
    | none => exact .empty valid (.inl rfl)
    | some data =>
      dsimp only
      split
      next zero => exact .empty valid (.inr (by rw [List.eq_nil_of_length_eq_zero zero]))
      next nonzero =>
        have nonempty : data ≠ [] := fun nil => nonzero (by simp [nil])
        split
        next go =>
          simp only [Bool.and_eq_true, decide_eq_true_eq] at go
          have outcome : WriteResult s fd (some data) _ := .done valid rfl rfl go.1 rfl go.2
          rw [setEntry_grown] at outcome
          · exact outcome
          · exact setFd_entry _ _ _ _
        next stop =>
          simp only [Bool.and_eq_true, decide_eq_true_eq, not_and] at stop
          refine .refused valid rfl nonempty ?_
          cases writing : hasFlag (s.openFds fd.toNat).mode vfsOWronly with
          | false => exact .inl rfl
          | true => exact .inr (Nat.eq_zero_of_not_pos (stop writing))

/-! ### Create, close and delete -/

/-- Entry `i` filled in and counted, before the flush of `createEntry`. -/
def filled (s : FsState) (i : Nat) (name : CStr) : FsState :=
  { s.setEntry i (newEntry i name) with superblockRam :=
    { (s.setEntry i (newEntry i name)).superblockRam with
      fileCount := s.superblockRam.fileCount + 1 } }

theorem createEntry_flashOnly (cfg : FsConfig) (s : FsState) (i : Nat) (name : CStr) :
    FlashOnly InSuperblock (filled s i name) (createEntry cfg s i name) :=
  superblockFlush_flashOnly cfg (filled s i name)

theorem createEntry_persisted (cfg : FsConfig) (i : Nat) (name : CStr) (h : s.flashRc = []) :
    Persisted cfg (createEntry cfg s i name) :=
  (superblockFlush_ok (s := filled s i name) cfg h).2

@[simp] theorem filled_entry (s : FsState) (i j : Nat) (name : CStr) :
    (filled s i name).entry j = if j = i then newEntry i name else s.entry j :=
  setEntry_entry s i j _

theorem createEntry_entry (cfg : FsConfig) (s : FsState) (i j : Nat) (name : CStr) :
    (createEntry cfg s i name).entry j = if j = i then newEntry i name else s.entry j := by
  rw [(createEntry_flashOnly cfg s i name).entry, filled_entry]

theorem createEntry_openFds (cfg : FsConfig) (s : FsState) (i : Nat) (name : CStr) :
    (createEntry cfg s i name).openFds = s.openFds := (createEntry_flashOnly cfg s i name).openFds

theorem createEntry_scratchOwner (cfg : FsConfig) (s : FsState) (i : Nat) (name : CStr) :
    (createEntry cfg s i name).scratchOwner = s.scratchOwner :=
  (createEntry_flashOnly cfg s i name).scratchOwner

theorem createEntry_fsBuffer (cfg : FsConfig) (s : FsState) (i : Nat) (name : CStr) :
    (createEntry cfg s i name).fsBuffer = s.fsBuffer := (createEntry_flashOnly cfg s i name).fsBuffer

def closedFd (ofd : OpenFd) : OpenFd := { ofd with used := false, dirty := false }

/-- The owner of the write buffer after `ofd` is closed without a commit. -/
def releasedOwner (s : FsState) (ofd : OpenFd) : Option Nat :=
  if hasFlag ofd.mode vfsOWronly = true ∧ s.scratchOwner = some ofd.fileIdx then none
  else s.scratchOwner

/-- The outcomes of `fs_close`. -/
inductive Closed (cfg : FsConfig) (s : FsState) (fd : Int) : Int × FsState → Prop
  | invalid (h : validFd s fd = false) : Closed cfg s fd (-1, s)
  | clean {ofd} (valid : validFd s fd = true) (isFd : s.openFds fd.toNat = ofd)
      (clean : ofd.dirty = false) :
      Closed cfg s fd (0, { s with scratchOwner := releasedOwner s ofd }.setFd fd.toNat
        (closedFd ofd))
  | committed {ofd rc s₁} (valid : validFd s fd = true) (isFd : s.openFds fd.toNat = ofd)
      (dirty : ofd.dirty = true)
      (flash : FlashOnly (fun a => InFile ofd.fileIdx a ∨ InSuperblock a) s s₁)
      (ok : s.flashRc = [] → rc = 0 ∧ Persisted cfg s₁ ∧
        ∀ k, k < fsBlockSize → s₁.flash (fileFlashOffset ofd.fileIdx + k) = s.fsBuffer k) :
      Closed cfg s fd (rc, { s₁ with scratchOwner := none }.setFd fd.toNat (closedFd ofd))

/-- What a commit does: it touches two sectors, and without flash errors the
buffer and the directory are on flash afterwards. -/
theorem commit_cases (cfg : FsConfig) (s : FsState) (i : Nat) :
    ∃ s₁, (commit cfg s i).2 = { s₁ with scratchOwner := none } ∧
      FlashOnly (fun a => InFile i a ∨ InSuperblock a) s s₁ ∧
      (s.flashRc = [] → (commit cfg s i).1 = 0 ∧ Persisted cfg s₁ ∧
        ∀ k, k < fsBlockSize → s₁.flash (fileFlashOffset i + k) = s.fsBuffer k) := by
  have erased := flashEraseSector_flashOnly (fileFlashOffset i) s
  by_cases eraseOk : (flashEraseSector (fileFlashOffset i) s).1 = 0
  swap
  · -- the erase has failed: the sector is not programmed
    refine ⟨(flashEraseSector (fileFlashOffset i) s).2, ?_, erased.mono fun _ h => .inl h, ?_⟩
    · simp [commit, eraseOk]
    · intro nil
      exact absurd (by rw [flashEraseSector, fsFlashSafe_ok _ nil]) eraseOk
  generalize he : (flashEraseSector (fileFlashOffset i) s).2 = e at erased
  have programmed := erased.trans
    (flashProgramSector_flashOnly (fileFlashOffset i) e.fsBuffer e)
  by_cases programOk : (flashProgramSector (fileFlashOffset i) e.fsBuffer e).1 = 0
  swap
  · -- the program has failed: the directory is not flushed
    refine ⟨_, ?_, programmed.mono fun _ h => .inl (h.elim id id), ?_⟩
    · simp [commit, eraseOk, he, programOk]
    · intro nil
      exact absurd (by rw [flashProgramSector, fsFlashSafe_ok _ (erased.flashRc nil)]) programOk
  generalize hp : (flashProgramSector (fileFlashOffset i) e.fsBuffer e).2 = p at programmed
  have flushed := superblockFlush_flashOnly cfg { p with scratchOwner := none }
  obtain ⟨flash, rc, shape, rcOk, outside⟩ := flushed
  have result : commit cfg s i = (if (superblockFlush cfg { p with scratchOwner := none }).1 ≠ 0
      then -1 else 0, (superblockFlush cfg { p with scratchOwner := none }).2) := by
    simp [commit, eraseOk, he, programOk, hp]
  refine ⟨{ p with flash := flash, flashRc := rc }, ?_, ?_, ?_⟩
  · rw [result, shape]
  · refine (programmed.trans ⟨flash, rc, rfl, rcOk, outside⟩).mono fun a h => ?_
    rcases h with (h | h) | h
    · exact .inl h
    · exact .inl h
    · exact .inr h
  · intro nil
    have stored := superblockFlush_ok (s := { p with scratchOwner := none }) cfg
      (programmed.flashRc nil)
    rw [shape] at stored
    refine ⟨by rw [result, if_neg (by simpa using stored.1)], stored.2, fun k hk => ?_⟩
    have inside := inFile_add (i := i) hk
    change flash _ = _
    rw [outside _ inside.not_superblock]
    change p.flash _ = _
    rw [← hp, flashProgramSector,
      fsFlashSafe_ok _ (erased.flashRc nil), ← erased.fsBuffer, ← he, flashEraseSector,
      fsFlashSafe_ok _ nil]
    exact program_erased _ _ _ _ _ (Nat.le_refl _) _ hk

theorem fsClose_cases (cfg : FsConfig) (s : FsState) (fd : Int) :
    Closed cfg s fd (fsClose cfg s fd) := by
  unfold fsClose
  cases valid : validFd s fd with
  | false => exact .invalid valid
  | true =>
    simp only [Bool.not_true, Bool.false_eq_true, if_false]
    cases dirty : (s.openFds fd.toNat).dirty with
    | false =>
      have outcome : Closed cfg s fd _ := .clean valid rfl dirty
      simp only [Bool.false_eq_true, if_false, Bool.and_eq_true, beq_iff_eq]
      simp only [releasedOwner, closedFd] at outcome
      split at outcome
      next release => rw [if_pos release]; exact outcome
      next keep => rw [if_neg keep]; exact outcome
    | true =>
      obtain ⟨s₁, eq, flash, ok⟩ := commit_cases cfg s (s.openFds fd.toNat).fileIdx
      have outcome := Closed.committed valid rfl dirty flash ok
      simpa [eq, closedFd] using outcome

/-- The outcomes of `fs_delete`. -/
inductive Deleted (cfg : FsConfig) (s : FsState) (name : Option CStr) : Int × FsState → Prop
  | missing (h : ∀ n, name = some n → findFile cfg s n.stripSlash = none) :
      Deleted cfg s name (-1, s)
  | done {n i rc s₁} (given : name = some n) (found : findFile cfg s n.stripSlash = some i)
      (flash : FlashOnly (fun a => InFile i a ∨ InSuperblock a) (removeEntry (forceClose s i) i) s₁)
      (ok : s.flashRc = [] → rc = 0 ∧ Persisted cfg s₁) : Deleted cfg s name (rc, s₁)

theorem removeEntry_flashRc (s : FsState) (i : Nat) : (removeEntry s i).flashRc = s.flashRc := by
  unfold removeEntry
  dsimp only
  split <;> rfl

theorem removeEntry_flash (s : FsState) (i : Nat) : (removeEntry s i).flash = s.flash := by
  unfold removeEntry
  dsimp only
  split <;> rfl

theorem removeEntry_openFds (s : FsState) (i : Nat) : (removeEntry s i).openFds = s.openFds := by
  unfold removeEntry
  dsimp only
  split <;> rfl

theorem removeEntry_scratchOwner (s : FsState) (i : Nat) :
    (removeEntry s i).scratchOwner = s.scratchOwner := by
  unfold removeEntry
  dsimp only
  split <;> rfl

theorem removeEntry_fsBuffer (s : FsState) (i : Nat) : (removeEntry s i).fsBuffer = s.fsBuffer := by
  unfold removeEntry
  dsimp only
  split <;> rfl

theorem removeEntry_entry (s : FsState) (i j : Nat) :
    (removeEntry s i).entry j = if j = i then FsEntry.zero else s.entry j := by
  unfold removeEntry
  dsimp only
  split <;> exact setEntry_entry s i j _

theorem fsDelete_cases (cfg : FsConfig) (s : FsState) (name : Option CStr) :
    Deleted cfg s name (fsDelete cfg s name) := by
  cases name with
  | none => exact .missing (by simp)
  | some n =>
    simp only [fsDelete]
    cases found : findFile cfg s n.stripSlash with
    | none => exact .missing fun m hm => by cases hm; exact found
    | some i =>
      dsimp only
      generalize hr : removeEntry (forceClose s i) i = r
      have rcSame : r.flashRc = s.flashRc := by rw [← hr, removeEntry_flashRc]; rfl
      have erased := flashEraseSector_flashOnly (fileFlashOffset i) r
      split
      next failed =>
        subst hr
        refine .done rfl found (erased.mono fun _ h => Or.inl h) fun nil => ?_
        exact absurd (by rw [flashEraseSector, fsFlashSafe_ok _ (rcSame.trans nil)]) failed
      next =>
        have flushed := superblockFlush_flashOnly cfg (flashEraseSector (fileFlashOffset i) r).2
        subst hr
        refine .done rfl found (erased.trans flushed) fun nil => ?_
        have stored := superblockFlush_ok cfg (erased.flashRc (rcSame.trans nil))
        exact ⟨if_neg (by simpa using stored.1), stored.2⟩

/-! ### Format and mount -/

theorem eraseSectors_flashOnly (count : Nat) (s : FsState) :
    FlashOnly (fun a => ∃ k, k < count ∧ InSector (fsFlashOffset + k * fsBlockSize) a) s
      (eraseSectors count s) := by
  induction count with
  | zero => exact ⟨s.flash, s.flashRc, rfl, id, fun _ _ => rfl⟩
  | succ count ih =>
    simp only [eraseSectors, List.range_succ, List.foldl_append, List.foldl_cons, List.foldl_nil] at *
    refine (ih.trans (flashEraseSector_flashOnly _ _)).mono fun a touched => ?_
    rcases touched with ⟨k, before, inside⟩ | last
    · exact ⟨k, by omega, inside⟩
    · exact ⟨count, by omega, last⟩

/-- The superblock of an empty filesystem. -/
def freshSuperblock : Superblock :=
  { Superblock.zero with magic := fsSuperblockMagic, version := 1, fileCount := 0 }

/-- RAM after a format. -/
def formatted (s : FsState) : FsState :=
  { s with
    openFds := fun fd => if fd < fsMaxOpenFds then closedFd (s.openFds fd) else s.openFds fd
    scratchOwner := none
    superblockRam := freshSuperblock }

theorem fsFormat_flashOnly (cfg : FsConfig) (s : FsState) :
    FlashOnly (InRegion cfg) (formatted s) (fsFormat cfg s) ∧
      (s.flashRc = [] → Persisted cfg (fsFormat cfg s)) := by
  have erased := eraseSectors_flashOnly (1 + cfg.fsMaxFiles) { formatted s with
    superblockRam := s.superblockRam }
  obtain ⟨flash, rc, shape, rcOk, outside⟩ := erased
  have result : fsFormat cfg s =
      (superblockFlush cfg { formatted s with flash := flash, flashRc := rc }).2 := by
    change (superblockFlush cfg { eraseSectors (1 + cfg.fsMaxFiles) { formatted s with
      superblockRam := s.superblockRam } with superblockRam := freshSuperblock }).2 = _
    rw [shape]
    rfl
  rw [result]
  have before : FlashOnly (InRegion cfg) (formatted s)
      { formatted s with flash := flash, flashRc := rc } := ⟨flash, rc, rfl, rcOk, outside⟩
  refine ⟨(before.trans (superblockFlush_flashOnly _ _)).mono fun _ touched => ?_, fun nil => ?_⟩
  · exact touched.elim id InSuperblock.inRegion
  · exact (superblockFlush_ok cfg (rcOk nil)).2

/-- The outcomes of `fs_init` at power-on. -/
inductive Mounted (cfg : FsConfig) (flash : Nat → UInt8) (flashRc : List Int) : FsState → Prop
  | mounted (valid : mountable cfg flash = true) :
      Mounted cfg flash flashRc { FsState.powerOn flash flashRc with
        superblockRam := readSuperblock cfg flash }
  | blank {s'} (invalid : mountable cfg flash = false)
      (flashOnly : FlashOnly (InRegion cfg) (formatted (.powerOn flash flashRc)) s')
      (ok : flashRc = [] → Persisted cfg s') : Mounted cfg flash flashRc s'

theorem fsInit_cases (cfg : FsConfig) (flash : Nat → UInt8) (flashRc : List Int) :
    Mounted cfg flash flashRc (fsInit cfg (.powerOn flash flashRc)) := by
  unfold fsInit
  dsimp only
  split
  next valid => exact .mounted valid
  next invalid =>
    exact .blank (Bool.eq_false_of_not_eq_true invalid) (fsFormat_flashOnly cfg _).1
      (fsFormat_flashOnly cfg (.powerOn flash flashRc)).2

end PicoOS.Fs
