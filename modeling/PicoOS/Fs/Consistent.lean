import PicoOS.Fs.Run
import Mathlib

/-!
# The tables agree

The directory, the descriptor table and the write buffer from `fs_format` on,
whichever flash operations fail: sizes and cursors stay inside a sector,
`file_count` counts the used entries, and the buffer has an owner exactly while
a descriptor is open for writing.
-/
namespace PicoOS.Fs

/-- The directory slots in use. -/
def usedFiles (cfg : FsConfig) (s : FsState) : Finset Nat :=
  {i ∈ Finset.range cfg.fsMaxFiles | (s.entry i).used = true}

/-! ### The directory -/

/-- Every file fits its sector, and `file_count` counts them. -/
structure Sized (cfg : FsConfig) (s : FsState) : Prop where
  sizes : ∀ i < cfg.fsMaxFiles, (s.entry i).size.toNat ≤ fsMaxFileData
  count : s.superblockRam.fileCount.toNat = (usedFiles cfg s).card

section Directory

variable {cfg : FsConfig} {s s' : FsState}

theorem mem_usedFiles {i : Nat} :
    i ∈ usedFiles cfg s ↔ i < cfg.fsMaxFiles ∧ (s.entry i).used = true := by
  simp [usedFiles]

theorem usedFiles_congr (used : ∀ i, (s'.entry i).used = (s.entry i).used) :
    usedFiles cfg s' = usedFiles cfg s := by
  simp only [usedFiles, used]

/-- The directory has room for so few files that `file_count` never wraps. -/
theorem usedFiles_lt (cfg : FsConfig) (s : FsState) : (usedFiles cfg s).card < 128 := by
  have fits := cfg.superblockFits
  simp only [superblockHeader, entrySize, fsBlockSize] at fits
  have few : (usedFiles cfg s).card ≤ (Finset.range cfg.fsMaxFiles).card :=
    Finset.card_filter_le ..
  rw [Finset.card_range] at few
  omega

theorem createEntry_fileCount (i : Nat) (name : CStr) :
    (createEntry cfg s i name).superblockRam.fileCount = s.superblockRam.fileCount + 1 := by
  rw [(createEntry_flashOnly cfg s i name).superblockRam]
  rfl

theorem removeEntry_fileCount (i : Nat) (some : 0 < s.superblockRam.fileCount) :
    (removeEntry s i).superblockRam.fileCount = s.superblockRam.fileCount - 1 := by
  unfold removeEntry
  dsimp only
  rw [if_pos]
  · rfl
  · exact some

/-- `file_count` counts the used entries. -/
theorem createEntry_counts {i : Nat} (name : CStr) (slot : allocFileEntry cfg s = some i)
    (count : s.superblockRam.fileCount.toNat = (usedFiles cfg s).card) :
    (createEntry cfg s i name).superblockRam.fileCount.toNat =
      (usedFiles cfg (createEntry cfg s i name)).card := by
  obtain ⟨inside, unused⟩ := allocFileEntry_some slot
  have new : i ∉ usedFiles cfg s := by
    rw [mem_usedFiles, unused]
    exact fun member => Bool.noConfusion member.2
  have grown : usedFiles cfg (createEntry cfg s i name) = insert i (usedFiles cfg s) := by
    ext j
    rw [Finset.mem_insert, mem_usedFiles, mem_usedFiles, createEntry_entry]
    by_cases same : j = i
    · simp [same, inside, newEntry]
    · simp [same]
  have few := usedFiles_lt cfg s
  rw [grown, Finset.card_insert_of_notMem new, createEntry_fileCount, UInt32.toNat_add, count]
  exact Nat.mod_eq_of_lt (by simp only [UInt32.toNat_one]; omega)

theorem removeEntry_counts {i : Nat} (file : i ∈ usedFiles cfg s)
    (count : s.superblockRam.fileCount.toNat = (usedFiles cfg s).card) :
    (removeEntry s i).superblockRam.fileCount.toNat = (usedFiles cfg (removeEntry s i)).card := by
  have shrunk : usedFiles cfg (removeEntry s i) = (usedFiles cfg s).erase i := by
    ext j
    rw [Finset.mem_erase, mem_usedFiles, mem_usedFiles, removeEntry_entry]
    by_cases same : j = i
    · simp [same, FsEntry.zero]
    · simp [same]
  -- the count is positive, since entry `i` is in use
  have positive : 0 < (usedFiles cfg s).card := Finset.card_pos.mpr ⟨i, file⟩
  have some : 0 < s.superblockRam.fileCount := by
    rw [UInt32.lt_iff_toNat_lt, count]
    exact positive
  have one : (1 : UInt32) ≤ s.superblockRam.fileCount := by
    rw [UInt32.le_iff_toNat_le, count]
    exact positive
  rw [shrunk, Finset.card_erase_of_mem file, removeEntry_fileCount i some,
    UInt32.toNat_sub_of_le _ _ one, count]
  rfl

namespace Sized

theorem flashOnly {touched : Nat → Prop} (h : Sized cfg s) (flash : FlashOnly touched s s') :
    Sized cfg s' where
  sizes i inside := by
    rw [flash.entry]
    exact h.sizes i inside
  count := by
    rw [flash.superblockRam, h.count, usedFiles_congr fun i => by rw [flash.entry]]

/-- A change of entry sizes that keeps them inside the sector. -/
theorem resize (h : Sized cfg s) (count : s'.superblockRam.fileCount = s.superblockRam.fileCount)
    (used : ∀ i, (s'.entry i).used = (s.entry i).used)
    (sizes : ∀ i, (s.entry i).size.toNat ≤ fsMaxFileData → (s'.entry i).size.toNat ≤ fsMaxFileData) :
    Sized cfg s' where
  sizes i inside := sizes i (h.sizes i inside)
  count := by rw [count, h.count, usedFiles_congr used]

theorem createEntry (h : Sized cfg s) {i : Nat} (name : CStr)
    (slot : allocFileEntry cfg s = some i) : Sized cfg (createEntry cfg s i name) := by
  refine ⟨fun j bound => ?_, createEntry_counts name slot h.count⟩
  rw [createEntry_entry]
  split
  · exact Nat.zero_le _
  · exact h.sizes j bound

theorem resolved (h : Sized cfg s) {name : CStr} {mode : UInt32} {i : Nat}
    (file : Resolved cfg s name mode i s') : Sized cfg s' := by
  cases file with
  | found _ => exact h
  | created _ _ slot => exact h.createEntry name slot

theorem claimed (h : Sized cfg s) (i : Nat) (mode : UInt32) : Sized cfg (claimed s i mode) := by
  apply h.resize
  · unfold PicoOS.Fs.claimed claimBuffer
    split <;> (try split) <;> rfl
  · exact fun j => claimed_used s i j mode
  · intro j bound
    rw [claimed_entry]
    split
    · exact Nat.zero_le _
    · exact bound

theorem removeEntry (h : Sized cfg s) {i : Nat} (file : i ∈ usedFiles cfg s) :
    Sized cfg (removeEntry s i) := by
  refine ⟨fun j bound => ?_, removeEntry_counts file h.count⟩
  rw [removeEntry_entry]
  split
  · exact Nat.zero_le _
  · exact h.sizes j bound

end Sized

end Directory

/-! ### The descriptors -/

/-- What the descriptor table adds to `Inv`. -/
structure Held (s : FsState) : Prop where
  positions : ∀ fd, (s.openFds fd).used = true → (s.openFds fd).pos ≤ fsMaxFileData
  /-- An owned buffer has its writer. -/
  claimed : ∀ i, s.scratchOwner = some i →
    ∃ fd, (s.openFds fd).Writer ∧ (s.openFds fd).fileIdx = i
  /-- Closing a descriptor cleans it. -/
  closed : ∀ fd < fsMaxOpenFds, (s.openFds fd).dirty = true → (s.openFds fd).used = true

namespace Held

variable {cfg : FsConfig} {s s' : FsState}

theorem congr (h : Held s) (fds : s'.openFds = s.openFds)
    (owner : s'.scratchOwner = s.scratchOwner) : Held s' where
  positions := by
    rw [fds]
    exact h.positions
  claimed := by
    rw [fds, owner]
    exact h.claimed
  closed := by
    rw [fds]
    exact h.closed

theorem flashOnly {touched : Nat → Prop} (h : Held s) (flash : FlashOnly touched s s') : Held s' :=
  h.congr flash.openFds flash.scratchOwner

theorem resolved (h : Held s) {name : CStr} {mode : UInt32} {i : Nat}
    (file : Resolved cfg s name mode i s') : Held s' := by
  cases file with
  | found _ => exact h
  | created _ _ _ => exact h.congr (createEntry_openFds ..) (createEntry_scratchOwner ..)

/-- Installing `ofd` in slot `fd`, with a new owner of the buffer. -/
theorem setFd (h : Held s) (fd : Nat) (ofd : OpenFd) {owner : Option Nat}
    (position : ofd.used = true → ofd.pos ≤ fsMaxFileData)
    (claimed : ∀ i, owner = some i → (ofd.Writer ∧ ofd.fileIdx = i) ∨
      (s.scratchOwner = some i ∧ ¬ (s.openFds fd).Writer))
    (closed : ofd.dirty = true → ofd.used = true) :
    Held ({ s with scratchOwner := owner }.setFd fd ofd) where
  positions k := by
    rw [setFd_openFds]
    split
    · exact position
    · exact h.positions k
  claimed i owned := by
    rcases claimed i owned with new | ⟨old, other⟩
    · refine ⟨fd, ?_⟩
      rw [setFd_openFds, if_pos rfl]
      exact new
    · -- the old writer is in another slot
      obtain ⟨k, writer, file⟩ := h.claimed i old
      have differ : k ≠ fd := by
        rintro rfl
        exact other writer
      refine ⟨k, ?_⟩
      rw [setFd_openFds, if_neg differ]
      exact ⟨writer, file⟩
  closed k bound := by
    rw [setFd_openFds]
    split
    · exact closed
    · exact h.closed k bound

/-- Moving a cursor, or marking an open descriptor dirty. -/
theorem touchFd (h : Held s) (inv : Inv cfg s) {fd : Nat} {ofd : OpenFd}
    (opened : (s.openFds fd).used = true) (used : ofd.used = (s.openFds fd).used)
    (file : ofd.fileIdx = (s.openFds fd).fileIdx) (mode : ofd.mode = (s.openFds fd).mode)
    (position : ofd.pos ≤ fsMaxFileData) : Held (s.setFd fd ofd) := by
  apply h.setFd fd ofd fun _ => position
  · intro i owned
    by_cases writer : (s.openFds fd).Writer
    · left
      have owner := (inv.owner fd writer).symm.trans owned
      rw [OpenFd.Writer, used, mode, file]
      exact ⟨writer, Option.some.inj owner⟩
    · exact .inr ⟨owned, writer⟩
  · intro _
    rw [used, opened]

end Held

/-! ### The calls -/

/-- All of it: kept by every call. -/
structure Consistent (cfg : FsConfig) (s : FsState) : Prop where
  inv : Inv cfg s
  sized : Sized cfg s
  held : Held s

namespace Consistent

variable {cfg : FsConfig} {s s' : FsState}

theorem opened {name : Option CStr} {mode : UInt32} {r : Int × FsState} (h : Consistent cfg s)
    (call : Opened cfg s name mode r) : Consistent cfg r.2 := by
  refine ⟨h.inv.opened call, ?_, ?_⟩
  · cases call with
    | missing _ => exact h.sized
    | busy _ file _ _ => exact h.sized.resolved file
    | @full n i s₁ _ file _ _ =>
      have sized := h.sized.resolved file
      split
      · exact (sized.claimed i mode).resize rfl (fun _ => rfl) fun _ => id
      · exact sized
    | @done n i s₁ fd _ file _ _ =>
      exact ((h.sized.resolved file).claimed i mode).resize rfl (fun _ => rfl) fun _ => id
  · cases call with
    | missing _ => exact h.held
    | busy _ file _ _ => exact h.held.resolved file
    | @full n i s₁ _ file owner _ =>
      have held := h.held.resolved file
      split
      next writing => exact held.congr (claimed_openFds ..) (owner writing).symm
      · exact held
    | @done n i s₁ fd _ file owner slot =>
      have held := h.held.resolved file
      have sized := (h.sized.resolved file).claimed i mode
      have fds : Held { claimed s₁ i mode with scratchOwner := s₁.scratchOwner } :=
        held.congr (claimed_openFds ..) rfl
      refine @Held.setFd _ fds fd _ (claimed s₁ i mode).scratchOwner ?_ ?_ ?_
      · intro _
        dsimp only [openedFd]
        split
        · exact sized.sizes i file.used.1
        · exact Nat.zero_le _
      · intro j owned
        rw [claimed_scratchOwner] at owned
        split at owned
        next writing =>
          cases owned
          exact .inl ⟨⟨rfl, writing⟩, rfl⟩
        next =>
          -- a reader takes an unused slot, so the writer keeps its own
          refine .inr ⟨owned, fun writer => ?_⟩
          have used := writer.1
          rw [claimed_openFds, (allocOpenFd_some slot).2] at used
          cases used
      · exact fun _ => rfl

/-- A read stays inside the file. -/
theorem readable_fits (h : Consistent cfg s) {fd : Nat} (used : (s.openFds fd).used = true)
    (n : Nat) : (s.openFds fd).pos + readable s (s.openFds fd) n ≤ fsMaxFileData := by
  have position := h.held.positions fd used
  have size := h.sized.sizes _ (h.inv.bound fd used).2.1
  unfold readable
  omega

theorem writable_fits (h : Consistent cfg s) {fd : Nat} (used : (s.openFds fd).used = true)
    (data : List UInt8) : (s.openFds fd).pos + writable (s.openFds fd) data ≤ fsMaxFileData := by
  have position := h.held.positions fd used
  unfold writable
  omega

theorem readResult {fd : Int} {buf : Bool} {n : Nat} {r : Int × List UInt8 × FsState}
    (h : Consistent cfg s) (call : ReadResult s fd buf n r) : Consistent cfg r.2.2 := by
  refine ⟨h.inv.readResult call, ?_, ?_⟩
  · cases call with
    | invalid _ => exact h.sized
    | empty _ _ => exact h.sized
    | done _ _ _ _ => exact h.sized.resize rfl (fun _ => rfl) fun _ => id
  · cases call with
    | invalid _ => exact h.held
    | empty _ _ => exact h.held
    | done valid isFd isLen _ =>
      subst isFd isLen
      have used := ((validFd_iff fd).mp valid).2.2
      exact h.held.touchFd h.inv used rfl rfl rfl (h.readable_fits used n)

theorem writeResult {fd : Int} {buf : Option (List UInt8)} {r : Int × FsState}
    (h : Consistent cfg s) (call : WriteResult s fd buf r) : Consistent cfg r.2 := by
  refine ⟨h.inv.writeResult call, ?_, ?_⟩
  · cases call with
    | invalid _ => exact h.sized
    | empty _ _ => exact h.sized
    | refused _ _ _ _ => exact h.sized
    | @done data ofd len valid _ isFd _ isLen _ =>
      subst isFd isLen
      have fits := h.writable_fits ((validFd_iff fd).mp valid).2.2 data
      simp only [fsMaxFileData, fsBlockSize] at fits
      refine h.sized.resize ?_ ?_ ?_
      · rfl
      · intro j
        rw [setEntry_entry]
        split
        next same =>
          subst same
          unfold grown
          split <;> rfl
        · rfl
      · intro j bound
        rw [setEntry_entry]
        split
        next same =>
          subst same
          unfold grown
          split
          · rw [UInt32.toNat_ofNat_of_lt' (by simp only [UInt32.size]; omega)]
            simp only [fsMaxFileData, fsBlockSize]
            exact fits
          · exact bound
        · exact bound
  · cases call with
    | invalid _ => exact h.held
    | empty _ _ => exact h.held
    | refused _ _ _ _ => exact h.held
    | @done data ofd len valid _ isFd _ isLen _ =>
      subst isFd isLen
      have used := ((validFd_iff fd).mp valid).2.2
      have fits := h.writable_fits used data
      have moved : Held (s.setFd fd.toNat { s.openFds fd.toNat with
          pos := (s.openFds fd.toNat).pos + writable (s.openFds fd.toNat) data
          dirty := true }) := h.held.touchFd h.inv used rfl rfl rfl fits
      exact moved.congr rfl rfl

/-- A descriptor that is closed takes its claim on the buffer with it. -/
theorem closeFd (h : Consistent cfg s) (fd : Nat) {owner : Option Nat}
    (release : owner = none ∨ (owner = s.scratchOwner ∧ ¬ (s.openFds fd).Writer)) :
    Held ({ s with scratchOwner := owner }.setFd fd (closedFd (s.openFds fd))) := by
  apply h.held.setFd fd
  · exact fun used => absurd used (by simp [closedFd])
  · intro i owned
    rcases release with free | ⟨same, reader⟩
    · rw [free] at owned
      cases owned
    · exact .inr ⟨same ▸ owned, reader⟩
  · exact fun dirty => absurd dirty (by simp [closedFd])

theorem closed {fd : Int} {r : Int × FsState} (h : Consistent cfg s) (call : Closed cfg s fd r) :
    Consistent cfg r.2 := by
  refine ⟨h.inv.closed call, ?_, ?_⟩
  · cases call with
    | invalid _ => exact h.sized
    | clean _ _ _ => exact h.sized.resize rfl (fun _ => rfl) fun _ => id
    | committed _ _ _ flash _ =>
      exact (h.sized.flashOnly flash).resize rfl (fun _ => rfl) fun _ => id
  · cases call with
    | invalid _ => exact h.held
    | clean valid isFd _ =>
      subst isFd
      apply h.closeFd
      have used := ((validFd_iff fd).mp valid).2.2
      unfold releasedOwner
      split
      · exact .inl rfl
      next keep => exact .inr ⟨rfl, fun writer => keep ⟨writer.2, h.inv.owner _ writer⟩⟩
    | @committed ofd rc s₁ _ isFd _ flash _ =>
      subst isFd
      have after : Consistent cfg s₁ :=
        ⟨h.inv.flashOnly flash, h.sized.flashOnly flash, h.held.flashOnly flash⟩
      rw [← flash.openFds]
      exact after.closeFd fd.toNat (.inl rfl)

theorem forceClose (h : Consistent cfg s) (i : Nat) : Held (forceClose s i) := by
  have slots (fd : Nat) : (PicoOS.Fs.forceClose s i).openFds fd = s.openFds fd ∨
      ((PicoOS.Fs.forceClose s i).openFds fd = closedFd (s.openFds fd) ∧
        (s.openFds fd).fileIdx = i) := by
    dsimp only [PicoOS.Fs.forceClose]
    split
    next hit => exact .inr ⟨rfl, hit.2.2⟩
    · exact .inl rfl
  constructor
  · intro fd used
    rcases slots fd with same | ⟨off, -⟩
    · rw [same] at used ⊢
      exact h.held.positions fd used
    · rw [off] at used
      cases used
  · intro j owned
    have old : s.scratchOwner = some j ∧ j ≠ i := by
      dsimp only [PicoOS.Fs.forceClose] at owned
      split at owned
      · cases owned
      next other =>
        refine ⟨owned, ?_⟩
        rintro rfl
        exact other owned
    -- the writer's file is not the deleted one, so its descriptor stays
    obtain ⟨fd, writer, file⟩ := h.held.claimed j old.1
    refine ⟨fd, ?_⟩
    rcases slots fd with same | ⟨-, hit⟩
    · rw [same]
      exact ⟨writer, file⟩
    · exact absurd (file.symm.trans hit) old.2
  · intro fd bound dirty
    rcases slots fd with same | ⟨off, -⟩
    · rw [same] at dirty ⊢
      exact h.held.closed fd bound dirty
    · rw [off] at dirty
      cases dirty

theorem deleted {name : Option CStr} {r : Int × FsState} (h : Consistent cfg s)
    (call : Deleted cfg s name r) : Consistent cfg r.2 := by
  refine ⟨h.inv.deleted call, ?_, ?_⟩
  · cases call with
    | missing _ => exact h.sized
    | @done n i rc s₁ _ found flash _ =>
      have closed : Sized cfg (PicoOS.Fs.forceClose s i) :=
        h.sized.resize rfl (fun _ => rfl) fun _ => id
      have file := findFile_some found
      exact (closed.removeEntry (mem_usedFiles.mpr ⟨file.1, file.2.1⟩)).flashOnly flash
  · cases call with
    | missing _ => exact h.held
    | @done n i rc s₁ _ _ flash _ =>
      have removed : Held (removeEntry (PicoOS.Fs.forceClose s i) i) :=
        (h.forceClose i).congr (removeEntry_openFds ..) (removeEntry_scratchOwner ..)
      exact removed.flashOnly flash

theorem step (h : Consistent cfg s) (op : FsOp) : Consistent cfg (step cfg s op) := by
  cases op with
  | «open» name mode => exact h.opened (fsOpen_cases cfg s name mode)
  | read fd buf n => exact h.readResult (fsRead_cases s fd buf n)
  | write fd buf => exact h.writeResult (fsWrite_cases s fd buf)
  | close fd => exact h.closed (fsClose_cases cfg s fd)
  | delete name => exact h.deleted (fsDelete_cases cfg s name)

end Consistent

/-- `fs_format` starts from nothing, whatever the flash does. -/
theorem fsFormat_consistent {cfg : FsConfig} {s : FsState} (h : Inv cfg s) :
    Consistent cfg (fsFormat cfg s) := by
  have flash := (fsFormat_flashOnly cfg s).1
  have sized : Sized cfg (formatted s) := by
    constructor
    · exact fun _ _ => Nat.zero_le _
    · have none_used : usedFiles cfg (formatted s) = ∅ :=
        Finset.filter_false_of_mem fun i _ => by
          simp [formatted, freshSuperblock, FsState.entry, Superblock.zero, FsEntry.zero]
      rw [none_used]
      rfl
  have held : Held (fsFormat cfg s) := by
    constructor
    · intro fd used
      exact absurd used (by simp [h.fsFormat_closed fd])
    · intro i owned
      rw [flash.scratchOwner] at owned
      cases owned
    · intro fd bound dirty
      rw [flash.openFds] at dirty
      simp only [formatted, if_pos bound, closedFd] at dirty
      cases dirty
  exact ⟨h.fsFormat, sized.flashOnly flash, held⟩

/-! ### Every run -/

/-- The state of the tables after a format and any calls. -/
structure TablesAgree (cfg : FsConfig) (s : FsState) : Prop where
  sizes : ∀ i < cfg.fsMaxFiles, (s.entry i).size.toNat ≤ fsMaxFileData
  positions : ∀ fd, (s.openFds fd).used = true → (s.openFds fd).pos ≤ fsMaxFileData
  /-- A read stays inside the buffer, or the file's sector. -/
  reads : ∀ fd n, (s.openFds fd).used = true →
    (s.openFds fd).pos + readable s (s.openFds fd) n ≤ fsBlockSize
  /-- A write stays inside the buffer. -/
  writes : ∀ fd data, (s.openFds fd).used = true →
    (s.openFds fd).pos + writable (s.openFds fd) data ≤ fsBlockSize
  /-- The sector of an open file is inside the region. -/
  sectors : ∀ fd, (s.openFds fd).used = true → fileFlashOffset (s.openFds fd).fileIdx + fsBlockSize ≤
    fsFlashOffset + (1 + cfg.fsMaxFiles) * fsBlockSize
  count : s.superblockRam.fileCount.toNat = (usedFiles cfg s).card
  /-- Open descriptors are in the table, and denote entries in use. -/
  files : ∀ fd, (s.openFds fd).used = true → fd < fsMaxOpenFds ∧
    (s.openFds fd).fileIdx ∈ usedFiles cfg s
  unique : ∀ fd fd', (s.openFds fd).Writer → (s.openFds fd').Writer → fd = fd'
  owner : ∀ i, s.scratchOwner = some i ↔
    ∃ fd, (s.openFds fd).Writer ∧ (s.openFds fd).fileIdx = i
  dirty : ∀ fd < fsMaxOpenFds, (s.openFds fd).dirty = true → (s.openFds fd).Writer

theorem Consistent.tablesAgree {cfg : FsConfig} {s : FsState} (h : Consistent cfg s) :
    TablesAgree cfg s where
  sizes := h.sized.sizes
  positions := h.held.positions
  reads _ n used := h.readable_fits used n
  writes _ data used := h.writable_fits used data
  sectors fd used := by
    have file := (h.inv.bound fd used).2.1
    simp only [fileFlashOffset, fsBlockSize]
    omega
  count := h.sized.count
  files fd used :=
    have bound := h.inv.bound fd used
    ⟨bound.1, mem_usedFiles.mpr bound.2⟩
  unique := h.inv.unique
  owner i := by
    constructor
    · exact h.held.claimed i
    · rintro ⟨fd, writer, file⟩
      rw [h.inv.owner fd writer, file]
  dirty fd bound dirty :=
    have used := h.held.closed fd bound dirty
    ⟨used, h.inv.dirty fd used dirty⟩

/-- From a freshly formatted filesystem on, the tables agree after every call and every later
format, whichever flash operations fail. -/
theorem tables_agree (cfg : FsConfig) {s : FsState} (reachable : Reachable cfg s)
    (events : List FsEvent) (running : .reboot ∉ events) :
    TablesAgree cfg (Run.exec (eventStep cfg) (fsFormat cfg s) events) := by
  have start := fsFormat_consistent reachable.inv
  generalize fsFormat cfg s = t at start
  apply Consistent.tablesAgree
  induction events generalizing t with
  | nil => exact start
  | cons e events ih =>
    rw [List.mem_cons, not_or] at running
    apply ih running.2
    cases e with
    | call op => exact start.step op
    | format => exact fsFormat_consistent start.inv
    | reboot => exact absurd rfl running.1

/-- A filesystem whose first commit after a format and a create fails to erase. -/
def failingFs : FsState :=
  fsInit twoFiles (.powerOn (fun _ => 0xFF) (List.replicate 12 0 ++ [-1]))

theorem failingFs_reachable : Reachable twoFiles failingFs :=
  ⟨failingFs, [], ⟨fun _ => 0xFF, List.replicate 12 0 ++ [-1], rfl⟩, rfl⟩

theorem tables_agree_commit : TablesAgree twoFiles
    (Run.exec (eventStep twoFiles) (fsFormat twoFiles failingFs)
      [.call createA, .call (.write 0 (some [0x41, 0x42])), .call (.open (some fileA) vfsORdonly),
        .call (.close 0), .call (.delete (some fileA))]) :=
  tables_agree twoFiles failingFs_reachable _ (by simp)

end PicoOS.Fs
