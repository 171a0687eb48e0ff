import PicoOS.Fs.Flash

/-!
# Which sector an operation touches

Frame lemmas for the flash layer. An erase, a program or a flush changes one
sector and nothing else of the state; without flash errors a flush leaves the
RAM superblock on flash.
-/
namespace PicoOS.Fs

variable {cfg : FsConfig} {s : FsState}

/-! ### Frames -/

/-- The addresses of the sector at `offset`. -/
def InSector (offset a : Nat) : Prop := offset ≤ a ∧ a < offset + fsBlockSize

/-- The data sector of file `i`. -/
abbrev InFile (i : Nat) : Nat → Prop := InSector (fileFlashOffset i)

abbrev InSuperblock : Nat → Prop := InSector superblockFlashOffset

/-- The sectors of the filesystem: the superblock, then one for each file. -/
def InRegion (cfg : FsConfig) (a : Nat) : Prop :=
  ∃ k, k < 1 + cfg.fsMaxFiles ∧ InSector (fsFlashOffset + k * fsBlockSize) a

/-- Nothing but flash changes, and that only at the `touched` addresses. -/
def FlashOnly (touched : Nat → Prop) (s s' : FsState) : Prop :=
  ∃ flash rc, s' = { s with flash := flash, flashRc := rc } ∧ (s.flashRc = [] → rc = []) ∧
    ∀ a, ¬ touched a → flash a = s.flash a

namespace FlashOnly

variable {touched touched' : Nat → Prop} {s' s₁ s₂ : FsState}

theorem trans (h : FlashOnly touched s s₁) (h' : FlashOnly touched' s₁ s₂) :
    FlashOnly (fun a => touched a ∨ touched' a) s s₂ := by
  obtain ⟨f, rc, rfl, ok, outside⟩ := h
  obtain ⟨f', rc', rfl, ok', outside'⟩ := h'
  refine ⟨f', rc', rfl, fun nil => ok' (ok nil), fun a ha => ?_⟩
  rw [not_or] at ha
  exact (outside' a ha.2).trans (outside a ha.1)

theorem mono (h : FlashOnly touched s s') (imp : ∀ a, touched a → touched' a) :
    FlashOnly touched' s s' := by
  obtain ⟨f, rc, rfl, ok, outside⟩ := h
  exact ⟨f, rc, rfl, ok, fun a ha => outside a fun ht => ha (imp a ht)⟩

theorem superblockRam (h : FlashOnly touched s s') : s'.superblockRam = s.superblockRam := by
  obtain ⟨f, rc, rfl, -⟩ := h
  rfl

theorem entry (h : FlashOnly touched s s') (i : Nat) : s'.entry i = s.entry i := by
  simp only [FsState.entry, h.superblockRam]

theorem openFds (h : FlashOnly touched s s') : s'.openFds = s.openFds := by
  obtain ⟨f, rc, rfl, -⟩ := h
  rfl

theorem scratchOwner (h : FlashOnly touched s s') : s'.scratchOwner = s.scratchOwner := by
  obtain ⟨f, rc, rfl, -⟩ := h
  rfl

theorem fsBuffer (h : FlashOnly touched s s') : s'.fsBuffer = s.fsBuffer := by
  obtain ⟨f, rc, rfl, -⟩ := h
  rfl

theorem flashRc (h : FlashOnly touched s s') (nil : s.flashRc = []) : s'.flashRc = [] := by
  obtain ⟨f, rc, rfl, ok, -⟩ := h
  exact ok nil

theorem outside {a : Nat} (h : FlashOnly touched s s') (ha : ¬ touched a) :
    s'.flash a = s.flash a := by
  obtain ⟨f, rc, rfl, -, outside⟩ := h
  exact outside a ha

end FlashOnly

theorem fsFlashSafe_flashOnly {touched : Nat → Prop} (fn : (Nat → UInt8) → Nat → UInt8)
    (s : FsState) (h : ∀ a, ¬ touched a → fn s.flash a = s.flash a) :
    FlashOnly touched s (fsFlashSafe fn s).2 := by
  refine ⟨_, _, rfl, fun nil => by simp [nil], fun a ha => ?_⟩
  split
  · exact h a ha
  · rfl

theorem not_inSector {offset a : Nat} (h : ¬ InSector offset a) :
    a < offset ∨ offset + fsBlockSize ≤ a := by
  simp only [InSector] at h
  omega

theorem flashEraseSector_flashOnly (off : Nat) (s : FsState) :
    FlashOnly (InSector off) s (flashEraseSector off s).2 :=
  fsFlashSafe_flashOnly _ _ fun _ ha => Memory.fill_outside _ _ _ _ _ (not_inSector ha)

theorem flashProgramSector_flashOnly (off : Nat) (src : Nat → UInt8) (s : FsState) :
    FlashOnly (InSector off) s (flashProgramSector off src s).2 :=
  fsFlashSafe_flashOnly _ _ fun _ ha => Memory.copy_outside _ _ _ _ _ (not_inSector ha)

theorem superblockFlush_flashOnly (cfg : FsConfig) (s : FsState) :
    FlashOnly InSuperblock s (superblockFlush cfg s).2 := by
  have erased := flashEraseSector_flashOnly superblockFlashOffset s
  have covered := cfg.superblock_covered
  simp only [superblockFlush]
  split
  · exact erased
  · have programmed : FlashOnly InSuperblock (flashEraseSector superblockFlashOffset s).2
        (fsFlashSafe (fun flash => flashRangeProgram flash superblockFlashOffset
          (superblockPages cfg (flashEraseSector superblockFlashOffset s).2.superblockRam)
          cfg.superblockProgSize) (flashEraseSector superblockFlashOffset s).2).2 := by
      apply fsFlashSafe_flashOnly
      intro a ha
      have := not_inSector ha
      exact Memory.copy_outside _ _ _ _ _ (by omega)
    exact (erased.trans programmed).mono fun _ h => h.elim id id

/-- Sectors of different files are disjoint. -/
theorem InFile.unique {i j a : Nat} (h : InFile i a) (h' : InFile j a) : i = j := by
  simp only [InSector, fileFlashOffset, fsFlashOffset, fsBlockSize] at h h'
  omega

/-- The superblock sector belongs to no file. -/
theorem InFile.not_superblock {i a : Nat} (h : InFile i a) : ¬ InSuperblock a := by
  simp only [InSector, fileFlashOffset, superblockFlashOffset, fsFlashOffset, fsBlockSize] at *
  omega

theorem InSuperblock.inRegion {a : Nat} (h : InSuperblock a) : InRegion cfg a :=
  ⟨0, by omega, by rwa [Nat.zero_mul]⟩

theorem InFile.inRegion {i a : Nat} (h : InFile i a) (bound : i < cfg.fsMaxFiles) : InRegion cfg a :=
  ⟨i + 1, by omega, h⟩

theorem inFile_add {i k : Nat} (h : k < fsBlockSize) : InFile i (fileFlashOffset i + k) := by
  simp only [InSector]
  omega

/-! ### Flash without errors -/

/-- The superblock on flash is the one in RAM. -/
def Persisted (cfg : FsConfig) (s : FsState) : Prop :=
  (readSuperblock cfg s.flash).Agree cfg s.superblockRam

theorem fsFlashSafe_ok (fn : (Nat → UInt8) → Nat → UInt8) (h : s.flashRc = []) :
    fsFlashSafe fn s = (0, { s with flash := fn s.flash }) := by
  simp [fsFlashSafe, h]

/-- A flush that returns 0 stores the RAM superblock. -/
theorem superblockFlush_persisted (cfg : FsConfig) (done : (superblockFlush cfg s).1 = 0) :
    Persisted cfg (superblockFlush cfg s).2 := by
  unfold superblockFlush flashEraseSector fsFlashSafe at done ⊢
  dsimp only at done ⊢
  split at done
  · cases done
  next erased =>
    rw [if_neg erased]
    rw [not_not] at erased
    have programmed : s.flashRc.tail.headD 0 = 0 := by
      by_contra failed
      rw [if_pos failed] at done
      cases done
    have covered := cfg.superblock_covered
    apply readSuperblock_of_pages
    intro k hk
    dsimp only
    rw [if_pos programmed, if_pos erased]
    exact program_erased _ _ _ _ _ covered.2 _ (by omega)

/-- A flush that meets no flash error returns 0. -/
theorem superblockFlush_ok (cfg : FsConfig) (h : s.flashRc = []) :
    (superblockFlush cfg s).1 = 0 ∧ Persisted cfg (superblockFlush cfg s).2 := by
  have done : (superblockFlush cfg s).1 = 0 := by
    simp [superblockFlush, flashEraseSector, fsFlashSafe, h]
  exact ⟨done, superblockFlush_persisted cfg done⟩

/-- The superblock reads the same while its sector is left alone. -/
theorem readSuperblock_congr {flash flash' : Nat → UInt8}
    (h : ∀ a, InSuperblock a → flash' a = flash a) :
    readSuperblock cfg flash' = readSuperblock cfg flash := by
  have fits := cfg.superblockFits
  have word (k : Nat) (hk : k + 4 ≤ fsBlockSize) :
      loadWord flash' (superblockFlashOffset + k) = loadWord flash (superblockFlashOffset + k) := by
    have cell (j : Nat) (hj : k + j < fsBlockSize) :
        flash' (superblockFlashOffset + k + j) = flash (superblockFlashOffset + k + j) :=
      h _ (by simp only [InSector]; omega)
    have first := cell 0 (by omega)
    rw [Nat.add_zero] at first
    simp only [loadWord, first, cell 1 (by omega), cell 2 (by omega), cell 3 (by omega)]
  simp only [superblockHeader, entrySize] at fits
  simp only [readSuperblock, Superblock.mk.injEq]
  refine ⟨word 0 (by omega), word 4 (by omega), word 8 (by omega), ?_⟩
  funext i
  split
  next hi =>
    have inside : 12 + i * 32 + 32 ≤ fsBlockSize := by omega
    have name : ∀ k : Fin 16, flash' (superblockFlashOffset + 12 + i * 32 + 1 + k) =
        flash (superblockFlashOffset + 12 + i * 32 + 1 + k) := fun k =>
      h _ (by simp only [InSector]; omega)
    have field (k : Nat) (hk : k + 4 ≤ 32) :
        loadWord flash' (superblockFlashOffset + 12 + i * 32 + k) =
          loadWord flash (superblockFlashOffset + 12 + i * 32 + k) := by
      have := word (12 + i * 32 + k) (by omega)
      simpa only [Nat.add_assoc] using this
    simp only [readEntry, name, field 20 (by omega), field 24 (by omega), field 28 (by omega),
      h (superblockFlashOffset + 12 + i * 32) (by simp only [InSector]; omega)]
  · rfl

end PicoOS.Fs
