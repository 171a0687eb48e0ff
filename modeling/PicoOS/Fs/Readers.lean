import PicoOS.Fs.Isolation
import Mathlib

/-!
# What a reader gets

The size a read goes by is the live one in RAM, the bytes come from flash unless
the descriptor is the dirty writer's own. The committed contents of the files are
followed along a run, and a read is compared with them and with what the writer
has in the buffer.
-/
namespace PicoOS.Fs

variable {cfg : FsConfig} {s s' : FsState} {i : Nat}

/-! ### Commits -/

theorem commit_erase_failed (failed : (flashEraseSector (fileFlashOffset i) s).1 ≠ 0) :
    commit cfg s i = (-1, { (flashEraseSector (fileFlashOffset i) s).2 with
      scratchOwner := none }) := by
  simp [commit, failed]

/-- Once the sector is erased and programmed it holds the buffer, whatever the flush does. -/
theorem commit_stored (erased : (flashEraseSector (fileFlashOffset i) s).1 = 0)
    (programmed : (flashProgramSector (fileFlashOffset i) s.fsBuffer
      (flashEraseSector (fileFlashOffset i) s).2).1 = 0) {k : Nat} (hk : k < fsBlockSize) :
    (commit cfg s i).2.flash (fileFlashOffset i + k) = s.fsBuffer k := by
  have buffer : (flashEraseSector (fileFlashOffset i) s).2.fsBuffer = s.fsBuffer := rfl
  have result : (commit cfg s i).2 = (superblockFlush cfg { (flashProgramSector (fileFlashOffset i)
      s.fsBuffer (flashEraseSector (fileFlashOffset i) s).2).2 with scratchOwner := none }).2 := by
    simp [commit, erased, programmed, buffer]
  rw [result, (superblockFlush_flashOnly cfg _).outside (inFile_add hk).not_superblock]
  have after_erase : (flashEraseSector (fileFlashOffset i) s).2.flash =
      flashRangeErase s.flash (fileFlashOffset i) fsBlockSize := if_pos erased
  have after_program : (flashProgramSector (fileFlashOffset i) s.fsBuffer
      (flashEraseSector (fileFlashOffset i) s).2).2.flash =
      flashRangeProgram (flashEraseSector (fileFlashOffset i) s).2.flash (fileFlashOffset i)
        s.fsBuffer fsBlockSize := if_pos programmed
  dsimp only
  rw [after_program, after_erase]
  exact program_erased _ _ _ _ _ (Nat.le_refl _) _ hk

theorem fsClose_flash {fd : Int} (valid : validFd s fd = true)
    (dirty : (s.openFds fd.toNat).dirty = true) :
    (fsClose cfg s fd).2.flash = (commit cfg s (s.openFds fd.toNat).fileIdx).2.flash := by
  unfold fsClose
  rw [valid, Bool.not_true, if_neg Bool.false_ne_true]
  simp only [dirty, if_true, setFd_flash]
  split <;> rfl

/-! ### Committed contents -/

/-- The bytes of every file that its last commit has put on flash. -/
abbrev Committed := Nat → List UInt8

/-- The sectors begin with the committed bytes. -/
def Stored (t : FsState × Committed) : Prop :=
  ∀ i, (t.2 i).length ≤ fsBlockSize ∧
    Memory.read t.1.flash (fileFlashOffset i) (t.2 i).length = t.2 i

/-! ### One event -/

/-- The part of `content` that a read of `len` bytes at `pos` gets. -/
def segment (content : List UInt8) (pos len : Nat) : List UInt8 := (content.drop pos).take len

theorem segment_read (m : Nat → UInt8) (off : Nat) {length pos len : Nat}
    (inside : pos + len ≤ length) :
    segment (Memory.read m off length) pos len = Memory.read m (off + pos) len := by
  rw [segment, Memory.drop_read _ _ _ _ (by omega), Memory.take_read, Nat.min_eq_left (by omega)]

end PicoOS.Fs
