import PicoOS.Fs.State

/-!
# Flash sectors and the on-flash superblock

Erase and program run through `fs_flash_safe`, which either runs its callback
or returns an error without touching flash. The superblock is kept on flash in
its C layout; `readSuperblock` inverts `superblockPages`.
-/
namespace PicoOS.Fs

/-! ### Flash operations -/

/-- `FILE_FLASH_OFFSET(n)`: sector 0 is the superblock, sector `n + 1` is file `n`. -/
def fileFlashOffset (n : Nat) : Nat := fsFlashOffset + (n + 1) * fsBlockSize

def superblockFlashOffset : Nat := fsFlashOffset

/-- `flash_range_erase`: erased cells read 0xFF. -/
def flashRangeErase (flash : Nat → UInt8) (offset len : Nat) : Nat → UInt8 :=
  Memory.fill flash offset len 0xFF

/-- `flash_range_program`: programming can only clear bits. -/
def flashRangeProgram (flash : Nat → UInt8) (offset : Nat) (src : Nat → UInt8) (len : Nat) :
    Nat → UInt8 :=
  Memory.copy flash offset (fun k => flash (offset + k) &&& src k) len

/-- `fs_flash_safe`: run `fn` on flash, or report the SDK's error code. -/
def fsFlashSafe (fn : (Nat → UInt8) → Nat → UInt8) (s : FsState) : Int × FsState :=
  let rc := s.flashRc.headD 0
  (rc, { s with flashRc := s.flashRc.tail, flash := if rc = 0 then fn s.flash else s.flash })

def flashEraseSector (flashOffset : Nat) (s : FsState) : Int × FsState :=
  fsFlashSafe (fun flash => flashRangeErase flash flashOffset fsBlockSize) s

def flashProgramSector (flashOffset : Nat) (src : Nat → UInt8) (s : FsState) : Int × FsState :=
  fsFlashSafe (fun flash => flashRangeProgram flash flashOffset src fsBlockSize) s

/-! ### The superblock image -/

/-- Byte `k` of a little-endian 32-bit word. -/
def wordByte (w : UInt32) (k : Nat) : UInt8 := UInt8.ofNat (w.toNat / 256 ^ k)

/-- A little-endian 32-bit load. -/
def loadWord (m : Nat → UInt8) (off : Nat) : UInt32 :=
  UInt32.ofNat ((m off).toNat + (m (off + 1)).toNat * 256 + (m (off + 2)).toNat * 256 ^ 2 +
    (m (off + 3)).toNat * 256 ^ 3)

/-- Byte `k` of an `fs_entry_t`: used at 0, name at 1, words at 20, 24 and 28. -/
def entryByte (e : FsEntry) (k : Nat) : UInt8 :=
  if k = 0 then (if e.used then 1 else 0)
  else if k < 17 then e.nameByte (k - 1)
  else if k < 20 then 0
  else if k < 24 then wordByte e.size (k - 20)
  else if k < 28 then wordByte e.startBlock (k - 24)
  else wordByte e.blockCount (k - 28)

/-- `superblock_store.pages`: the superblock followed by zero padding. -/
def superblockPages (cfg : FsConfig) (sb : Superblock) (k : Nat) : UInt8 :=
  if k < 4 then wordByte sb.magic k
  else if k < 8 then wordByte sb.version (k - 4)
  else if k < 12 then wordByte sb.fileCount (k - 8)
  else if (k - 12) / 32 < cfg.fsMaxFiles then entryByte (sb.files ((k - 12) / 32)) ((k - 12) % 32)
  else 0

def readEntry (m : Nat → UInt8) (off : Nat) : FsEntry where
  used := m off != 0
  name := Vector.ofFn fun k => m (off + 1 + k)
  size := loadWord m (off + 20)
  startBlock := loadWord m (off + 24)
  blockCount := loadWord m (off + 28)

/-- The superblock read through XIP at `SUPERBLOCK_FLASH_OFFSET`. -/
def readSuperblock (cfg : FsConfig) (flash : Nat → UInt8) : Superblock where
  magic := loadWord flash superblockFlashOffset
  version := loadWord flash (superblockFlashOffset + 4)
  fileCount := loadWord flash (superblockFlashOffset + 8)
  files i := if i < cfg.fsMaxFiles then readEntry flash (superblockFlashOffset + 12 + i * 32) else .zero

/-- `superblock_flush`: erase the sector, then program the page-padded mirror. -/
def superblockFlush (cfg : FsConfig) (s : FsState) : Int × FsState :=
  let (rc, s) := flashEraseSector superblockFlashOffset s
  if rc ≠ 0 then (-1, s)
  else
    let (rc, s) := fsFlashSafe (fun flash => flashRangeProgram flash superblockFlashOffset
      (superblockPages cfg s.superblockRam) cfg.superblockProgSize) s
    (if rc ≠ 0 then -1 else 0, s)

/-! ### Round trip -/

theorem loadWord_wordByte (m : Nat → UInt8) (off : Nat) (w : UInt32)
    (h : ∀ k, k < 4 → m (off + k) = wordByte w k) : loadWord m off = w := by
  have bound := w.toNat_lt
  have h0 := h 0 (by omega)
  have h1 := h 1 (by omega)
  have h2 := h 2 (by omega)
  have h3 := h 3 (by omega)
  simp only [Nat.add_zero] at h0
  apply UInt32.toNat.inj
  simp only [loadWord, h0, h1, h2, h3, wordByte, UInt8.toNat_ofNat', UInt32.toNat_ofNat']
  omega

theorem readEntry_entryByte (m : Nat → UInt8) (off : Nat) (e : FsEntry)
    (h : ∀ k, k < 32 → m (off + k) = entryByte e k) : readEntry m off = e := by
  have word (base : Nat) (w : UInt32) (fits : base + 4 ≤ 32)
      (layout : ∀ k, k < 4 → entryByte e (base + k) = wordByte w k) :
      loadWord m (off + base) = w := by
    apply loadWord_wordByte
    intro k hk
    rw [Nat.add_assoc, h _ (by omega), layout k hk]
  have used : (m off != 0) = e.used := by
    have first : m off = entryByte e 0 := h 0 (by omega)
    cases flag : e.used <;> simp [first, entryByte, flag]
  have name : (Vector.ofFn fun k : Fin 16 => m (off + 1 + k)) = e.name := by
    ext k hk
    rw [Vector.getElem_ofFn, Nat.add_assoc, h _ (by omega)]
    simp [entryByte, FsEntry.nameByte, hk, show 1 + k < 17 by omega]
  have size := word 20 e.size (by omega) fun k hk => by
    simp [entryByte, show ¬ 20 + k < 17 by omega, show ¬ 20 + k < 20 by omega,
      show 20 + k < 24 by omega]
  have start := word 24 e.startBlock (by omega) fun k hk => by
    simp [entryByte, show ¬ 24 + k < 17 by omega, show ¬ 24 + k < 20 by omega,
      show ¬ 24 + k < 24 by omega, show 24 + k < 28 by omega]
  have count := word 28 e.blockCount (by omega) fun k hk => by
    simp [entryByte, show ¬ 28 + k < 17 by omega, show ¬ 28 + k < 20 by omega,
      show ¬ 28 + k < 24 by omega, show ¬ 28 + k < 28 by omega]
  simp only [readEntry, used, name, size, start, count]

/-- Programming an erased block stores the source. -/
theorem program_erased (flash src : Nat → UInt8) (offset len size : Nat) (fits : len ≤ size)
    (k : Nat) (h : k < len) :
    flashRangeProgram (flashRangeErase flash offset size) offset src len (offset + k) = src k := by
  have erased : flashRangeErase flash offset size (offset + k) = 0xFF :=
    Memory.fill_inside _ _ _ _ _ (by omega) (by omega)
  rw [flashRangeProgram, Memory.copy_inside _ _ _ _ _ (by omega) (by omega), Nat.add_sub_cancel_left,
    erased]
  apply UInt8.toBitVec_inj.mp
  exact BitVec.allOnes_and

theorem FsConfig.superblock_covered (cfg : FsConfig) :
    12 + cfg.fsMaxFiles * 32 ≤ cfg.superblockProgSize ∧ cfg.superblockProgSize ≤ fsBlockSize := by
  have fits := cfg.superblockFits
  simp only [superblockProgSize, superblockHeader, entrySize, flashPageSize, fsBlockSize] at *
  omega

/-- Round trip: flash that holds the pages of a superblock reads back as it. -/
theorem readSuperblock_of_pages (cfg : FsConfig) (flash : Nat → UInt8) (sb : Superblock)
    (h : ∀ k, k < 12 + cfg.fsMaxFiles * 32 →
      flash (superblockFlashOffset + k) = superblockPages cfg sb k) :
    (readSuperblock cfg flash).Agree cfg sb := by
  refine ⟨?_, ?_, ?_, ?_⟩
  · apply loadWord_wordByte
    intro k hk
    rw [h k (by omega)]
    simp [superblockPages, hk]
  · apply loadWord_wordByte
    intro k hk
    rw [Nat.add_assoc, h _ (by omega)]
    simp [superblockPages, show ¬ 4 + k < 4 by omega, show 4 + k < 8 by omega]
  · apply loadWord_wordByte
    intro k hk
    rw [Nat.add_assoc, h _ (by omega)]
    simp [superblockPages, show ¬ 8 + k < 4 by omega, show ¬ 8 + k < 8 by omega,
      show 8 + k < 12 by omega]
  · intro i hi
    simp only [readSuperblock, hi, if_true]
    apply readEntry_entryByte
    intro k hk
    rw [Nat.add_assoc, Nat.add_assoc, h _ (by omega)]
    have index : (12 + (i * 32 + k) - 12) / 32 = i := by omega
    have offset : (12 + (i * 32 + k) - 12) % 32 = k := by omega
    simp only [superblockPages, index, offset, hi, if_true]
    rw [if_neg (by omega), if_neg (by omega), if_neg (by omega)]

end PicoOS.Fs
