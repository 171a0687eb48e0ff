import PicoOS.Lib.Memory
import Mathlib

/-!
# Filesystem state

The module state of fs.c: the RAM mirror of the superblock, the single write
buffer with its owner, the open-descriptor table and the flash it all sits on.
Calls run under `fs_mutex`, so a call is one function on this state.
-/
namespace PicoOS.Fs

/-! ### Constants of fs.h and vfs.h -/

def fsNameMax : Nat := 16
def fsBlockSize : Nat := 4096
def fsFlashOffset : Nat := 1024 * 1024
def fsMaxFileData : Nat := fsBlockSize
def fsMaxOpenFds : Nat := 8
def fsSuperblockMagic : UInt32 := 0x50494353
def flashPageSize : Nat := 256

def vfsORdonly : UInt32 := 0x01
def vfsOWronly : UInt32 := 0x02
def vfsORdwr : UInt32 := 0x03
def vfsOCreat : UInt32 := 0x04
def vfsOTrunc : UInt32 := 0x08
def vfsOAppend : UInt32 := 0x10

/-- `mode & flag` as a C condition. -/
def hasFlag (mode flag : UInt32) : Bool := mode &&& flag != 0

/-- Header of `fs_superblock_t` and size of one `fs_entry_t`, in bytes. -/
def superblockHeader : Nat := 12
def entrySize : Nat := 32

/-- The build-time size of the directory, with the bound that fs.c asserts:
the superblock must fit in one sector. -/
structure FsConfig where
  fsMaxFiles : Nat
  superblockFits : superblockHeader + fsMaxFiles * entrySize ≤ fsBlockSize

/-- `sizeof(fs_superblock_t)` rounded up to whole flash pages. -/
def FsConfig.superblockProgSize (cfg : FsConfig) : Nat :=
  (superblockHeader + cfg.fsMaxFiles * entrySize + flashPageSize - 1) / flashPageSize * flashPageSize

/-! ### Names -/

/-- A C string: the bytes before its terminator. -/
def CStr : Type := { bytes : List UInt8 // 0 ∉ bytes }

namespace CStr

/-- The byte at index `k`, which is the terminator from the length on. -/
def byte (name : CStr) (k : Nat) : UInt8 := (name.val[k]?).getD 0

/-- `if (name[0] == '/') name++;` -/
def stripSlash (name : CStr) : CStr :=
  match name with
  | ⟨0x2F :: rest, h⟩ => ⟨rest, fun member => h (List.mem_cons_of_mem _ member)⟩
  | name => name

end CStr

/-- `strncmp(a, b, n) == 0`: equal bytes up to a common terminator or `n` bytes. -/
def strncmpEq (a b : Nat → UInt8) : Nat → Bool
  | 0 => true
  | n + 1 => a 0 == b 0 && (a 0 == 0 || strncmpEq (fun k => a (k + 1)) (fun k => b (k + 1)) n)

/-! ### Directory -/

/-- `fs_entry_t`. -/
structure FsEntry where
  used : Bool
  name : Vector UInt8 16
  size : UInt32
  startBlock : UInt32
  blockCount : UInt32
deriving DecidableEq

namespace FsEntry

/-- `memset(entry, 0, sizeof(fs_entry_t))` -/
def zero : FsEntry := ⟨false, Vector.replicate 16 0, 0, 0, 0⟩

def nameByte (e : FsEntry) (k : Nat) : UInt8 := (e.name[k]?).getD 0

end FsEntry

/-- `fs_superblock_t`; entries from `fsMaxFiles` on are never looked at. -/
structure Superblock where
  magic : UInt32
  version : UInt32
  fileCount : UInt32
  files : Nat → FsEntry

/-- The zero-initialised `superblock_store`. -/
def Superblock.zero : Superblock := ⟨0, 0, 0, fun _ => .zero⟩

/-- Two superblocks with the same header and the same `fsMaxFiles` entries. -/
structure Superblock.Agree (cfg : FsConfig) (a b : Superblock) : Prop where
  magic : a.magic = b.magic
  version : a.version = b.version
  fileCount : a.fileCount = b.fileCount
  files : ∀ i, i < cfg.fsMaxFiles → a.files i = b.files i

theorem Superblock.Agree.refl {cfg : FsConfig} (a : Superblock) : Agree cfg a a :=
  ⟨rfl, rfl, rfl, fun _ _ => rfl⟩

/-- `fs_open_fd_t`. -/
structure OpenFd where
  used : Bool
  dirty : Bool
  fileIdx : Nat
  pos : Nat
  mode : UInt32
deriving DecidableEq

def OpenFd.zero : OpenFd := ⟨false, false, 0, 0, 0⟩

/-- Module state of fs.c. `flashRc` lists the results of the coming
`flash_safe_execute` calls; once it is exhausted every call succeeds. -/
structure FsState where
  superblockRam : Superblock
  fsBuffer : Nat → UInt8
  scratchOwner : Option Nat
  openFds : Nat → OpenFd
  flash : Nat → UInt8
  flashRc : List Int

namespace FsState

/-- The state of a board at power-on: RAM is clear, flash is what it was. -/
def powerOn (flash : Nat → UInt8) (flashRc : List Int) : FsState where
  superblockRam := .zero
  fsBuffer := fun _ => 0
  scratchOwner := none
  openFds := fun _ => .zero
  flash := flash
  flashRc := flashRc

def setEntry (s : FsState) (i : Nat) (e : FsEntry) : FsState :=
  { s with superblockRam :=
    { s.superblockRam with files := Function.update s.superblockRam.files i e } }

def setFd (s : FsState) (fd : Nat) (ofd : OpenFd) : FsState :=
  { s with openFds := Function.update s.openFds fd ofd }

/-- Shorthand for `superblock_ram->files[i]`. -/
def entry (s : FsState) (i : Nat) : FsEntry := s.superblockRam.files i

end FsState

end PicoOS.Fs
