import PicoOS.Fs.Flash

/-!
# The filesystem calls

fs.c's entry points as functions from a state to a result and the next state.
The directory and descriptor searches return `none` for the code's -1.
-/
namespace PicoOS.Fs

/-! ### Internal helpers -/

/-- `find_file`: the first used entry whose name matches. -/
def findFile (cfg : FsConfig) (s : FsState) (name : CStr) : Option Nat :=
  (List.range cfg.fsMaxFiles).find? fun i =>
    (s.entry i).used && strncmpEq (s.entry i).nameByte name.byte fsNameMax

/-- `alloc_file_entry`: the first unused entry. -/
def allocFileEntry (cfg : FsConfig) (s : FsState) : Option Nat :=
  (List.range cfg.fsMaxFiles).find? fun i => !(s.entry i).used

/-- `alloc_open_fd`: the first unused descriptor. -/
def allocOpenFd (s : FsState) : Option Nat :=
  (List.range fsMaxOpenFds).find? fun fd => !(s.openFds fd).used

/-- The range check that every descriptor call starts with. -/
def validFd (s : FsState) (fd : Int) : Bool :=
  0 ≤ fd && fd < fsMaxOpenFds && (s.openFds fd.toNat).used

/-! ### Format and mount -/

/-- The loop of `fs_format` over every sector of the region; results are ignored. -/
def eraseSectors (count : Nat) (s : FsState) : FsState :=
  (List.range count).foldl
    (fun s k => (flashEraseSector (fsFlashOffset + k * fsBlockSize) s).2) s

def fsFormat (cfg : FsConfig) (s : FsState) : FsState :=
  let s := { s with
    openFds := fun fd =>
      if fd < fsMaxOpenFds then { s.openFds fd with used := false, dirty := false }
      else s.openFds fd
    scratchOwner := none }
  let s := eraseSectors (1 + cfg.fsMaxFiles) s
  let s := { s with superblockRam :=
    { Superblock.zero with magic := fsSuperblockMagic, version := 1, fileCount := 0 } }
  (superblockFlush cfg s).2

/-- The mount test of `fs_init`. -/
def mountable (cfg : FsConfig) (flash : Nat → UInt8) : Bool :=
  (readSuperblock cfg flash).magic == fsSuperblockMagic && (readSuperblock cfg flash).version == 1

def fsInit (cfg : FsConfig) (s : FsState) : FsState :=
  let s := { s with openFds := fun _ => OpenFd.zero, scratchOwner := none }
  if mountable cfg s.flash then { s with superblockRam := readSuperblock cfg s.flash }
  else fsFormat cfg s

/-! ### Open -/

/-- The new directory entry: `strncpy` keeps `fsNameMax - 1` bytes and a terminator. -/
def newEntry (i : Nat) (name : CStr) : FsEntry where
  used := true
  name := Vector.ofFn fun k => if k.val < fsNameMax - 1 then name.byte k else 0
  size := 0
  startBlock := UInt32.ofNat i
  blockCount := 1

/-- Fill entry `i`, count it and persist the directory at once. -/
def createEntry (cfg : FsConfig) (s : FsState) (i : Nat) (name : CStr) : FsState :=
  let s := s.setEntry i (newEntry i name)
  let s := { s with superblockRam :=
    { s.superblockRam with fileCount := s.superblockRam.fileCount + 1 } }
  (superblockFlush cfg s).2

/-- Find the file, or create it when the mode asks for that. -/
def lookupOrCreate (cfg : FsConfig) (s : FsState) (name : CStr) (mode : UInt32) :
    Option Nat × FsState :=
  match findFile cfg s name with
  | some i => (some i, s)
  | none =>
    if !hasFlag mode vfsOCreat then (none, s)
    else match allocFileEntry cfg s with
      | none => (none, s)
      | some i => (some i, createEntry cfg s i name)

/-- Claim the write buffer for file `i`: blank it, or preload the sector. -/
def claimBuffer (s : FsState) (i : Nat) (mode : UInt32) : FsState :=
  let s := { s with scratchOwner := some i }
  if hasFlag mode vfsOTrunc then
    { s with fsBuffer := Memory.fill s.fsBuffer 0 fsBlockSize 0 }.setEntry i
      { s.entry i with size := 0 }
  else
    { s with fsBuffer := Memory.copy s.fsBuffer 0 (fun k => s.flash (fileFlashOffset i + k)) fsBlockSize }

/-- The descriptor that a successful open installs. -/
def openedFd (s : FsState) (i : Nat) (mode : UInt32) : OpenFd where
  used := true
  dirty := false
  fileIdx := i
  pos := if hasFlag mode vfsOWronly && hasFlag mode vfsOAppend then (s.entry i).size.toNat else 0
  mode := mode

def fsOpen (cfg : FsConfig) (s : FsState) (name : Option CStr) (mode : UInt32) : Int × FsState :=
  match name with
  | none => (-1, s)
  | some name =>
    match lookupOrCreate cfg s name.stripSlash mode with
    | (none, s) => (-1, s)
    | (some i, s) =>
      let writing := hasFlag mode vfsOWronly
      if writing && s.scratchOwner.isSome then (-1, s)
      else
        let s := if writing then claimBuffer s i mode else s
        match allocOpenFd s with
        | none => (-1, if writing then { s with scratchOwner := none } else s)
        | some fd => (fd, s.setFd fd (openedFd s i mode))

/-! ### Read and write -/

/-- Where `fs_read` takes its bytes from: the buffer for the pending writer,
the file's sector through XIP for everyone else. -/
def readSource (s : FsState) (ofd : OpenFd) (len : Nat) : List UInt8 :=
  if s.scratchOwner = some ofd.fileIdx ∧ ofd.dirty then Memory.read s.fsBuffer ofd.pos len
  else Memory.read s.flash (fileFlashOffset ofd.fileIdx + ofd.pos) len

/-- `fs_read`; `buf` says whether the caller's pointer is non-NULL. The bytes
stored through it are the second result. -/
def fsRead (s : FsState) (fd : Int) (buf : Bool) (n : Nat) : Int × List UInt8 × FsState :=
  if !validFd s fd then (-1, [], s)
  else if !buf || n == 0 then (0, [], s)
  else
    let ofd := s.openFds fd.toNat
    let toRead := min n ((s.entry ofd.fileIdx).size.toNat - ofd.pos)
    if 0 < toRead then
      (toRead, readSource s ofd toRead, s.setFd fd.toNat { ofd with pos := ofd.pos + toRead })
    else (0, [], s)

/-- `fs_write`; `none` is a NULL buffer, otherwise `n` is the length of the data. -/
def fsWrite (s : FsState) (fd : Int) (buf : Option (List UInt8)) : Int × FsState :=
  if !validFd s fd then (-1, s)
  else match buf with
  | none => (0, s)
  | some data =>
    if data.length = 0 then (0, s)
    else
      let ofd := s.openFds fd.toNat
      let toWrite := min data.length (fsMaxFileData - ofd.pos)
      if hasFlag ofd.mode vfsOWronly && decide (0 < toWrite) then
        let e := s.entry ofd.fileIdx
        let pos := ofd.pos + toWrite
        let s := { s with fsBuffer := Memory.write s.fsBuffer ofd.pos (data.take toWrite) }
        let s := s.setFd fd.toNat { ofd with pos := pos, dirty := true }
        let s := if e.size.toNat < pos then s.setEntry ofd.fileIdx { e with size := UInt32.ofNat pos }
          else s
        (toWrite, s)
      else (-1, s)

/-! ### Close and delete -/

/-- The commit of `fs_close`: erase and program the data sector, release the
buffer, then persist the directory if the data went out. -/
def commit (cfg : FsConfig) (s : FsState) (i : Nat) : Int × FsState :=
  let (rc, s) := flashEraseSector (fileFlashOffset i) s
  let (rc, s) := if rc ≠ 0 then (rc, s) else flashProgramSector (fileFlashOffset i) s.fsBuffer s
  let s := { s with scratchOwner := none }
  if rc ≠ 0 then (-1, s)
  else
    let (rc, s) := superblockFlush cfg s
    (if rc ≠ 0 then -1 else 0, s)

def fsClose (cfg : FsConfig) (s : FsState) (fd : Int) : Int × FsState :=
  if !validFd s fd then (-1, s)
  else
    let ofd := s.openFds fd.toNat
    let (rc, s) := if ofd.dirty then commit cfg s ofd.fileIdx else (0, s)
    let s := if hasFlag ofd.mode vfsOWronly && s.scratchOwner == some ofd.fileIdx then
      { s with scratchOwner := none } else s
    (rc, s.setFd fd.toNat { ofd with used := false, dirty := false })

/-- Force-close every descriptor on file `i` and drop its claim on the buffer. -/
def forceClose (s : FsState) (i : Nat) : FsState :=
  { s with
    openFds := fun fd =>
      if fd < fsMaxOpenFds ∧ (s.openFds fd).used ∧ (s.openFds fd).fileIdx = i then
        { s.openFds fd with used := false, dirty := false }
      else s.openFds fd
    scratchOwner := if s.scratchOwner = some i then none else s.scratchOwner }

/-- `memset` the entry and uncount it. -/
def removeEntry (s : FsState) (i : Nat) : FsState :=
  let s := s.setEntry i FsEntry.zero
  if 0 < s.superblockRam.fileCount then
    { s with superblockRam := { s.superblockRam with fileCount := s.superblockRam.fileCount - 1 } }
  else s

def fsDelete (cfg : FsConfig) (s : FsState) (name : Option CStr) : Int × FsState :=
  match name with
  | none => (-1, s)
  | some name =>
    match findFile cfg s name.stripSlash with
    | none => (-1, s)
    | some i =>
      let s := removeEntry (forceClose s i) i
      let (rc, s) := flashEraseSector (fileFlashOffset i) s
      if rc ≠ 0 then (-1, s)
      else
        let (rc, s) := superblockFlush cfg s
        (if rc ≠ 0 then -1 else 0, s)

/-- `fs_list` with a callback that never stops: the used entries in order. -/
def fsList (cfg : FsConfig) (s : FsState) : List FsEntry :=
  ((List.range cfg.fsMaxFiles).map s.entry).filter (·.used)

end PicoOS.Fs
