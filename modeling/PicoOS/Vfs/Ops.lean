import PicoOS.Fs.Ops

/-!
# The virtual filesystem

vfs.c keeps its own descriptor table on top of the one in fs.c. A path is looked
up among the mounted devices first; any other path goes to the filesystem.
Calls run under `vfs_lock`, so a call is one function on the joint state.
-/
namespace PicoOS.Vfs

open Fs

def vfsMaxOpen : Nat := 16
def vfsPathMax : Nat := 64
def vfsMaxDevMounts : Nat := 8

/-- The id past the last device of dev.c, without the optional display and LED. -/
def devCount : Nat := 4

/-- The device manager of dev.c over the devices' own state: any drivers, as the
hardware answers them. Buffers are passed on as the caller gave them. -/
structure Drivers (δ : Type) where
  devOpen : Nat → δ → Int × δ
  devRead : Nat → Bool → Nat → δ → (Int × List UInt8) × δ
  devWrite : Nat → Option (List UInt8) → δ → Int × δ
  devClose : Nat → δ → δ

inductive VfsType where
  | file
  | dev
deriving DecidableEq

/-- `vfs_fd_t`. -/
structure VfsFd where
  used : Bool
  type : VfsType
  pos : UInt32
  devId : Nat
  fsFileId : Nat
  mode : UInt32
deriving DecidableEq

def VfsFd.zero : VfsFd := ⟨false, .file, 0, 0, 0, 0⟩

/-- A used entry of `dev_mounts`; entries are never given back. -/
structure DevMount where
  path : CStr
  id : Nat

/-- Module state of vfs.c with the filesystem and the devices below it. -/
structure VfsState (δ : Type) where
  devMounts : List DevMount
  fdTable : Nat → VfsFd
  fs : FsState
  devices : δ

variable {δ : Type}

/-- `strncpy` to a path field keeps `vfsPathMax - 1` bytes. -/
def storedPath (path : CStr) : CStr :=
  ⟨path.val.take (vfsPathMax - 1), fun h => path.property (List.mem_of_mem_take h)⟩

def vfsMountDev (s : VfsState δ) (path : CStr) (id : Nat) : Int × VfsState δ :=
  if s.devMounts.length < vfsMaxDevMounts then
    (0, { s with devMounts := s.devMounts ++ [⟨storedPath path, id⟩] })
  else (-1, s)

/-- `vfs_init` with the device paths that it registers. -/
def vfsInit (s : VfsState δ) (devs : List (CStr × Nat)) : VfsState δ :=
  devs.foldl (fun s dev => (vfsMountDev s dev.1 dev.2).2)
    { s with fdTable := fun _ => VfsFd.zero, devMounts := [] }

/-- `fd_alloc`: the first free descriptor. -/
def fdAlloc (s : VfsState δ) : Option Nat :=
  (List.range vfsMaxOpen).find? fun fd => !(s.fdTable fd).used

/-- `dev_mount_find`. -/
def devMountFind (s : VfsState δ) (path : CStr) : Option Nat :=
  (s.devMounts.find? fun m => strncmpEq m.path.byte path.byte vfsPathMax).map (·.id)

def setFdEntry (s : VfsState δ) (fd : Nat) (f : VfsFd) : VfsState δ :=
  { s with fdTable := Function.update s.fdTable fd f }

def vfsOpen (cfg : FsConfig) (drivers : Drivers δ) (s : VfsState δ) (path : Option CStr)
    (mode : UInt32) : Int × VfsState δ :=
  match path with
  | none => (-1, s)
  | some path =>
    match fdAlloc s with
    | none => (-1, s)
    | some fd =>
      match devMountFind s path with
      | some id =>
        let (rc, devices) := drivers.devOpen id s.devices
        let s := { s with devices := devices }
        if rc < 0 then (-1, s)
        else (fd, setFdEntry s fd ⟨true, .dev, 0, id, 0, mode⟩)
      | none =>
        let (fsFd, fs) := fsOpen cfg s.fs (some path) mode
        let s := { s with fs := fs }
        if fsFd < 0 then (-1, s)
        else (fd, setFdEntry s fd ⟨true, .file, 0, devCount, fsFd.toNat, mode⟩)

/-- The range check of every descriptor call. -/
def validVfsFd (s : VfsState δ) (fd : Int) : Bool :=
  0 ≤ fd && fd < vfsMaxOpen && (s.fdTable fd.toNat).used

/-- The position that vfs.c keeps for itself after a transfer. -/
def advance (f : VfsFd) (result : Int) : VfsFd :=
  if 0 < result then { f with pos := f.pos + UInt32.ofNat result.toNat } else f

def vfsRead (drivers : Drivers δ) (s : VfsState δ) (fd : Int) (buf : Bool) (n : Nat) :
    Int × List UInt8 × VfsState δ :=
  if !validVfsFd s fd then (-1, [], s)
  else
    let f := s.fdTable fd.toNat
    match f.type with
    | .dev =>
      let ((rc, bytes), devices) := drivers.devRead f.devId buf n s.devices
      (rc, bytes, { s with devices := devices })
    | .file =>
      let (result, bytes, fs) := fsRead s.fs f.fsFileId buf n
      (result, bytes, setFdEntry { s with fs := fs } fd.toNat (advance f result))

def vfsWrite (drivers : Drivers δ) (s : VfsState δ) (fd : Int) (buf : Option (List UInt8)) :
    Int × VfsState δ :=
  if !validVfsFd s fd then (-1, s)
  else
    let f := s.fdTable fd.toNat
    match f.type with
    | .dev =>
      let (rc, devices) := drivers.devWrite f.devId buf s.devices
      (rc, { s with devices := devices })
    | .file =>
      let (result, fs) := fsWrite s.fs f.fsFileId buf
      (result, setFdEntry { s with fs := fs } fd.toNat (advance f result))

def vfsClose (cfg : FsConfig) (drivers : Drivers δ) (s : VfsState δ) (fd : Int) :
    Int × VfsState δ :=
  if !validVfsFd s fd then (-1, s)
  else
    let f := s.fdTable fd.toNat
    let (rc, s) : Int × VfsState δ := match f.type with
      | .dev => (0, { s with devices := drivers.devClose f.devId s.devices })
      | .file =>
        let (rc, fs) := fsClose cfg s.fs f.fsFileId
        (rc, { s with fs := fs })
    (rc, setFdEntry s fd.toNat { f with used := false })

end PicoOS.Vfs
