import PicoOS.Fs.Isolation
import PicoOS.Fs.Slots
import PicoOS.Vfs.Ops

/-!
# VFS descriptors and the slots below them

A VFS descriptor refers to a slot of `open_fds`. Deleting its file, formatting or
a direct `fs_close` frees the slot without telling the VFS, and the next open may
take it. The trace remembers which file each descriptor was opened on.
-/
namespace PicoOS.Vfs

open Fs

variable {δ : Type} {cfg : FsConfig} {drivers : Drivers δ}

/-! ### Runs with the origin of each descriptor -/

/-- The calls of both layers. -/
inductive VfsOp where
  | open (path : Option CStr) (mode : UInt32)
  | read (fd : Int) (buf : Bool) (n : Nat)
  | write (fd : Int) (buf : Option (List UInt8))
  | close (fd : Int)
  | fs (op : FsOp)
  | format

def vfsStep (cfg : FsConfig) (drivers : Drivers δ) (s : VfsState δ) : VfsOp → VfsState δ
  | .open path mode => (vfsOpen cfg drivers s path mode).2
  | .read fd buf n => (vfsRead drivers s fd buf n).2.2
  | .write fd buf => (vfsWrite drivers s fd buf).2
  | .close fd => (vfsClose cfg drivers s fd).2
  | .fs op => { s with fs := step cfg s.fs op }
  | .format => { s with fs := fsFormat cfg s.fs }

/-- The result a call on a VFS descriptor returns. -/
def vfsResult (cfg : FsConfig) (drivers : Drivers δ) (s : VfsState δ) : VfsOp → Int
  | .open path mode => (vfsOpen cfg drivers s path mode).1
  | .read fd buf n => (vfsRead drivers s fd buf n).1
  | .write fd buf => (vfsWrite drivers s fd buf).1
  | .close fd => (vfsClose cfg drivers s fd).1
  | .fs _ => 0
  | .format => 0

/-- A state with the file that each VFS descriptor was opened on, as long as that
file exists. -/
structure Traced (δ : Type) where
  vfs : VfsState δ
  origin : Nat → Option Nat

/-- The file behind the slot of descriptor `f`. -/
def slotFile (s : VfsState δ) (f : Nat) : Option Nat := fdFile s.fs ((s.fdTable f).fsFileId : Int)

/-- A successful open records the file; deleting and formatting end files. -/
def traceOrigin (cfg : FsConfig) (drivers : Drivers δ) (t : Traced δ) : VfsOp → Nat → Option Nat
  | .open path mode =>
    let (fd, s) := vfsOpen cfg drivers t.vfs path mode
    if 0 ≤ fd then Function.update t.origin fd.toNat (slotFile s fd.toNat) else t.origin
  | .fs (.delete name) => fun f =>
    if t.origin f = target cfg t.vfs.fs (.delete name) then none else t.origin f
  | .format => fun _ => none
  | _ => t.origin

def traceStep (cfg : FsConfig) (drivers : Drivers δ) (t : Traced δ) (op : VfsOp) : Traced δ where
  vfs := vfsStep cfg drivers t.vfs op
  origin := traceOrigin cfg drivers t op

/-- An open descriptor that refers to the filesystem. -/
def OnFile (s : VfsState δ) (f : Nat) : Prop :=
  (s.fdTable f).used = true ∧ (s.fdTable f).type = .file

/-- The slot of every open descriptor is free, or holds the file it was opened on. -/
def Isolated (t : Traced δ) : Prop :=
  ∀ f, OnFile t.vfs f → ∀ i, slotFile t.vfs f = some i → t.origin f = some i

/-! ### One call -/

/-- The slot and the file of the `fs_open` that a call is about to make, if it makes
one that succeeds. -/
def takenSlot (cfg : FsConfig) (s : VfsState δ) : VfsOp → Option (Nat × Nat)
  | .open (some path) mode =>
    if (fdAlloc s).isSome && (devMountFind s path).isNone then openSlot cfg s.fs (some path) mode
    else none
  | .fs (.open name mode) => openSlot cfg s.fs name mode
  | _ => none

/-- The call takes no slot that an open VFS descriptor still refers to, unless for
the very file that descriptor was opened on. -/
def TakesFreshSlot (cfg : FsConfig) (t : Traced δ) (op : VfsOp) : Prop :=
  ∀ k i, takenSlot cfg t.vfs op = some (k, i) →
    ∀ f, OnFile t.vfs f → (t.vfs.fdTable f).fsFileId = k → t.origin f = some i

theorem fdAlloc_some {s : VfsState δ} {fd : Nat} (h : fdAlloc s = some fd) :
    fd < vfsMaxOpen ∧ (s.fdTable fd).used = false := by
  have found := List.find?_some h
  have member := List.mem_of_find?_eq_some h
  simp only [Bool.not_eq_true', List.mem_range] at found member
  exact ⟨member, found⟩

@[simp] theorem setFdEntry_fdTable (s : VfsState δ) (fd k : Nat) (f : VfsFd) :
    (setFdEntry s fd f).fdTable k = if k = fd then f else s.fdTable k := by
  simp [setFdEntry, Function.update_apply]

@[simp] theorem setFdEntry_fs (s : VfsState δ) (fd : Nat) (f : VfsFd) :
    (setFdEntry s fd f).fs = s.fs := rfl

/-- The outcomes of `vfs_open`, as far as descriptors and slots go. -/
inductive VfsOpened (cfg : FsConfig) (s : VfsState δ) (path : Option CStr) (mode : UInt32) :
    Int × VfsState δ → Prop
  | failed {r} (none : takenSlot cfg s (.open path mode) = none) (result : r.1 = -1)
      (table : r.2.fdTable = s.fdTable) (slots : r.2.fs.openFds = s.fs.openFds) :
      VfsOpened cfg s path mode r
  | device {r} {fd : Nat} {f} (none : takenSlot cfg s (.open path mode) = none) (free : fdAlloc s = some fd)
      (result : r.1 = (fd : Int)) (type : f.type = .dev)
      (table : r.2.fdTable = Function.update s.fdTable fd f)
      (slots : r.2.fs.openFds = s.fs.openFds) : VfsOpened cfg s path mode r
  | file {r} {fd : Nat} {f k i ofd} (taken : takenSlot cfg s (.open path mode) = some (k, i))
      (free : fdAlloc s = some fd) (result : r.1 = (fd : Int)) (slot : f.fsFileId = k)
      (table : r.2.fdTable = Function.update s.fdTable fd f) (bound : k < fsMaxOpenFds)
      (used : ofd.used = true) (file : ofd.fileIdx = i)
      (slots : r.2.fs.openFds = Function.update s.fs.openFds k ofd) : VfsOpened cfg s path mode r

theorem vfsOpen_cases (cfg : FsConfig) (drivers : Drivers δ) (s : VfsState δ) (path : Option CStr) (mode : UInt32) :
    VfsOpened cfg s path mode (vfsOpen cfg drivers s path mode) := by
  cases path with
  | none => exact .failed rfl rfl rfl rfl
  | some path =>
    simp only [vfsOpen]
    cases alloc : fdAlloc s with
    | none => exact .failed (by simp [takenSlot, alloc]) rfl rfl rfl
    | some fd =>
      cases mount : devMountFind s path with
      | some id =>
        have none : takenSlot cfg s (.open (some path) mode) = none := by
          simp [takenSlot, mount]
        dsimp only
        split
        · exact .failed none rfl rfl rfl
        · exact .device none alloc rfl (f := ⟨true, .dev, 0, id, 0, mode⟩) rfl rfl rfl
      | none =>
        have taken : takenSlot cfg s (.open (some path) mode) = openSlot cfg s.fs (some path) mode := by
          simp [takenSlot, alloc, mount]
        dsimp only
        rcases fsOpen_slot cfg s.fs (some path) mode with
          ⟨none, result, slots⟩ | ⟨k, i, ofd, some, result, bound, used, file, slots⟩
        · rw [if_pos (by rw [result]; decide)]
          exact .failed (taken.trans none) rfl rfl slots
        · rw [if_neg (by rw [result]; omega)]
          exact .file (taken.trans some) alloc rfl (by rw [result]; rfl) rfl bound used file slots

/-- The filesystem call behind a call on VFS descriptor `fd`, if there is one. -/
def behind (s : VfsState δ) (fd : Int) (call : Int → FsOp) : Option FsOp :=
  if validVfsFd s fd && (s.fdTable fd.toNat).type == .file then
    some (call (s.fdTable fd.toNat).fsFileId)
  else none

def fsCall (s : VfsState δ) : VfsOp → Option FsOp
  | .read fd buf n => behind s fd (.read · buf n)
  | .write fd buf => behind s fd (.write · buf)
  | .close fd => behind s fd .close
  | .fs op => some op
  | _ => none

@[simp] theorem advance_used (f : VfsFd) (result : Int) : (advance f result).used = f.used := by
  unfold advance
  split <;> rfl

@[simp] theorem advance_type (f : VfsFd) (result : Int) : (advance f result).type = f.type := by
  unfold advance
  split <;> rfl

@[simp] theorem advance_fsFileId (f : VfsFd) (result : Int) :
    (advance f result).fsFileId = f.fsFileId := by
  unfold advance
  split <;> rfl

/-- Replacing an open descriptor by one that refers to the same slot, or by a closed one. -/
theorem onFile_setFdEntry {s : VfsState δ} {fd f : Nat} {e : VfsFd}
    (kept : e.used = true → (s.fdTable fd).used = true ∧ e.type = (s.fdTable fd).type)
    (slot : e.fsFileId = (s.fdTable fd).fsFileId) (h : OnFile (setFdEntry s fd e) f) :
    OnFile s f ∧ ((setFdEntry s fd e).fdTable f).fsFileId = (s.fdTable f).fsFileId := by
  rw [OnFile, setFdEntry_fdTable] at h
  rw [setFdEntry_fdTable]
  split at h
  next eq =>
    subst eq
    obtain ⟨used, type⟩ := kept h.1
    rw [if_pos rfl]
    exact ⟨⟨used, type ▸ h.2⟩, slot⟩
  next ne => exact ⟨h, by rw [if_neg ne]⟩

/-- A call other than an open and a format makes the filesystem call behind it and
keeps the slot of every descriptor that stays open. -/
theorem vfsStep_call (cfg : FsConfig) (drivers : Drivers δ) (s : VfsState δ) {op : VfsOp}
    (notOpen : ∀ path mode, op ≠ .open path mode) (notFormat : op ≠ .format) :
    (vfsStep cfg drivers s op).fs = (match fsCall s op with
      | some call => step cfg s.fs call
      | none => s.fs) ∧
    ∀ f, OnFile (vfsStep cfg drivers s op) f →
      OnFile s f ∧ ((vfsStep cfg drivers s op).fdTable f).fsFileId = (s.fdTable f).fsFileId := by
  cases op with
  | «open» path mode => exact absurd rfl (notOpen path mode)
  | format => exact absurd rfl notFormat
  | fs op => exact ⟨rfl, fun f h => ⟨h, rfl⟩⟩
  | read fd buf n =>
    simp only [vfsStep, vfsRead, fsCall, behind]
    cases valid : validVfsFd s fd with
    | false => exact ⟨rfl, fun f h => ⟨h, rfl⟩⟩
    | true =>
      cases type : (s.fdTable fd.toNat).type with
      | dev => exact ⟨rfl, fun f h => ⟨h, rfl⟩⟩
      | file =>
        exact ⟨rfl, fun f => onFile_setFdEntry (s := { s with fs := _ })
          (by simp) (by simp)⟩
  | write fd buf =>
    simp only [vfsStep, vfsWrite, fsCall, behind]
    cases valid : validVfsFd s fd with
    | false => exact ⟨rfl, fun f h => ⟨h, rfl⟩⟩
    | true =>
      cases type : (s.fdTable fd.toNat).type with
      | dev => exact ⟨rfl, fun f h => ⟨h, rfl⟩⟩
      | file =>
        exact ⟨rfl, fun f => onFile_setFdEntry (s := { s with fs := _ })
          (by simp) (by simp)⟩
  | close fd =>
    simp only [vfsStep, vfsClose, fsCall, behind]
    cases valid : validVfsFd s fd with
    | false => exact ⟨rfl, fun f h => ⟨h, rfl⟩⟩
    | true =>
      cases type : (s.fdTable fd.toNat).type with
      | dev =>
        exact ⟨rfl, fun f => onFile_setFdEntry (s := { s with devices := _ }) (by simp) rfl⟩
      | file => exact ⟨rfl, fun f => onFile_setFdEntry (s := { s with fs := _ }) (by simp) rfl⟩

/-! ### Isolation, one call -/

/-- Slots that are at most freed keep descriptors isolated. -/
theorem Isolated.of_freed {t t' : Traced δ} (h : Isolated t)
    (table : ∀ f, OnFile t'.vfs f → OnFile t.vfs f ∧
      (t'.vfs.fdTable f).fsFileId = (t.vfs.fdTable f).fsFileId)
    (slots : ∀ f i, slotFile t'.vfs f = some i →
      fdFile t.vfs.fs ((t'.vfs.fdTable f).fsFileId : Int) = some i ∧
        (t.origin f = some i → t'.origin f = some i)) : Isolated t' := by
  intro f onFile i file
  obtain ⟨before, same⟩ := table f onFile
  obtain ⟨fileBefore, origin⟩ := slots f i file
  rw [same] at fileBefore
  exact origin (h f before i fileBefore)

theorem fdFile_update {s s' : FsState} {k : Nat} {ofd : OpenFd} (bound : k < fsMaxOpenFds)
    (used : ofd.used = true) (slots : s'.openFds = Function.update s.openFds k ofd) (j : Nat) :
    fdFile s' (j : Int) = if j = k then some ofd.fileIdx else fdFile s (j : Int) := by
  split
  next eq =>
    subst eq
    have here : s'.openFds j = ofd := by rw [slots, Function.update_self]
    rw [fdFile_eq_some, validFd_iff]
    simp only [Int.toNat_natCast, here]
    exact ⟨⟨Int.natCast_nonneg j, bound, used⟩, trivial⟩
  next ne =>
    apply fdFile_congr
    simp only [Int.toNat_natCast, slots, Function.update_of_ne ne]

/-- Taking slot `k` for file `i` keeps descriptors isolated exactly when the open
descriptors that refer to `k` were opened on `i`. -/
theorem isolated_taken_iff {t t' : Traced δ} {k i : Nat} (h : Isolated t)
    (slots : ∀ j : Nat, fdFile t'.vfs.fs (j : Int) =
      if j = k then some i else fdFile t.vfs.fs (j : Int))
    (old : ∀ f, OnFile t.vfs f → OnFile t'.vfs f ∧
      (t'.vfs.fdTable f).fsFileId = (t.vfs.fdTable f).fsFileId ∧ t'.origin f = t.origin f)
    (new : ∀ f, OnFile t'.vfs f → OnFile t.vfs f ∨ t'.origin f = some i ∧
      (t'.vfs.fdTable f).fsFileId = k) :
    Isolated t' ↔
      ∀ f, OnFile t.vfs f → (t.vfs.fdTable f).fsFileId = k → t.origin f = some i := by
  constructor
  · intro isolated f onFile refers
    obtain ⟨still, same, origin⟩ := old f onFile
    rw [← origin]
    refine isolated f still i ?_
    rw [slotFile, slots, if_pos (same.trans refers)]
  · intro fresh f onFile j file
    rw [slotFile, slots] at file
    rcases new f onFile with before | ⟨origin, refers⟩
    · obtain ⟨-, same, origin⟩ := old f before
      rw [origin]
      split at file
      next eq => exact file ▸ fresh f before (same ▸ eq)
      next ne => exact h f before j (by rw [slotFile, ← same]; exact file)
    · rw [if_pos refers] at file
      exact origin.trans file

theorem takesFreshSlot_of_none {t : Traced δ} {op : VfsOp} (none : takenSlot cfg t.vfs op = none) :
    TakesFreshSlot cfg t op := by
  intro k i taken
  rw [none] at taken
  cases taken

theorem takesFreshSlot_iff {t : Traced δ} {op : VfsOp} {k i : Nat}
    (taken : takenSlot cfg t.vfs op = some (k, i)) : TakesFreshSlot cfg t op ↔
      ∀ f, OnFile t.vfs f → (t.vfs.fdTable f).fsFileId = k → t.origin f = some i := by
  constructor
  · exact fun fresh => fresh k i taken
  · intro all k' i' taken'
    cases taken.symm.trans taken'
    exact all

theorem fsCall_not_open {s : VfsState δ} {op : VfsOp} {call : FsOp}
    (notFsOpen : ∀ name mode, op ≠ .fs (.open name mode)) (h : fsCall s op = some call)
    (name : Option CStr) (mode : UInt32) : call ≠ .open name mode := by
  rintro rfl
  cases op with
  | fs op => exact notFsOpen name mode (congrArg VfsOp.fs (Option.some.inj h))
  | «open» path mode => cases h
  | format => cases h
  | read fd buf n => simp [fsCall, behind] at h
  | write fd buf => simp [fsCall, behind] at h
  | close fd => simp [fsCall, behind] at h

/-- The recorded file of a descriptor stays while its slot holds that file. -/
theorem traceOrigin_kept {t : Traced δ} {op : VfsOp} {f i : Nat}
    (notOpen : ∀ path mode, op ≠ .open path mode) (notFormat : op ≠ .format)
    (file : slotFile (vfsStep cfg drivers t.vfs op) f = some i) (origin : t.origin f = some i) :
    traceOrigin cfg drivers t op f = some i := by
  cases op with
  | «open» path mode => exact absurd rfl (notOpen path mode)
  | format => exact absurd rfl notFormat
  | fs call =>
    cases call with
    | delete name =>
      have other := delete_slot file
      simp only [traceOrigin, origin]
      exact if_neg other.symm
    | _ => exact origin
  | _ => exact origin

/-- Every call but a successful open frees slots at most. -/
theorem Isolated.step_freed {t : Traced δ} (h : Isolated t) {op : VfsOp}
    (notOpen : ∀ path mode, op ≠ .open path mode) (notFormat : op ≠ .format)
    (notFsOpen : ∀ name mode, op ≠ .fs (.open name mode)) :
    Isolated (traceStep cfg drivers t op) := by
  obtain ⟨call, table⟩ := vfsStep_call cfg drivers t.vfs notOpen notFormat
  refine h.of_freed table fun f i file => ⟨?_, traceOrigin_kept notOpen notFormat file⟩
  simp only [slotFile, traceStep, call] at file
  cases made : fsCall t.vfs op with
  | none =>
    simp only [made] at file
    exact file
  | some c =>
    simp only [made] at file
    exact step_slot (fsCall_not_open notFsOpen made) file

/-- A successful direct `fs_open` changes one slot and no VFS descriptor. -/
theorem traceStep_fsOpen_iff {t : Traced δ} (h : Isolated t) (name : Option CStr) (mode : UInt32) :
    Isolated (traceStep cfg drivers t (.fs (.open name mode))) ↔
      TakesFreshSlot cfg t (.fs (.open name mode)) := by
  rcases fsOpen_slot cfg t.vfs.fs name mode with
    ⟨none, -, slots⟩ | ⟨k, i, ofd, some, -, bound, used, rfl, slots⟩
  · refine iff_of_true ?_ (takesFreshSlot_of_none none)
    refine h.of_freed (fun f onFile => ⟨onFile, rfl⟩) fun f i file => ⟨?_, id⟩
    rw [← file]
    exact (fdFile_congr (congrFun slots _)).symm
  · have taken : takenSlot cfg t.vfs (.fs (.open name mode)) = Option.some (k, ofd.fileIdx) := some
    rw [takesFreshSlot_iff taken]
    exact isolated_taken_iff h (fdFile_update bound used slots) (fun f onFile => ⟨onFile, rfl, rfl⟩)
      fun f onFile => .inl onFile

/-- A `vfs_open` installs a descriptor in a free entry, and takes a slot for a file. -/
theorem traceStep_open_iff {t : Traced δ} (h : Isolated t) (path : Option CStr) (mode : UInt32) :
    Isolated (traceStep cfg drivers t (.open path mode)) ↔
      TakesFreshSlot cfg t (.open path mode) := by
  have call := vfsOpen_cases cfg drivers t.vfs path mode
  simp only [traceStep, traceOrigin, vfsStep]
  generalize vfsOpen cfg drivers t.vfs path mode = r at call ⊢
  obtain ⟨rc, s⟩ := r
  cases call with
  | failed none result table slots =>
    dsimp only at result table slots
    refine iff_of_true ?_ (takesFreshSlot_of_none none)
    rw [if_neg (by omega)]
    refine h.of_freed (fun f => ?_) fun f i file => ⟨?_, id⟩
    · simp only [OnFile, table]
      exact fun onFile => ⟨onFile, trivial⟩
    · rw [← file]
      exact (fdFile_congr (congrFun slots _)).symm
  | @device fd e none free result type table slots =>
    dsimp only at result table slots
    subst result
    refine iff_of_true ?_ (takesFreshSlot_of_none none)
    rw [if_pos (Int.natCast_nonneg fd), Int.toNat_natCast]
    -- the new descriptor is on a device
    have other (f : Nat) (onFile : OnFile s f) : f ≠ fd := by
      rintro rfl
      rw [OnFile, table, Function.update_self, type] at onFile
      cases onFile.2
    intro f onFile i file
    have ne := other f onFile
    dsimp only at onFile file ⊢
    rw [Function.update_of_ne ne]
    rw [OnFile, table, Function.update_of_ne ne] at onFile
    rw [slotFile, table, Function.update_of_ne ne, fdFile_congr (congrFun slots _)] at file
    exact h f onFile i file
  | @file fd e k i ofd taken free result slot table bound used isFile slots =>
    dsimp only at result table slots
    subst result isFile
    rw [takesFreshSlot_iff taken, if_pos (Int.natCast_nonneg fd), Int.toNat_natCast]
    have slotsAfter := fdFile_update bound used slots
    have opened : slotFile s fd = some ofd.fileIdx := by
      rw [slotFile, table, Function.update_self, slot, slotsAfter, if_pos rfl]
    have unused := (fdAlloc_some free).2
    refine isolated_taken_iff h slotsAfter (fun f onFile => ?_) fun f onFile => ?_
    · -- `fd` was free before
      have ne : f ≠ fd := by
        rintro rfl
        rw [OnFile, unused] at onFile
        cases onFile.1
      simp only [OnFile, table, Function.update_of_ne ne]
      exact ⟨onFile, trivial, trivial⟩
    · by_cases eq : f = fd
      · subst eq
        right
        dsimp only
        rw [Function.update_self, table, Function.update_self]
        exact ⟨opened, slot⟩
      · left
        simp only [OnFile, table, Function.update_of_ne eq] at onFile
        exact onFile

/-- The condition on a call is exactly what it needs to keep descriptors isolated. -/
theorem traceStep_isolated_iff {t : Traced δ} (h : Isolated t) (op : VfsOp) :
    Isolated (traceStep cfg drivers t op) ↔ TakesFreshSlot cfg t op := by
  cases op with
  | «open» path mode => exact traceStep_open_iff h path mode
  | format =>
    refine iff_of_true (fun f _ i file => ?_) (takesFreshSlot_of_none rfl)
    rw [slotFile, traceStep, vfsStep, format_slot] at file
    cases file
  | fs call =>
    cases call with
    | «open» name mode => exact traceStep_fsOpen_iff h name mode
    | _ =>
      exact iff_of_true (h.step_freed (by simp) (by simp) (by simp)) (takesFreshSlot_of_none rfl)
  | _ => exact iff_of_true (h.step_freed (by simp) (by simp) (by simp)) (takesFreshSlot_of_none rfl)

/-! ### What isolation means for a call -/

/-- The calls on VFS descriptor `f`. -/
def OnDescriptor (f : Nat) : VfsOp → Prop
  | .read fd _ _ => fd = f
  | .write fd _ => fd = f
  | .close fd => fd = f
  | _ => False

theorem vfsStep_inv {s : VfsState δ} (inv : Inv cfg s.fs) (op : VfsOp) :
    Inv cfg (vfsStep cfg drivers s op).fs := by
  have called (op : VfsOp) (notOpen : ∀ path mode, op ≠ .open path mode) (notFormat : op ≠ .format) :
      Inv cfg (vfsStep cfg drivers s op).fs := by
    rw [(vfsStep_call cfg drivers s notOpen notFormat).1]
    split
    · exact inv.step _
    · exact inv
  cases op with
  | «open» path mode =>
    cases path with
    | none => exact inv
    | some path =>
      have opened := inv.opened (fsOpen_cases cfg s.fs (some path) mode)
      simp only [vfsStep, vfsOpen]
      split
      · exact inv
      · split
        · split <;> exact inv
        · split <;> exact opened
  | format => exact inv.fsFormat
  | fs call => exact called _ (by simp) (by simp)
  | read fd buf n => exact called _ (by simp) (by simp)
  | write fd buf => exact called _ (by simp) (by simp)
  | close fd => exact called _ (by simp) (by simp)

/-- The target of the filesystem call behind a call on descriptor `f`. -/
theorem fsCall_target {s : VfsState δ} {f : Nat} {op : VfsOp} (on : OnDescriptor f op) {call : FsOp}
    (made : fsCall s op = some call) : target cfg s.fs call = slotFile s f := by
  cases op with
  | «open» _ _ => cases on
  | fs _ => cases on
  | format => cases on
  | read fd buf n =>
    cases on
    simp only [fsCall, behind, Option.ite_none_right_eq_some, Option.some.injEq] at made
    rw [← made.2]
    rfl
  | write fd buf =>
    cases on
    simp only [fsCall, behind, Option.ite_none_right_eq_some, Option.some.injEq] at made
    rw [← made.2]
    rfl
  | close fd =>
    cases on
    simp only [fsCall, behind, Option.ite_none_right_eq_some, Option.some.injEq] at made
    rw [← made.2]
    rfl

/-- A call on a descriptor whose slot is free fails and leaves the filesystem alone. -/
theorem freed_slot_fails {s : VfsState δ} {f : Nat} {op : VfsOp} (onFile : OnFile s f)
    (on : OnDescriptor f op) (free : slotFile s f = none) :
    vfsResult cfg drivers s op = -1 ∧ (vfsStep cfg drivers s op).fs = s.fs := by
  have invalid : validFd s.fs ((s.fdTable f).fsFileId : Int) = false := by
    cases valid : validFd s.fs ((s.fdTable f).fsFileId : Int) with
    | false => rfl
    | true => rw [slotFile, fdFile_valid valid] at free; cases free
  have type := onFile.2
  cases op with
  | «open» _ _ => cases on
  | fs _ => cases on
  | format => cases on
  | read fd buf n =>
    cases on
    simp only [vfsResult, vfsStep, vfsRead, Int.toNat_natCast, type, fsRead, invalid, Bool.not_false,
      if_true]
    split <;> exact ⟨rfl, rfl⟩
  | write fd buf =>
    cases on
    simp only [vfsResult, vfsStep, vfsWrite, Int.toNat_natCast, type, fsWrite, invalid, Bool.not_false,
      if_true]
    split <;> exact ⟨rfl, rfl⟩
  | close fd =>
    cases on
    simp only [vfsResult, vfsStep, vfsClose, Int.toNat_natCast, type, fsClose, invalid, Bool.not_false,
      if_true]
    split <;> exact ⟨rfl, rfl⟩

/-- Calls on an isolated descriptor work on its own file only; once that file is gone
they fail without touching anything. -/
theorem Isolated.confined {t : Traced δ} (h : Isolated t) (inv : Inv cfg t.vfs.fs) {f : Nat}
    (onFile : OnFile t.vfs f) {op : VfsOp} (on : OnDescriptor f op) :
    (∀ j, t.origin f ≠ some j → FileFrame j t.vfs.fs (vfsStep cfg drivers t.vfs op).fs) ∧
      (t.origin f = none → vfsResult cfg drivers t.vfs op = -1 ∧
        (vfsStep cfg drivers t.vfs op).fs = t.vfs.fs) := by
  constructor
  · intro j other
    have notOpen : ∀ path mode, op ≠ .open path mode := by rintro path mode rfl; cases on
    have notFormat : op ≠ .format := by rintro rfl; cases on
    rw [(vfsStep_call cfg drivers t.vfs notOpen notFormat).1]
    cases made : fsCall t.vfs op with
    | none => exact FileFrame.refl j _
    | some call =>
      refine FileFrame.step inv call fun target => other ?_
      rw [fsCall_target on made] at target
      exact h f onFile j target
  · intro gone
    refine freed_slot_fails onFile on ?_
    by_contra occupied
    obtain ⟨i, file⟩ := Option.ne_none_iff_exists'.mp occupied
    rw [h f onFile i file] at gone
    cases gone

/-! ### Runs -/

/-- After `vfs_init` and `fs_init`: no VFS descriptor is open. -/
def Started (cfg : FsConfig) (t : Traced δ) : Prop :=
  Booted cfg t.vfs.fs ∧ ∀ f, (t.vfs.fdTable f).used = false

/-- VFS descriptor isolation: in every state of a run all open descriptors are
isolated, if and only if no successful open of the run takes a slot that an open
descriptor on another, or a lost, file still refers to. In such states every call on
a descriptor is confined to its file, and fails without effect once that file is gone. -/
theorem descriptors_isolated_iff (cfg : FsConfig) (drivers : Drivers δ) (t : Traced δ)
    (started : Started cfg t) (ops : List VfsOp) :
    ((∀ pre, pre <+: ops → Isolated (Run.exec (traceStep cfg drivers) t pre)) ↔
      Run.Along (traceStep cfg drivers) (TakesFreshSlot cfg) t ops) ∧
    ∀ pre, pre <+: ops → Isolated (Run.exec (traceStep cfg drivers) t pre) →
      ∀ f op, OnFile (Run.exec (traceStep cfg drivers) t pre).vfs f → OnDescriptor f op →
        (∀ j, (Run.exec (traceStep cfg drivers) t pre).origin f ≠ some j →
          FileFrame j (Run.exec (traceStep cfg drivers) t pre).vfs.fs
            (vfsStep cfg drivers (Run.exec (traceStep cfg drivers) t pre).vfs op).fs) ∧
        ((Run.exec (traceStep cfg drivers) t pre).origin f = none →
          vfsResult cfg drivers (Run.exec (traceStep cfg drivers) t pre).vfs op = -1 ∧
          (vfsStep cfg drivers (Run.exec (traceStep cfg drivers) t pre).vfs op).fs =
            (Run.exec (traceStep cfg drivers) t pre).vfs.fs) := by
  constructor
  · refine Run.invariant_iff_along (I := Isolated) (fun s op h => traceStep_isolated_iff h op) ?_ ops
    intro f onFile
    rw [OnFile, started.2] at onFile
    cases onFile.1
  · intro pre _ isolated f op onFile on
    refine isolated.confined ?_ onFile on
    exact Run.exec_invariant (I := fun t : Traced δ => Inv cfg t.vfs.fs)
      (fun t op inv => vfsStep_inv inv op) started.1.inv pre

/-- A board without devices, just started. -/
def noDevices : Drivers Unit where
  devOpen _ d := (-1, d)
  devRead _ _ _ d := ((-1, []), d)
  devWrite _ _ d := (-1, d)
  devClose _ d := d

def freshVfs : Traced Unit := ⟨⟨[], fun _ => VfsFd.zero, freshFs, ()⟩, fun _ => none⟩

/-- Open `a` through the VFS, delete it, and open `b` directly. -/
def deleteA_createB : List VfsOp :=
  [.open (some fileA) (vfsOWronly ||| vfsOCreat), .fs (.delete (some fileA)), .fs createB]

/-- The last open takes the slot that the descriptor of the deleted `a` refers to. -/
theorem deleteA_createB_not_isolated :
    ¬ ∀ pre, pre <+: deleteA_createB →
      Isolated (Run.exec (traceStep twoFiles noDevices) freshVfs pre) := by
  intro isolated
  have takes := (descriptors_isolated_iff twoFiles noDevices freshVfs ⟨freshFs_booted, fun _ => rfl⟩
    deleteA_createB).1.mp isolated
  have origin := takes.2.2.1 0 0 (by decide +kernel) 0 ⟨by decide +kernel, by decide +kernel⟩
    (by decide +kernel)
  exact absurd origin (by decide +kernel)

/-- The descriptor of the deleted `a` writes into `b`. -/
theorem deletedA_writes_to_b :
    let t := Run.exec (traceStep twoFiles noDevices) freshVfs deleteA_createB
    OnFile t.vfs 0 ∧ t.origin 0 = none ∧ ¬ Isolated t ∧
      vfsResult twoFiles noDevices t.vfs (.write 0 (some [0x41])) = 1 ∧
      (t.vfs.fs.openFds 0).dirty = false ∧
      ((vfsStep twoFiles noDevices t.vfs (.write 0 (some [0x41]))).fs.openFds 0).dirty = true := by
  intro t
  have onFile : OnFile t.vfs 0 := ⟨by decide +kernel, by decide +kernel⟩
  have lost : t.origin 0 = none := by decide +kernel
  refine ⟨onFile, lost, fun isolated => ?_, by decide +kernel, by decide +kernel, by decide +kernel⟩
  have own := isolated 0 onFile 0 (by decide +kernel)
  rw [lost] at own
  cases own

end PicoOS.Vfs
