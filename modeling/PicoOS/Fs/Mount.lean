import PicoOS.Fs.Consistent
import Mathlib

/-!
# What a mount accepts

`fs_init` looks at the magic and the version of the superblock on flash and
takes the rest as it is. `fs_read` goes by the sizes of the directory, so what
it touches depends on what those bytes were.
-/
namespace PicoOS.Fs

/-! ### Accesses -/

/-- Bytes that a call copies or clears: of flash by address, of `fs_buffer` by offset. -/
inductive Access where
  | flash (addr len : Nat)
  | buffer (off len : Nat)
deriving DecidableEq

namespace Access

/-- Inside the sector of file `i`, or inside the write buffer. -/
def Inside (i : Nat) : Access → Prop
  | flash addr len => fileFlashOffset i ≤ addr ∧ addr + len ≤ fileFlashOffset i + fsBlockSize
  | buffer off len => off + len ≤ fsBlockSize

def bytes (s : FsState) : Access → List UInt8
  | flash addr len => Memory.read s.flash addr len
  | buffer off len => Memory.read s.fsBuffer off len

end Access

/-- The file data that a call touches. The directory has a sector of its own. -/
def accesses (cfg : FsConfig) (s : FsState) : FsOp → List Access
  | .open name mode =>
    match name.bind fun n => openFile cfg s n.stripSlash mode with
    | some i =>
      if hasFlag mode vfsOWronly ∧ s.scratchOwner = none then
        if hasFlag mode vfsOTrunc then [.buffer 0 fsBlockSize]
        else [.flash (fileFlashOffset i) fsBlockSize, .buffer 0 fsBlockSize]
      else []
    | none => []
  | .read fd buf n =>
    let ofd := s.openFds fd.toNat
    if validFd s fd ∧ buf ∧ 0 < readable s ofd n then
      if s.scratchOwner = some ofd.fileIdx ∧ ofd.dirty then [.buffer ofd.pos (readable s ofd n)]
      else [.flash (fileFlashOffset ofd.fileIdx + ofd.pos) (readable s ofd n)]
    else []
  | .write fd buf =>
    let ofd := s.openFds fd.toNat
    let data := buf.getD []
    if validFd s fd ∧ hasFlag ofd.mode vfsOWronly ∧ 0 < writable ofd data then
      [.buffer ofd.pos (writable ofd data)]
    else []
  | .close fd =>
    let ofd := s.openFds fd.toNat
    if validFd s fd ∧ ofd.dirty then
      [.buffer 0 fsBlockSize, .flash (fileFlashOffset ofd.fileIdx) fsBlockSize]
    else []
  | .delete name =>
    match name.bind fun n => findFile cfg s n.stripSlash with
    | some i => [.flash (fileFlashOffset i) fsBlockSize]
    | none => []

/-- Every access of a call is to the file it works on. -/
def StaysInFile (cfg : FsConfig) (s : FsState) (op : FsOp) : Prop :=
  ∀ a ∈ accesses cfg s op, ∃ i, target cfg s op = some i ∧ a.Inside i

section

variable {cfg : FsConfig} {s s' : FsState}

/-- A read returns the bytes it touches. -/
theorem fsRead_accesses (fd : Int) (buf : Bool) (n : Nat) :
    (fsRead s fd buf n).2.1 = (accesses cfg s (.read fd buf n)).flatMap (Access.bytes s) := by
  have call := fsRead_cases s fd buf n
  generalize result : fsRead s fd buf n = r at call ⊢
  cases call with
  | invalid invalid => simp [accesses, invalid]
  | empty valid nothing =>
    rcases nothing with null | zero
    · simp [accesses, null]
    · simp [accesses, zero]
  | @done ofd len valid isFd isLen some =>
    subst isFd isLen
    have given : buf = true := by
      cases buf with
      | true => rfl
      | false =>
        simp only [fsRead, valid, Bool.not_true, Bool.false_eq_true, if_false, Bool.not_false,
          Bool.true_or, if_true, Prod.mk.injEq] at result
        omega
    simp only [accesses, valid, given, some, and_self, if_true, readSource]
    split <;> simp [Access.bytes]

/-- Outside its accesses a call leaves the write buffer alone. -/
theorem step_buffer (op : FsOp) {k : Nat}
    (outside : ∀ off len, .buffer off len ∈ accesses cfg s op → k < off ∨ off + len ≤ k) :
    (step cfg s op).fsBuffer k = s.fsBuffer k := by
  cases op with
  | «open» name mode =>
    simp only [step]
    have call := fsOpen_cases cfg s name mode
    generalize fsOpen cfg s name mode = r at call ⊢
    have resolved {n : CStr} {i : Nat} {s₁ : FsState}
        (file : Resolved cfg s n.stripSlash mode i s₁) :
        s₁.fsBuffer = s.fsBuffer ∧ s₁.scratchOwner = s.scratchOwner := by
      cases file with
      | found _ => exact ⟨rfl, rfl⟩
      | created _ _ _ => exact ⟨createEntry_fsBuffer .., createEntry_scratchOwner ..⟩
    have copied {n : CStr} {i : Nat} {s₁ : FsState} (given : name = some n)
        (file : Resolved cfg s n.stripSlash mode i s₁)
        (owner : hasFlag mode vfsOWronly = true → s₁.scratchOwner = none) :
        (claimed s₁ i mode).fsBuffer k = s.fsBuffer k := by
      obtain ⟨buffer, same⟩ := resolved file
      cases writing : hasFlag mode vfsOWronly with
      | false =>
        rw [claimed, writing]
        exact congrFun buffer k
      | true =>
        -- the whole buffer is an access
        have free : s.scratchOwner = none := same ▸ owner writing
        have past : k < 0 ∨ 0 + fsBlockSize ≤ k := by
          refine outside 0 fsBlockSize ?_
          simp only [accesses, given, Option.bind_some, file.openFile, writing, free, and_self,
            if_true]
          split <;> simp
        rw [claimed, writing, if_pos rfl, claimBuffer]
        split
        · exact (Memory.fill_outside _ _ _ _ _ past).trans (congrFun buffer k)
        · change Memory.copy s₁.fsBuffer 0 (fun k => s₁.flash (fileFlashOffset i + k)) fsBlockSize k = _
          rw [Memory.copy_outside _ _ _ _ _ past, buffer]
    cases call with
    | missing _ => rfl
    | busy _ file _ _ => exact congrFun (resolved file).1 k
    | full given file owner _ =>
      split
      · exact copied given file owner
      · exact congrFun (resolved file).1 k
    | done given file owner _ => exact copied given file owner
  | read fd buf n =>
    simp only [step]
    have call := fsRead_cases s fd buf n
    generalize fsRead s fd buf n = r at call ⊢
    cases call <;> rfl
  | write fd buf =>
    simp only [step]
    have call := fsWrite_cases s fd buf
    generalize fsWrite s fd buf = r at call ⊢
    cases call with
    | invalid | empty | refused => rfl
    | @done data ofd len valid given isFd writing isLen some =>
      subst given isFd isLen
      have past := outside (s.openFds fd.toNat).pos (writable (s.openFds fd.toNat) data) (by
        simp [accesses, valid, writing, some])
      refine Memory.write_outside _ _ _ _ ?_
      rw [List.length_take]
      exact past.imp_right fun after => by omega
  | close fd =>
    simp only [step]
    have call := fsClose_cases cfg s fd
    generalize fsClose cfg s fd = r at call ⊢
    cases call with
    | invalid | clean => rfl
    | committed _ _ _ flash _ => exact congrFun flash.fsBuffer k
  | delete name =>
    simp only [step]
    have call := fsDelete_cases cfg s name
    generalize fsDelete cfg s name = r at call ⊢
    cases call with
    | missing _ => rfl
    | done _ _ flash _ =>
      rw [flash.fsBuffer, removeEntry_fsBuffer]
      rfl

/-- Outside the superblock and the file that it works on a call leaves flash alone. -/
theorem step_flash (op : FsOp) {a : Nat} (data : ¬ InSuperblock a)
    (other : ∀ i, target cfg s op = some i → ¬ InFile i a) :
    (step cfg s op).flash a = s.flash a := by
  cases op with
  | «open» name mode =>
    simp only [step]
    have call := fsOpen_cases cfg s name mode
    generalize fsOpen cfg s name mode = r at call ⊢
    -- creating an entry writes the superblock only
    have resolved {n : CStr} {i : Nat} {s₁ : FsState} (file : Resolved cfg s n mode i s₁) :
        s₁.flash a = s.flash a := by
      cases file with
      | found _ => rfl
      | created _ _ _ => exact (createEntry_flashOnly ..).outside data
    cases call with
    | missing _ => rfl
    | busy _ file _ _ => exact resolved file
    | full _ file _ _ =>
      split
      · exact (congrFun (claimed_flash ..) a).trans (resolved file)
      · exact resolved file
    | done _ file _ _ => exact (congrFun (claimed_flash ..) a).trans (resolved file)
  | read fd buf n =>
    simp only [step]
    have call := fsRead_cases s fd buf n
    generalize fsRead s fd buf n = r at call ⊢
    cases call <;> rfl
  | write fd buf =>
    simp only [step]
    have call := fsWrite_cases s fd buf
    generalize fsWrite s fd buf = r at call ⊢
    cases call <;> rfl
  | close fd =>
    simp only [step]
    have call := fsClose_cases cfg s fd
    generalize fsClose cfg s fd = r at call ⊢
    cases call with
    | invalid | clean => rfl
    | committed valid isFd dirty flash _ =>
      subst isFd
      apply flash.outside
      rintro (file | sb)
      · exact other _ (fdFile_valid valid) file
      · exact data sb
  | delete name =>
    simp only [step]
    have call := fsDelete_cases cfg s name
    generalize fsDelete cfg s name = r at call ⊢
    cases call with
    | missing _ => rfl
    | @done n i _ _ given found flash _ =>
      rw [flash.outside, removeEntry_flash]
      · rfl
      · rintro (file | sb)
        · exact other i (by simp [target, given, found]) file
        · exact data sb

end

/-! ### Sound directories -/

/-- A directory that counts its files, each no longer than its sector. -/
structure Sound (cfg : FsConfig) (sb : Superblock) : Prop where
  count : sb.fileCount.toNat = (Finset.filter (fun i => (sb.files i).used = true)
    (Finset.range cfg.fsMaxFiles)).card
  sizes : ∀ i < cfg.fsMaxFiles, (sb.files i).used = true → (sb.files i).size.toNat ≤ fsMaxFileData

/-- The directory is sound, and the descriptors are inside their sectors. -/
structure Fits (cfg : FsConfig) (s : FsState) : Prop where
  inv : Inv cfg s
  sound : Sound cfg s.superblockRam
  positions : ∀ fd, (s.openFds fd).used = true → (s.openFds fd).pos ≤ fsMaxFileData

section

variable {cfg : FsConfig} {s s' : FsState}

namespace Sound

/-- A change of sizes that keeps those of the files inside their sectors. -/
theorem resize (h : Sound cfg s.superblockRam)
    (count : s'.superblockRam.fileCount = s.superblockRam.fileCount)
    (used : ∀ i, (s'.entry i).used = (s.entry i).used)
    (sizes : ∀ i, (s.entry i).size.toNat ≤ fsMaxFileData → (s'.entry i).size.toNat ≤ fsMaxFileData) :
    Sound cfg s'.superblockRam where
  count := by
    rw [count, h.count]
    exact (congrArg Finset.card (usedFiles_congr used)).symm
  sizes i inside file := sizes i (h.sizes i inside (used i ▸ file))

theorem createEntry (h : Sound cfg s.superblockRam) {i : Nat} (name : CStr)
    (slot : allocFileEntry cfg s = some i) : Sound cfg (createEntry cfg s i name).superblockRam := by
  refine ⟨createEntry_counts name slot h.count, fun j inside file => ?_⟩
  have entry := createEntry_entry cfg s i j name
  unfold FsState.entry at entry
  rw [entry] at file ⊢
  split at file
  next new =>
    rw [if_pos new]
    exact Nat.zero_le _
  next old =>
    rw [if_neg old]
    exact h.sizes j inside file

theorem resolved (h : Sound cfg s.superblockRam) {name : CStr} {mode : UInt32} {i : Nat}
    (file : Resolved cfg s name mode i s') : Sound cfg s'.superblockRam := by
  cases file with
  | found _ => exact h
  | created _ _ slot => exact h.createEntry name slot

theorem claimed (h : Sound cfg s.superblockRam) (i : Nat) (mode : UInt32) :
    Sound cfg (claimed s i mode).superblockRam := by
  refine h.resize ?_ (fun j => claimed_used s i j mode) fun j bound => ?_
  · unfold PicoOS.Fs.claimed claimBuffer
    split <;> (try split) <;> rfl
  · rw [claimed_entry]
    split
    · exact Nat.zero_le _
    · exact bound

theorem removeEntry (h : Sound cfg s.superblockRam) {i : Nat} (file : i ∈ usedFiles cfg s) :
    Sound cfg (removeEntry s i).superblockRam := by
  refine ⟨removeEntry_counts file h.count, fun j inside used => ?_⟩
  have entry := removeEntry_entry s i j
  unfold FsState.entry at entry
  rw [entry] at used ⊢
  split at used
  · cases used
  next kept =>
    rw [if_neg kept]
    exact h.sizes j inside used

end Sound

namespace Fits

theorem readable_fits (h : Fits cfg s) {fd : Nat} (used : (s.openFds fd).used = true) (n : Nat) :
    (s.openFds fd).pos + readable s (s.openFds fd) n ≤ fsMaxFileData := by
  have position := h.positions fd used
  obtain ⟨-, file, exists_⟩ := h.inv.bound fd used
  have size := h.sound.sizes _ file exists_
  unfold readable FsState.entry
  omega

theorem writable_fits (h : Fits cfg s) {fd : Nat} (used : (s.openFds fd).used = true)
    (data : List UInt8) : (s.openFds fd).pos + writable (s.openFds fd) data ≤ fsMaxFileData := by
  have position := h.positions fd used
  unfold writable
  omega

/-- Where the directory is sound and the descriptors fit, so do the accesses. -/
theorem staysInFile (h : Fits cfg s) (op : FsOp) : StaysInFile cfg s op := by
  have whole (i : Nat) : (Access.flash (fileFlashOffset i) fsBlockSize).Inside i :=
    ⟨Nat.le_refl _, Nat.le_refl _⟩
  have buffer (i : Nat) : (Access.buffer 0 fsBlockSize).Inside i :=
    Nat.le_of_eq (Nat.zero_add _)
  intro a member
  cases op with
  | «open» name mode =>
    simp only [accesses] at member
    split at member
    next i file =>
      refine ⟨i, file, ?_⟩
      split_ifs at member
      · rw [List.mem_singleton.mp member]
        exact buffer i
      · simp only [List.mem_cons, List.not_mem_nil, or_false] at member
        rcases member with rfl | rfl
        · exact whole i
        · exact buffer i
      · cases member
    next => cases member
  | read fd buf n =>
    simp only [accesses] at member
    split at member
    next some =>
      have used := ((validFd_iff fd).mp some.1).2.2
      have fits := h.readable_fits used n
      refine ⟨_, fdFile_valid some.1, ?_⟩
      split at member
      · rw [List.mem_singleton.mp member]
        exact fits
      · rw [List.mem_singleton.mp member]
        simp only [fsMaxFileData] at fits
        exact ⟨Nat.le_add_right _ _, by omega⟩
    next => cases member
  | write fd buf =>
    simp only [accesses] at member
    split at member
    next some =>
      have used := ((validFd_iff fd).mp some.1).2.2
      refine ⟨_, fdFile_valid some.1, ?_⟩
      rw [List.mem_singleton.mp member]
      exact h.writable_fits used _
    next => cases member
  | close fd =>
    simp only [accesses] at member
    split at member
    next some =>
      refine ⟨_, fdFile_valid some.1, ?_⟩
      simp only [List.mem_cons, List.not_mem_nil, or_false] at member
      rcases member with rfl | rfl
      · exact buffer _
      · exact whole _
    next => cases member
  | delete name =>
    simp only [accesses] at member
    split at member
    next i file =>
      rw [List.mem_singleton.mp member]
      exact ⟨i, file, whole i⟩
    next => cases member

theorem opened {name : Option CStr} {mode : UInt32} {r : Int × FsState} (h : Fits cfg s)
    (call : Opened cfg s name mode r) : Fits cfg r.2 := by
  have fds {n : CStr} {i : Nat} {s₁ : FsState} (file : Resolved cfg s n mode i s₁) :
      s₁.openFds = s.openFds := by
    cases file with
    | found _ => rfl
    | created _ _ _ => exact createEntry_openFds ..
  refine ⟨h.inv.opened call, ?_, ?_⟩
  · cases call with
    | missing _ => exact h.sound
    | busy _ file _ _ => exact h.sound.resolved file
    | @full n i s₁ _ file _ _ =>
      have sound := h.sound.resolved file
      split
      · exact sound.claimed i mode
      · exact sound
    | @done n i s₁ fd _ file _ _ => exact (h.sound.resolved file).claimed i mode
  · cases call with
    | missing _ => exact h.positions
    | busy _ file _ _ =>
      rw [fds file]
      exact h.positions
    | @full n i s₁ _ file _ _ =>
      split
      · rw [claimed_openFds, fds file]
        exact h.positions
      · rw [fds file]
        exact h.positions
    | @done n i s₁ fd _ file _ _ =>
      have sound := (h.sound.resolved file).claimed i mode
      intro k
      rw [setFd_openFds, claimed_openFds, fds file]
      split
      · intro _
        dsimp only [openedFd]
        split
        · -- an append starts at the end of the file
          refine sound.sizes i file.used.1 ?_
          exact (claimed_used s₁ i i mode).trans file.used.2
        · exact Nat.zero_le _
      · exact h.positions k

theorem readResult {fd : Int} {buf : Bool} {n : Nat} {r : Int × List UInt8 × FsState}
    (h : Fits cfg s) (call : ReadResult s fd buf n r) : Fits cfg r.2.2 := by
  refine ⟨h.inv.readResult call, ?_, ?_⟩
  · cases call <;> exact h.sound
  · cases call with
    | invalid | empty => exact h.positions
    | done valid isFd isLen _ =>
      subst isFd isLen
      intro k
      rw [setFd_openFds]
      split
      · exact fun _ => h.readable_fits ((validFd_iff fd).mp valid).2.2 n
      · exact h.positions k

theorem writeResult {fd : Int} {buf : Option (List UInt8)} {r : Int × FsState}
    (h : Fits cfg s) (call : WriteResult s fd buf r) : Fits cfg r.2 := by
  refine ⟨h.inv.writeResult call, ?_, ?_⟩
  · cases call with
    | invalid | empty | refused => exact h.sound
    | @done data ofd len valid _ isFd _ isLen _ =>
      subst isFd isLen
      have fits := h.writable_fits ((validFd_iff fd).mp valid).2.2 data
      simp only [fsMaxFileData, fsBlockSize] at fits
      refine h.sound.resize (by rfl) (fun j => ?_) fun j bound => ?_
      · rw [setEntry_entry]
        split
        next same =>
          subst same
          unfold grown
          split <;> rfl
        · rfl
      · rw [setEntry_entry]
        split
        next same =>
          subst same
          unfold grown
          split
          · rw [UInt32.toNat_ofNat_of_lt' (by simp only [UInt32.size]; omega)]
            exact fits
          · exact bound
        · exact bound
  · cases call with
    | invalid | empty | refused => exact h.positions
    | @done data ofd len valid _ isFd _ isLen _ =>
      subst isFd isLen
      intro k
      rw [setEntry_openFds, setFd_openFds]
      split
      · exact fun _ => h.writable_fits ((validFd_iff fd).mp valid).2.2 data
      · exact h.positions k

theorem closed {fd : Int} {r : Int × FsState} (h : Fits cfg s) (call : Closed cfg s fd r) :
    Fits cfg r.2 := by
  refine ⟨h.inv.closed call, ?_, ?_⟩
  · cases call with
    | invalid | clean => exact h.sound
    | committed _ _ _ flash _ =>
      rw [setFd_superblockRam, flash.superblockRam]
      exact h.sound
  · cases call with
    | invalid _ => exact h.positions
    | clean =>
      intro k
      rw [setFd_openFds]
      split
      · nofun
      · exact h.positions k
    | committed _ _ _ flash _ =>
      intro k
      rw [setFd_openFds, flash.openFds]
      split
      · nofun
      · exact h.positions k

theorem deleted {name : Option CStr} {r : Int × FsState} (h : Fits cfg s)
    (call : Deleted cfg s name r) : Fits cfg r.2 := by
  refine ⟨h.inv.deleted call, ?_, ?_⟩
  · cases call with
    | missing _ => exact h.sound
    | @done n i _ _ _ found flash _ =>
      have file := findFile_some found
      have sound : Sound cfg (forceClose s i).superblockRam := h.sound
      rw [flash.superblockRam]
      exact sound.removeEntry (mem_usedFiles.mpr ⟨file.1, file.2.1⟩)
  · cases call with
    | missing _ => exact h.positions
    | @done n i _ _ _ _ flash _ =>
      intro k
      rw [flash.openFds, removeEntry_openFds]
      dsimp only [forceClose]
      split
      · nofun
      · exact h.positions k

theorem step (h : Fits cfg s) (op : FsOp) : Fits cfg (step cfg s op) := by
  cases op with
  | «open» name mode => exact h.opened (fsOpen_cases cfg s name mode)
  | read fd buf n => exact h.readResult (fsRead_cases s fd buf n)
  | write fd buf => exact h.writeResult (fsWrite_cases s fd buf)
  | close fd => exact h.closed (fsClose_cases cfg s fd)
  | delete name => exact h.deleted (fsDelete_cases cfg s name)

end Fits

theorem Consistent.fits (h : Consistent cfg s) : Fits cfg s where
  inv := h.inv
  sound := ⟨h.sized.count, fun i inside _ => h.sized.sizes i inside⟩
  positions := h.held.positions

/-! ### Mounting -/

theorem fsInit_mounted {flash : Nat → UInt8} (flashRc : List Int)
    (valid : mountable cfg flash = true) : fsInit cfg (.powerOn flash flashRc) =
      { FsState.powerOn flash flashRc with superblockRam := readSuperblock cfg flash } := by
  unfold fsInit
  dsimp only
  rw [if_pos]
  · rfl
  · exact valid

theorem fsInit_blank {flash : Nat → UInt8} (flashRc : List Int)
    (invalid : mountable cfg flash = false) :
    fsInit cfg (.powerOn flash flashRc) = fsFormat cfg (.powerOn flash flashRc) := by
  unfold fsInit
  dsimp only
  rw [if_neg]
  · rfl
  · intro valid
    cases invalid.symm.trans valid

/-- A sound image is mounted as it is, and an image that is not mounted leaves an empty directory. -/
theorem fsInit_fits {flash : Nat → UInt8} (flashRc : List Int)
    (sound : mountable cfg flash = true → Sound cfg (readSuperblock cfg flash)) :
    Fits cfg (fsInit cfg (.powerOn flash flashRc)) := by
  cases valid : mountable cfg flash with
  | true =>
    have closed := fsInit_closed cfg flash flashRc
    refine ⟨.of_closed closed, ?_, fun fd used => ?_⟩
    · rw [fsInit_mounted flashRc valid]
      exact sound valid
    · rw [closed fd] at used
      cases used
  | false =>
    rw [fsInit_blank flashRc valid]
    exact (fsFormat_consistent (.of_closed fun _ => rfl)).fits

end

/-- `fs_open`, `fs_read` or `fs_write`. -/
def FsOp.Data : FsOp → Prop
  | .open _ _ | .read _ _ _ | .write _ _ => True
  | .close _ | .delete _ => False

/-- Whatever the flash operations do, every call after the mount stays in its file, and the directory
is sound throughout. -/
def MountSafe (cfg : FsConfig) (flash : Nat → UInt8) : Prop :=
  ∀ (flashRc : List Int) (ops : List FsOp), (∀ op ∈ ops, op.Data) →
    Run.Along (step cfg) (StaysInFile cfg) (fsInit cfg (.powerOn flash flashRc)) ops ∧
      ∀ pre, pre <+: ops →
        Sound cfg (Run.exec (step cfg) (fsInit cfg (.powerOn flash flashRc)) pre).superblockRam

/-- `fs_init` and the calls after it are safe exactly on the images whose directory is sound, if they
pass for a filesystem at all. -/
theorem mount_safe_iff (cfg : FsConfig) (flash : Nat → UInt8) :
    MountSafe cfg flash ↔
      (mountable cfg flash = true → Sound cfg (readSuperblock cfg flash)) := by
  constructor
  · intro safe valid
    have mounted := (safe [] [] (by simp)).2 [] (List.prefix_refl _)
    rw [Run.exec_nil, fsInit_mounted [] valid] at mounted
    exact mounted
  · intro sound flashRc ops _
    have start := fsInit_fits flashRc sound
    refine ⟨?_, fun pre _ => ?_⟩
    · exact Run.along_of_invariant (fun _ op fits => fits.step op)
        (fun _ op fits => fits.staysInFile op) start ops
    · exact (Run.exec_invariant (fun _ op fits => fits.step op) start pre).sound

/-- A superblock whose one file is two sectors long. -/
def oversize : Superblock where
  magic := fsSuperblockMagic
  version := 1
  fileCount := 1
  files i := if i = 0 then { newEntry 0 fileA with size := 8192 } else .zero

def oversizeImage (a : Nat) : UInt8 :=
  if superblockFlashOffset ≤ a ∧ a < superblockFlashOffset + fsBlockSize then
    superblockPages twoFiles oversize (a - superblockFlashOffset)
  else 0xFF

/-- It is mounted, and a read of the file goes on into the sector of the next one. -/
theorem oversize_read_leaves_sector :
    mountable twoFiles oversizeImage = true ∧
      (let s := Run.exec (step twoFiles) (fsInit twoFiles (.powerOn oversizeImage []))
        [.open (some fileA) vfsORdonly]
      target twoFiles s (.read 0 true 8192) = some 0 ∧
        accesses twoFiles s (.read 0 true 8192) = [.flash (fileFlashOffset 0) 8192] ∧
        fileFlashOffset 1 + fsBlockSize = fileFlashOffset 0 + 8192) ∧
      ¬ MountSafe twoFiles oversizeImage := by
  have valid : mountable twoFiles oversizeImage = true := by decide +kernel
  refine ⟨valid, by decide +kernel, fun safe => ?_⟩
  have file := ((mount_safe_iff _ _).mp safe valid).sizes 0 (by decide) (by decide +kernel)
  exact absurd file (by decide +kernel)

/-! ### What a mounted filesystem leaves alone -/

/-- A call changes no byte behind the write buffer, and on flash none but those of the superblock and
of the file it works on. What it reads are bytes of this file or of the write buffer. -/
structure Confined (cfg : FsConfig) (s : FsState) (op : FsOp) : Prop where
  flash : ∀ a, ¬ InSuperblock a → (∀ i, target cfg s op = some i → ¬ InFile i a) →
    (step cfg s op).flash a = s.flash a
  buffer : ∀ k, fsBlockSize ≤ k → (step cfg s op).fsBuffer k = s.fsBuffer k
  reads : ∀ fd buf n, op = .read fd buf n → (fsRead s fd buf n).2.1 = [] ∨
    ∃ i a, target cfg s op = some i ∧ a.Inside i ∧ (fsRead s fd buf n).2.1 = Access.bytes s a

section

variable {cfg : FsConfig} {s : FsState} {a : Nat}

theorem Fits.confined (h : Fits cfg s) (op : FsOp) : Confined cfg s op where
  flash _ data other := step_flash op data other
  buffer k behind := by
    apply step_buffer
    intro off len access
    obtain ⟨_, _, inside⟩ := h.staysInFile op _ access
    have bound : off + len ≤ fsBlockSize := inside
    exact .inr (bound.trans behind)
  reads fd buf n same := by
    subst same
    have stays := h.staysInFile (.read fd buf n)
    rw [StaysInFile] at stays
    rw [@fsRead_accesses cfg s fd buf n]
    -- a read touches one range at most
    cases touched : accesses cfg s (.read fd buf n) with
    | nil => exact .inl rfl
    | cons access rest =>
      obtain ⟨i, file, inside⟩ := stays access (by simp [touched])
      have only : rest = [] := by
        simp only [accesses] at touched
        split_ifs at touched <;> exact (List.cons.inj touched).2.symm
      refine .inr ⟨i, access, file, inside, ?_⟩
      rw [only, List.flatMap_singleton]

theorem Inv.target_lt (inv : Inv cfg s) {op : FsOp} {i : Nat} (file : target cfg s op = some i) :
    i < cfg.fsMaxFiles := by
  have slot {fd : Int} (given : fdFile s fd = some i) : i < cfg.fsMaxFiles := by
    obtain ⟨valid, rfl⟩ := fdFile_eq_some.mp given
    exact (inv.bound _ ((validFd_iff fd).mp valid).2.2).2.1
  cases op with
  | «open» name mode =>
    obtain ⟨n, _, opens⟩ := Option.bind_eq_some_iff.mp file
    unfold openFile at opens
    split at opens
    next found =>
      cases opens
      exact (findFile_some found).1
    next =>
      obtain ⟨_, new⟩ := Option.ite_none_right_eq_some.mp opens
      exact (allocFileEntry_some new).1
  | read fd | write fd | close fd => exact slot file
  | delete name =>
    obtain ⟨n, _, found⟩ := Option.bind_eq_some_iff.mp file
    exact (findFile_some found).1

theorem fsInit_region {flash : Nat → UInt8} (flashRc : List Int) (outside : ¬ InRegion cfg a) :
    (fsInit cfg (.powerOn flash flashRc)).flash a = flash a := by
  have mount := fsInit_cases cfg flash flashRc
  generalize fsInit cfg (.powerOn flash flashRc) = s at mount ⊢
  cases mount with
  | mounted _ => rfl
  | blank _ erased _ => exact erased.outside outside

theorem eventStep_region (inv : Inv cfg s) (e : FsEvent) (outside : ¬ InRegion cfg a) :
    (eventStep cfg s e).flash a = s.flash a := by
  cases e with
  | call op =>
    rw [eventStep]
    apply step_flash op (fun sb => outside sb.inRegion)
    intro i file inside
    exact outside (inside.inRegion (inv.target_lt file))
  | format =>
    rw [eventStep, (fsFormat_flashOnly cfg s).1.outside outside]
    rfl
  | reboot =>
    rw [eventStep]
    exact fsInit_region s.flashRc outside

end

/-- Whatever bytes flash holds and whatever its operations return, no call, format or reboot changes
flash outside the sectors of the filesystem. From an image that is formatted or has a sound directory,
and up to the next reboot, every call is confined to the superblock, its own file and the write
buffer. -/
theorem filesystem_confined (cfg : FsConfig) (flash : Nat → UInt8) (flashRc : List Int)
    (es : List FsEvent) :
    let s := Run.exec (eventStep cfg) (fsInit cfg (.powerOn flash flashRc)) es
    (∀ a, ¬ InRegion cfg a → s.flash a = flash a) ∧
      ((mountable cfg flash = true → Sound cfg (readSuperblock cfg flash)) → .reboot ∉ es →
        ∀ op, Confined cfg s op) := by
  refine ⟨fun a outside => ?_, fun sound running op => ?_⟩
  · have kept := Run.exec_invariant (I := fun s : FsState => Inv cfg s ∧ s.flash a = flash a)
      (fun s e both => ⟨both.1.eventStep e, (eventStep_region both.1 e outside).trans both.2⟩)
      ⟨Booted.inv ⟨flash, flashRc, rfl⟩, fsInit_region flashRc outside⟩ es
    exact kept.2
  · have start := fsInit_fits flashRc sound
    have along : Run.Along (eventStep cfg) (fun _ e => e ≠ .reboot)
        (fsInit cfg (.powerOn flash flashRc)) es := by
      apply Run.along_of_forall
      rintro e member rfl
      exact running member
    have fits : Fits cfg (Run.exec (eventStep cfg) (fsInit cfg (.powerOn flash flashRc)) es) := by
      refine along.invariant (I := Fits cfg) (fun s e fits here => ?_) start
      cases e with
      | call op => exact fits.step op
      | format => exact (fsFormat_consistent fits.inv).fits
      | reboot => exact absurd rfl here
    exact fits.confined op

end PicoOS.Fs
