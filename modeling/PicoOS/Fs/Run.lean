import PicoOS.Lib.Run
import PicoOS.Fs.Calls

/-!
# Runs of the filesystem

The calls as labels of a step function, the file each call works on, and the
descriptor invariant of every reachable state: at most one descriptor writes,
and the write buffer belongs to its file.
-/
namespace PicoOS.Fs

/-! ### Calls as labels -/

/-- A call with its arguments. -/
inductive FsOp where
  | open (name : Option CStr) (mode : UInt32)
  | read (fd : Int) (buf : Bool) (n : Nat)
  | write (fd : Int) (buf : Option (List UInt8))
  | close (fd : Int)
  | delete (name : Option CStr)

/-- The state after a call. -/
def step (cfg : FsConfig) (s : FsState) : FsOp → FsState
  | .open name mode => (fsOpen cfg s name mode).2
  | .read fd buf n => (fsRead s fd buf n).2.2
  | .write fd buf => (fsWrite s fd buf).2
  | .close fd => (fsClose cfg s fd).2
  | .delete name => (fsDelete cfg s name).2

/-- The file that a descriptor argument denotes. -/
def fdFile (s : FsState) (fd : Int) : Option Nat :=
  if validFd s fd then some (s.openFds fd.toNat).fileIdx else none

theorem fdFile_valid {s : FsState} {fd : Int} (valid : validFd s fd = true) :
    fdFile s fd = some (s.openFds fd.toNat).fileIdx := if_pos valid

theorem fdFile_eq_some {s : FsState} {fd : Int} {i : Nat} :
    fdFile s fd = some i ↔ validFd s fd = true ∧ (s.openFds fd.toNat).fileIdx = i := by
  unfold fdFile
  split
  next valid => simp [valid]
  next invalid => simp [invalid]

/-- The file that an open will work on. -/
def openFile (cfg : FsConfig) (s : FsState) (name : CStr) (mode : UInt32) : Option Nat :=
  match findFile cfg s name with
  | some i => some i
  | none => if hasFlag mode vfsOCreat then allocFileEntry cfg s else none

/-- The file a call works on, if any. -/
def target (cfg : FsConfig) (s : FsState) : FsOp → Option Nat
  | .open name mode => name.bind fun n => openFile cfg s n.stripSlash mode
  | .read fd _ _ => fdFile s fd
  | .write fd _ => fdFile s fd
  | .close fd => fdFile s fd
  | .delete name => name.bind fun n => findFile cfg s n.stripSlash

theorem Resolved.openFile {cfg : FsConfig} {s s₁ : FsState} {name : CStr} {mode : UInt32} {i : Nat}
    (h : Resolved cfg s name mode i s₁) : openFile cfg s name mode = some i := by
  cases h with
  | found h => simp [PicoOS.Fs.openFile, h]
  | created absent creat h => simp [PicoOS.Fs.openFile, absent, creat, h]

/-- With no flash errors to come, none come after a call. -/
theorem step_flashRc {cfg : FsConfig} {s : FsState} (nil : s.flashRc = []) (op : FsOp) :
    (step cfg s op).flashRc = [] := by
  have resolved {name : CStr} {mode : UInt32} {i : Nat} {s₁ : FsState}
      (file : Resolved cfg s name mode i s₁) : s₁.flashRc = [] := by
    cases file with
    | found _ => exact nil
    | created _ _ _ => exact (createEntry_flashOnly ..).flashRc nil
  cases op with
  | «open» name mode =>
    simp only [step]
    have call := fsOpen_cases cfg s name mode
    generalize fsOpen cfg s name mode = r at call ⊢
    cases call with
    | missing _ => exact nil
    | busy _ file _ _ => exact resolved file
    | full _ file _ _ =>
      split
      · exact (claimed_flashRc ..).trans (resolved file)
      · exact resolved file
    | done _ file _ _ => exact (claimed_flashRc ..).trans (resolved file)
  | read fd buf n =>
    simp only [step]
    have call := fsRead_cases s fd buf n
    generalize fsRead s fd buf n = r at call ⊢
    cases call <;> exact nil
  | write fd buf =>
    simp only [step]
    have call := fsWrite_cases s fd buf
    generalize fsWrite s fd buf = r at call ⊢
    cases call <;> exact nil
  | close fd =>
    simp only [step]
    have call := fsClose_cases cfg s fd
    generalize fsClose cfg s fd = r at call ⊢
    cases call with
    | invalid _ => exact nil
    | clean _ _ _ => exact nil
    | committed _ _ _ flash _ => exact flash.flashRc nil
  | delete name =>
    simp only [step]
    have call := fsDelete_cases cfg s name
    generalize fsDelete cfg s name = r at call ⊢
    cases call with
    | missing _ => exact nil
    | done _ _ flash _ => exact flash.flashRc ((removeEntry_flashRc ..).trans nil)

theorem exec_flashRc {cfg : FsConfig} {s : FsState} (nil : s.flashRc = []) (ops : List FsOp) :
    (Run.exec (step cfg) s ops).flashRc = [] :=
  Run.exec_invariant (I := fun s : FsState => s.flashRc = []) (fun _ op h => step_flashRc h op) nil ops

/-- Everything that can happen to the filesystem between two power-ons and at one:
a call, `fs_format`, or a reboot that mounts whatever flash holds. -/
inductive FsEvent where
  | call (op : FsOp)
  | format
  | reboot

def eventStep (cfg : FsConfig) (s : FsState) : FsEvent → FsState
  | .call op => step cfg s op
  | .format => fsFormat cfg s
  | .reboot => fsInit cfg (.powerOn s.flash s.flashRc)

/-- A filesystem just initialised on some flash, whatever that flash holds and
whichever flash operations are going to fail. -/
def Booted (cfg : FsConfig) (s : FsState) : Prop :=
  ∃ flash flashRc, s = fsInit cfg (.powerOn flash flashRc)

/-- States the running filesystem can be in. -/
def Reachable (cfg : FsConfig) : FsState → Prop := Run.Reachable (eventStep cfg) (Booted cfg)

/-! ### The descriptor invariant -/

/-- `ofd` is open for writing. -/
def OpenFd.Writer (ofd : OpenFd) : Prop := ofd.used = true ∧ hasFlag ofd.mode vfsOWronly = true

structure Inv (cfg : FsConfig) (s : FsState) : Prop where
  /-- Open descriptors lie in the table and denote existing files. -/
  bound : ∀ fd, (s.openFds fd).used = true → fd < fsMaxOpenFds ∧
    (s.openFds fd).fileIdx < cfg.fsMaxFiles ∧ (s.entry (s.openFds fd).fileIdx).used = true
  /-- The write buffer belongs to the file being written. -/
  owner : ∀ fd, (s.openFds fd).Writer → s.scratchOwner = some (s.openFds fd).fileIdx
  /-- At most one descriptor writes. -/
  unique : ∀ fd fd', (s.openFds fd).Writer → (s.openFds fd').Writer → fd = fd'
  /-- Only writers have unsaved data. -/
  dirty : ∀ fd, (s.openFds fd).used = true → (s.openFds fd).dirty = true →
    hasFlag (s.openFds fd).mode vfsOWronly = true

namespace Inv

variable {cfg : FsConfig} {s s' : FsState}

/-- With the buffer free nothing is open for writing. -/
theorem no_writer (h : Inv cfg s) (free : s.scratchOwner = none) (fd : Nat) :
    ¬ (s.openFds fd).Writer := by
  intro writer
  have owner := h.owner fd writer
  rw [free] at owner
  cases owner

/-- The invariant looks at the descriptors, the owner and the used flags only. -/
theorem congr (h : Inv cfg s) (fds : s'.openFds = s.openFds)
    (owner : s'.scratchOwner = s.scratchOwner ∨ ∀ fd, ¬ (s.openFds fd).Writer)
    (used : ∀ i, (s.entry i).used = true → (s'.entry i).used = true) : Inv cfg s' := by
  refine ⟨fun fd hu => ?_, fun fd hw => ?_, ?_, ?_⟩
  · rw [fds] at hu ⊢
    obtain ⟨lt, idx, exists_⟩ := h.bound fd hu
    exact ⟨lt, idx, used _ exists_⟩
  · rw [fds] at hw ⊢
    rcases owner with same | none
    · rw [same]; exact h.owner fd hw
    · exact absurd hw (none fd)
  · rw [fds]; exact h.unique
  · rw [fds]; exact h.dirty

/-- Installing descriptor `ofd` in slot `fd`. -/
theorem setFd (h : Inv cfg s) (fd : Nat) (ofd : OpenFd)
    (bound : ofd.used = true → fd < fsMaxOpenFds ∧ ofd.fileIdx < cfg.fsMaxFiles ∧
      (s.entry ofd.fileIdx).used = true)
    (owner : ofd.Writer → s.scratchOwner = some ofd.fileIdx ∧
      ∀ k, k ≠ fd → ¬ (s.openFds k).Writer)
    (dirty : ofd.used = true → ofd.dirty = true → hasFlag ofd.mode vfsOWronly = true) :
    Inv cfg (s.setFd fd ofd) := by
  refine ⟨fun k => ?_, fun k => ?_, fun k k' => ?_, fun k => ?_⟩
  · simp only [setFd_openFds, setFd_entry]
    split
    next eq => subst eq; exact bound
    · exact h.bound k
  · simp only [setFd_openFds, setFd_scratchOwner]
    split
    · exact fun hw => (owner hw).1
    · exact h.owner k
  · simp only [setFd_openFds]
    split <;> split <;> intro hw hw'
    next eq eq' => exact eq.trans eq'.symm
    next ne => exact absurd hw' ((owner hw).2 _ ne)
    next ne _ => exact absurd hw ((owner hw').2 _ ne)
    · exact h.unique k k' hw hw'
  · simp only [setFd_openFds]
    split
    · exact dirty
    · exact h.dirty k

/-- Moving a cursor, or marking a writer dirty. -/
theorem touchFd (h : Inv cfg s) (fd : Nat) (ofd : OpenFd) (used : ofd.used = (s.openFds fd).used)
    (file : ofd.fileIdx = (s.openFds fd).fileIdx) (mode : ofd.mode = (s.openFds fd).mode)
    (dirty : ofd.dirty = (s.openFds fd).dirty ∨ hasFlag ofd.mode vfsOWronly = true) :
    Inv cfg (s.setFd fd ofd) := by
  have writer : ofd.Writer ↔ (s.openFds fd).Writer := by simp only [OpenFd.Writer, used, mode]
  apply h.setFd
  · rw [used, file]
    exact h.bound fd
  · intro hw
    refine ⟨file ▸ h.owner fd (writer.mp hw), fun k ne hk => ne ?_⟩
    exact h.unique k fd hk (writer.mp hw)
  · intro hu hd
    rcases dirty with same | writing
    · rw [mode]
      exact h.dirty fd (used ▸ hu) (same ▸ hd)
    · exact writing

/-- Closing descriptor `fd`: the buffer is free afterwards, or keeps its owner
while `fd` was no writer. -/
theorem closeFd (h : Inv cfg s) (fd : Nat) {owner : Option Nat}
    (free : owner = s.scratchOwner ∨ (s.openFds fd).Writer) :
    Inv cfg ({ s with scratchOwner := owner }.setFd fd (closedFd (s.openFds fd))) := by
  have notOpen : (closedFd (s.openFds fd)).used = false := rfl
  refine ⟨fun k => ?_, fun k => ?_, fun k k' => ?_, fun k => ?_⟩ <;>
    simp only [setFd_openFds]
  · split
    · simp [notOpen]
    · exact h.bound k
  · split
    · simp [OpenFd.Writer, notOpen]
    next ne =>
      intro hw
      rcases free with same | writer
      · rw [setFd_scratchOwner, same]; exact h.owner k hw
      · exact absurd (h.unique k fd hw writer) ne
  · split <;> split <;> intro hw hw'
    next eq eq' => exact eq.trans eq'.symm
    · simp [OpenFd.Writer, notOpen] at hw
    · simp [OpenFd.Writer, notOpen] at hw'
    · exact h.unique k k' hw hw'
  · split
    · simp [notOpen]
    · exact h.dirty k

theorem flashOnly {touched : Nat → Prop} (h : Inv cfg s) (flash : FlashOnly touched s s') :
    Inv cfg s' :=
  h.congr flash.openFds (.inl flash.scratchOwner) fun i => by simp [flash.entry]

theorem createEntry (h : Inv cfg s) (i : Nat) (name : CStr) : Inv cfg (createEntry cfg s i name) := by
  refine h.congr (createEntry_openFds ..) (.inl (createEntry_scratchOwner ..)) fun j => ?_
  rw [createEntry_entry]
  split
  · exact fun _ => rfl
  · exact id

theorem resolved (h : Inv cfg s) {name : CStr} {mode : UInt32} {i : Nat}
    (file : Resolved cfg s name mode i s') : Inv cfg s' := by
  cases file with
  | found _ => exact h
  | created _ _ _ => exact h.createEntry i name

theorem claimed (h : Inv cfg s) (i : Nat) (mode : UInt32)
    (free : hasFlag mode vfsOWronly = true → s.scratchOwner = none) :
    Inv cfg (claimed s i mode) := by
  refine h.congr (claimed_openFds ..) ?_ fun j => by rw [claimed_used]; exact id
  rw [claimed_scratchOwner]
  split
  next writing => exact .inr (h.no_writer (free writing))
  · exact .inl rfl

end Inv

theorem Resolved.used {cfg : FsConfig} {s s₁ : FsState} {name : CStr} {mode : UInt32} {i : Nat}
    (h : Resolved cfg s name mode i s₁) : i < cfg.fsMaxFiles ∧ (s₁.entry i).used = true := by
  cases h with
  | found h => exact ⟨(findFile_some h).1, (findFile_some h).2.1⟩
  | created _ _ h => exact ⟨(allocFileEntry_some h).1, by rw [createEntry_entry, if_pos rfl]; rfl⟩

namespace Inv

variable {cfg : FsConfig} {s s' : FsState}

theorem opened {name : Option CStr} {mode : UInt32} {r : Int × FsState} (h : Inv cfg s)
    (call : Opened cfg s name mode r) : Inv cfg r.2 := by
  cases call with
  | missing _ => exact h
  | busy _ file _ _ => exact h.resolved file
  | @full n i s₁ _ file owner _ =>
    split
    next writing =>
      refine ((h.resolved file).claimed i mode owner).congr rfl (.inr ?_) fun _ => id
      rw [claimed_openFds]
      exact (h.resolved file).no_writer (owner writing)
    · exact h.resolved file
  | @done n i s₁ fd _ file owner slot =>
    have inv₁ := h.resolved file
    apply (inv₁.claimed i mode owner).setFd
    · exact fun _ => ⟨(allocOpenFd_some slot).1, file.used.1, by
        rw [claimed_used]; exact file.used.2⟩
    · rintro ⟨-, writing⟩
      rw [claimed_openFds, claimed_scratchOwner]
      exact ⟨if_pos writing, fun k _ => inv₁.no_writer (owner writing) k⟩
    · exact fun _ hd => absurd hd (by simp [openedFd])

theorem readResult {fd : Int} {buf : Bool} {n : Nat} {r : Int × List UInt8 × FsState}
    (h : Inv cfg s) (call : ReadResult s fd buf n r) : Inv cfg r.2.2 := by
  cases call with
  | invalid _ => exact h
  | empty _ _ => exact h
  | done _ isFd _ _ =>
    subst isFd
    exact h.touchFd _ _ rfl rfl rfl (.inl rfl)

theorem writeResult {fd : Int} {buf : Option (List UInt8)} {r : Int × FsState}
    (h : Inv cfg s) (call : WriteResult s fd buf r) : Inv cfg r.2 := by
  cases call with
  | invalid _ => exact h
  | empty _ _ => exact h
  | refused _ _ _ _ => exact h
  | @done data ofd len _ _ isFd writing _ _ =>
    subst isFd
    have touched := h.touchFd fd.toNat { s.openFds fd.toNat with
      pos := (s.openFds fd.toNat).pos + len, dirty := true } rfl rfl rfl (.inr writing)
    refine touched.congr rfl (.inl rfl) fun j => ?_
    rw [setEntry_entry]
    split
    next eq =>
      subst eq
      unfold grown
      split <;> exact id
    · exact id

theorem closed {fd : Int} {r : Int × FsState} (h : Inv cfg s) (call : Closed cfg s fd r) :
    Inv cfg r.2 := by
  cases call with
  | invalid _ => exact h
  | @clean ofd valid isFd _ =>
    subst isFd
    apply h.closeFd
    unfold releasedOwner
    split
    next release => exact .inr ⟨((validFd_iff fd).mp valid).2.2, release.1⟩
    · exact .inl rfl
  | @committed ofd rc s₁ valid isFd dirty flash _ =>
    subst isFd
    have used := ((validFd_iff fd).mp valid).2.2
    rw [← flash.openFds]
    apply (h.flashOnly flash).closeFd
    rw [flash.openFds]
    exact .inr ⟨used, h.dirty _ used dirty⟩

theorem forceClose (h : Inv cfg s) (i : Nat) : Inv cfg (forceClose s i) := by
  have kept (fd : Nat) (hu : ((PicoOS.Fs.forceClose s i).openFds fd).used = true) :
      (PicoOS.Fs.forceClose s i).openFds fd = s.openFds fd ∧ (s.openFds fd).fileIdx ≠ i := by
    simp only [PicoOS.Fs.forceClose] at hu ⊢
    split at hu
    · cases hu
    next keep => exact ⟨if_neg keep, fun eq => keep ⟨(h.bound fd hu).1, hu, eq⟩⟩
  refine ⟨fun fd hu => ?_, fun fd hw => ?_, fun fd fd' hw hw' => ?_, fun fd hu => ?_⟩
  · have same := (kept fd hu).1
    rw [same] at hu ⊢
    exact h.bound fd hu
  · obtain ⟨same, ne⟩ := kept fd hw.1
    rw [same] at hw ⊢
    simp only [PicoOS.Fs.forceClose]
    rw [h.owner fd hw, if_neg fun eq => ne (Option.some.inj eq)]
  · rw [(kept fd hw.1).1] at hw
    rw [(kept fd' hw'.1).1] at hw'
    exact h.unique fd fd' hw hw'
  · have same := (kept fd hu).1
    rw [same] at hu ⊢
    exact h.dirty fd hu

/-- Removing the entry of a file that no descriptor denotes. -/
theorem removeEntry (h : Inv cfg s) (i : Nat)
    (closed : ∀ fd, (s.openFds fd).used = true → (s.openFds fd).fileIdx ≠ i) :
    Inv cfg (removeEntry s i) := by
  have fds := removeEntry_openFds s i
  refine ⟨fun fd hu => ?_, ?_, by rw [fds]; exact h.unique, by rw [fds]; exact h.dirty⟩
  · rw [fds] at hu ⊢
    rw [removeEntry_entry, if_neg (closed fd hu)]
    exact h.bound fd hu
  · rw [fds, removeEntry_scratchOwner]
    exact h.owner

theorem deleted {name : Option CStr} {r : Int × FsState} (h : Inv cfg s)
    (call : Deleted cfg s name r) : Inv cfg r.2 := by
  cases call with
  | missing _ => exact h
  | @done n i rc s₁ _ _ flash _ =>
    refine Inv.flashOnly ((h.forceClose i).removeEntry i fun fd hu eq => ?_) flash
    simp only [PicoOS.Fs.forceClose] at hu eq
    split at hu
    · cases hu
    next keep =>
      rw [if_neg keep] at eq
      exact keep ⟨(h.bound fd hu).1, hu, eq⟩

theorem step (h : Inv cfg s) (op : FsOp) : Inv cfg (step cfg s op) := by
  cases op with
  | «open» name mode => exact h.opened (fsOpen_cases cfg s name mode)
  | read fd buf n => exact h.readResult (fsRead_cases s fd buf n)
  | write fd buf => exact h.writeResult (fsWrite_cases s fd buf)
  | close fd => exact h.closed (fsClose_cases cfg s fd)
  | delete name => exact h.deleted (fsDelete_cases cfg s name)

/-- With every descriptor closed and the buffer free, nothing is left to check. -/
theorem of_closed (fds : ∀ fd, (s.openFds fd).used = false) : Inv cfg s := by
  refine ⟨fun fd hu => ?_, fun fd hw => ?_, fun fd _ hw => ?_, fun fd hu => ?_⟩
  · rw [fds] at hu; cases hu
  · rw [OpenFd.Writer, fds] at hw; cases hw.1
  · rw [OpenFd.Writer, fds] at hw; cases hw.1
  · rw [fds] at hu; cases hu

end Inv

/-! ### Reachable states -/

theorem fsInit_closed (cfg : FsConfig) (flash : Nat → UInt8) (flashRc : List Int) (fd : Nat) :
    ((fsInit cfg (.powerOn flash flashRc)).openFds fd).used = false := by
  have mount := fsInit_cases cfg flash flashRc
  generalize fsInit cfg (.powerOn flash flashRc) = s at mount ⊢
  cases mount with
  | mounted _ => rfl
  | blank _ flashOnly _ =>
    rw [flashOnly.openFds]
    simp only [formatted]
    split <;> rfl

theorem Booted.inv {cfg : FsConfig} {s : FsState} (h : Booted cfg s) : Inv cfg s := by
  obtain ⟨flash, flashRc, rfl⟩ := h
  exact .of_closed (fsInit_closed cfg flash flashRc)

/-- A format closes every descriptor. -/
theorem Inv.fsFormat_closed {cfg : FsConfig} {s : FsState} (h : Inv cfg s) (fd : Nat) :
    ((PicoOS.Fs.fsFormat cfg s).openFds fd).used = false := by
  rw [(fsFormat_flashOnly cfg s).1.openFds]
  simp only [formatted]
  split
  · rfl
  next outside =>
    cases hu : (s.openFds fd).used with
    | false => rfl
    | true => exact absurd (h.bound fd hu).1 outside

theorem Inv.fsFormat {cfg : FsConfig} {s : FsState} (h : Inv cfg s) : Inv cfg (fsFormat cfg s) :=
  .of_closed h.fsFormat_closed

theorem Inv.eventStep {cfg : FsConfig} {s : FsState} (h : Inv cfg s) (e : FsEvent) :
    Inv cfg (eventStep cfg s e) := by
  cases e with
  | call op => exact h.step op
  | format => exact h.fsFormat
  | reboot => exact Booted.inv ⟨s.flash, s.flashRc, rfl⟩

/-- The descriptor invariant holds in every reachable state. -/
theorem Reachable.inv {cfg : FsConfig} {s : FsState} (h : Reachable cfg s) : Inv cfg s :=
  Run.Reachable.invariant (I := Inv cfg) (fun _ => Booted.inv) (fun _ e hs => hs.eventStep e) h

/-- Only the slots of the table can be in use. -/
theorem Inv.closed_of_table {cfg : FsConfig} {s : FsState} (h : Inv cfg s)
    (table : ∀ fd, fd < fsMaxOpenFds → (s.openFds fd).used = false) (fd : Nat) :
    (s.openFds fd).used = false := by
  cases hu : (s.openFds fd).used with
  | false => rfl
  | true => rw [table fd (h.bound fd hu).1] at hu; cases hu

theorem Inv.exec {cfg : FsConfig} {s : FsState} (h : Inv cfg s) (ops : List FsOp) :
    Inv cfg (Run.exec (PicoOS.Fs.step cfg) s ops) :=
  Run.exec_invariant (I := Inv cfg) (fun _ op hs => hs.step op) h ops

/-! ### A small filesystem -/

/-- Two files on erased flash, for concrete runs. -/
def twoFiles : FsConfig := ⟨2, by decide⟩

def fileA : CStr := ⟨[0x61], by decide⟩
def fileB : CStr := ⟨[0x62], by decide⟩

def freshFs : FsState := fsInit twoFiles (.powerOn (fun _ => 0xFF) [])

theorem freshFs_booted : Booted twoFiles freshFs := ⟨_, _, rfl⟩

def createA : FsOp := .open (some fileA) (vfsOWronly ||| vfsOCreat)
def createB : FsOp := .open (some fileB) (vfsOWronly ||| vfsOCreat)

/-- File `a` is open for writing and has unsaved data. -/
def pendingA : FsState := Run.exec (step twoFiles) freshFs [createA, .write 0 (some [0x41, 0x42])]

theorem pendingA_reachable : Reachable twoFiles pendingA :=
  ⟨freshFs, [.call createA, .call (.write 0 (some [0x41, 0x42]))], freshFs_booted, rfl⟩

end PicoOS.Fs
