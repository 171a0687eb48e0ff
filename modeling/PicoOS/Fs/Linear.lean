import PicoOS.Lib.Linear
import PicoOS.Fs.Failures
import PicoOS.Fs.Readers

/-!
# The filesystem called by several threads

`fs_read`, `fs_write` and `fs_close` test the descriptor before `fs_take_lock`
and do their work under the lock, so another thread can close the descriptor in
between. Where the test would still pass under the lock, the calls are
linearizable, and what a write has reported is on flash after the close.
-/
namespace PicoOS.Fs

variable {cfg : FsConfig} {s : FsState}

/-! ### The two halves of a call -/

/-- What a call returns, with the bytes it stores through the caller's pointer. -/
abbrev Returned := Int × List UInt8

/-- The tests in front of `fs_take_lock`. -/
def unlockedCheck (s : FsState) : FsOp → Option Returned
  | .open name _ => if name.isNone then some (-1, []) else none
  | .read fd buf n =>
    if !validFd s fd then some (-1, [])
    else if !buf || n == 0 then some (0, [])
    else none
  | .write fd buf =>
    if !validFd s fd then some (-1, [])
    else match buf with
    | none => some (0, [])
    | some data => if data.length = 0 then some (0, []) else none
  | .close fd => if !validFd s fd then some (-1, []) else none
  | .delete name => if name.isNone then some (-1, []) else none

/-- `fs_read` under the lock. -/
def readLocked (s : FsState) (fd : Int) (n : Nat) : Returned × FsState :=
  let ofd := s.openFds fd.toNat
  let toRead := min n ((s.entry ofd.fileIdx).size.toNat - ofd.pos)
  if 0 < toRead then
    ((toRead, readSource s ofd toRead), s.setFd fd.toNat { ofd with pos := ofd.pos + toRead })
  else ((0, []), s)

/-- `fs_write` under the lock. -/
def writeLocked (s : FsState) (fd : Int) (data : List UInt8) : Returned × FsState :=
  let ofd := s.openFds fd.toNat
  let toWrite := min data.length (fsMaxFileData - ofd.pos)
  if hasFlag ofd.mode vfsOWronly && decide (0 < toWrite) then
    let e := s.entry ofd.fileIdx
    let pos := ofd.pos + toWrite
    let s := { s with fsBuffer := Memory.write s.fsBuffer ofd.pos (data.take toWrite) }
    let s := s.setFd fd.toNat { ofd with pos := pos, dirty := true }
    let s := if e.size.toNat < pos then s.setEntry ofd.fileIdx { e with size := UInt32.ofNat pos }
      else s
    ((toWrite, []), s)
  else ((-1, []), s)

/-- `fs_close` under the lock. -/
def closeLocked (cfg : FsConfig) (s : FsState) (fd : Int) : Returned × FsState :=
  let ofd := s.openFds fd.toNat
  let (rc, s) := if ofd.dirty then commit cfg s ofd.fileIdx else (0, s)
  let s := if hasFlag ofd.mode vfsOWronly && s.scratchOwner == some ofd.fileIdx then
    { s with scratchOwner := none } else s
  ((rc, []), s.setFd fd.toNat { ofd with used := false, dirty := false })

/-- The section of a call. `fs_open` and `fs_delete` have no test of their own to repeat there. -/
def locked (cfg : FsConfig) (s : FsState) : FsOp → Returned × FsState
  | .open name mode => (((fsOpen cfg s name mode).1, []), (fsOpen cfg s name mode).2)
  | .read fd _ n => readLocked s fd n
  | .write fd buf => writeLocked s fd (buf.getD [])
  | .close fd => closeLocked cfg s fd
  | .delete name => (((fsDelete cfg s name).1, []), (fsDelete cfg s name).2)

def fsObject (cfg : FsConfig) : Linear.Object FsState FsOp Returned := ⟨unlockedCheck, locked cfg⟩

/-- A call that no other thread interrupts. -/
def fsCall (cfg : FsConfig) (s : FsState) : FsOp → Returned × FsState
  | .open name mode => (((fsOpen cfg s name mode).1, []), (fsOpen cfg s name mode).2)
  | .read fd buf n => (((fsRead s fd buf n).1, (fsRead s fd buf n).2.1), (fsRead s fd buf n).2.2)
  | .write fd buf => (((fsWrite s fd buf).1, []), (fsWrite s fd buf).2)
  | .close fd => (((fsClose cfg s fd).1, []), (fsClose cfg s fd).2)
  | .delete name => (((fsDelete cfg s name).1, []), (fsDelete cfg s name).2)

theorem fsCall_step (cfg : FsConfig) (s : FsState) (op : FsOp) :
    (fsCall cfg s op).2 = step cfg s op := by
  cases op <;> rfl

/-- Test and section together are the call. -/
theorem fsObject_call (cfg : FsConfig) : (fsObject cfg).call = fsCall cfg := by
  funext s op
  cases op with
  | «open» name mode => cases name <;> rfl
  | read fd buf n =>
    simp only [Linear.Object.call, fsObject, unlockedCheck, locked, fsCall, fsRead, readLocked]
    split_ifs <;> rfl
  | write fd buf =>
    simp only [Linear.Object.call, fsObject, unlockedCheck, locked, fsCall, fsWrite, writeLocked]
    cases buf with
    | none => split_ifs <;> rfl
    | some data =>
      simp only [Option.getD_some]
      split_ifs <;> rfl
  | close fd =>
    simp only [Linear.Object.call, fsObject, unlockedCheck, locked, fsCall, fsClose, closeLocked]
    cases validFd s fd <;> rfl
  | delete name => cases name <;> rfl

/-! ### What a write has stored -/

/-- The session of `fd` on file `i` has stored `bytes` at `pos`, behind its cursor. -/
structure Holding (cfg : FsConfig) (fd i pos : Nat) (bytes : List UInt8) (s : FsState) : Prop where
  session : ∃ name sector, InSession cfg fd i name sector s
  dirty : (s.openFds fd).dirty = true
  behind : pos + bytes.length ≤ (s.openFds fd).pos
  fits : pos + bytes.length ≤ fsMaxFileData
  size : pos + bytes.length ≤ (s.entry i).size.toNat
  stored : Memory.read s.fsBuffer pos bytes.length = bytes

variable {fd i : Nat} {name : Vector UInt8 16} {sector : List UInt8}

/-- While a session goes on its cursor moves forward, its dirty mark stays and the buffer keeps
the bytes behind the cursor. -/
theorem InSession.step_buffer (h : InSession cfg fd i name sector s) (op : FsOp)
    (goesOn : ¬ endsSession cfg fd i s op) :
    (s.openFds fd).pos ≤ ((PicoOS.Fs.step cfg s op).openFds fd).pos ∧
      ((s.openFds fd).dirty = true → ((PicoOS.Fs.step cfg s op).openFds fd).dirty = true) ∧
      ∀ a < (s.openFds fd).pos, (PicoOS.Fs.step cfg s op).fsBuffer a = s.fsBuffer a := by
  have owner : s.scratchOwner = some i := h.file ▸ h.inv.owner fd h.writer
  by_cases other : target cfg s op ≠ some i
  · have frame := FileFrame.step h.inv op other
    rw [frame.kept fd h.writer.1 h.file, frame.pending owner]
    exact ⟨Nat.le_refl _, id, fun _ _ => rfl⟩
  rw [not_not] at other
  -- the other calls on the file itself
  have same : (s.openFds fd).pos ≤ (s.openFds fd).pos ∧
      ((s.openFds fd).dirty = true → (s.openFds fd).dirty = true) ∧
      ∀ a < (s.openFds fd).pos, s.fsBuffer a = s.fsBuffer a :=
    ⟨Nat.le_refl _, id, fun _ _ => rfl⟩
  cases op with
  | «open» n mode =>
    simp only [PicoOS.Fs.step]
    rcases h.opened other (fsOpen_cases cfg s n mode) with unchanged | ⟨slot, ofd, free, opened⟩
    · rw [unchanged]
      exact same
    · have ne : fd ≠ slot := by
        rintro rfl
        rw [h.writer.1] at free
        cases free
      rw [opened, setFd_openFds, if_neg ne]
      exact same
  | read f buf n =>
    simp only [PicoOS.Fs.step]
    have call := fsRead_cases s f buf n
    generalize fsRead s f buf n = r at call ⊢
    cases call with
    | invalid _ => exact same
    | empty _ _ => exact same
    | done _ isFd _ _ =>
      subst isFd
      rw [setFd_openFds]
      split
      next eq =>
        subst eq
        exact ⟨Nat.le_add_right _ _, id, fun _ _ => rfl⟩
      · exact same
  | write f buf =>
    simp only [PicoOS.Fs.step]
    have call := fsWrite_cases s f buf
    generalize fsWrite s f buf = r at call ⊢
    cases call with
    | invalid _ => exact same
    | empty _ _ => exact same
    | refused _ _ _ _ => exact same
    | @done data ofd len valid _ isFd writing _ _ =>
      subst isFd
      -- a file has one writer, so this is the session's descriptor
      have mine : f.toNat = fd :=
        h.inv.unique _ _ ⟨((validFd_iff f).mp valid).2.2, writing⟩ h.writer
      rw [setEntry_openFds, setFd_openFds, if_pos mine.symm, mine]
      refine ⟨Nat.le_add_right _ _, fun _ => rfl, fun a before => ?_⟩
      exact Memory.write_outside _ _ _ _ (.inl before)
  | close f =>
    have ne (valid : validFd s f = true) : fd ≠ f.toNat := by
      rintro rfl
      exact goesOn (Int.toNat_of_nonneg ((validFd_iff f).mp valid).1).symm
    simp only [PicoOS.Fs.step]
    have call := fsClose_cases cfg s f
    generalize fsClose cfg s f = r at call ⊢
    cases call with
    | invalid _ => exact same
    | clean valid _ _ =>
      rw [setFd_openFds, if_neg (ne valid)]
      exact same
    | committed valid isFd dirty _ _ =>
      subst isFd
      have used := ((validFd_iff f).mp valid).2.2
      have writer : (s.openFds f.toNat).Writer := ⟨used, h.inv.dirty _ used dirty⟩
      exact absurd (h.inv.unique _ _ h.writer writer) (ne valid)
  | delete n => exact absurd other goesOn

namespace Holding

variable {pos : Nat} {bytes : List UInt8}

theorem step (h : Holding cfg fd i pos bytes s) (op : FsOp)
    (goesOn : ¬ endsSession cfg fd i s op) :
    Holding cfg fd i pos bytes (PicoOS.Fs.step cfg s op) := by
  obtain ⟨name, sector, session⟩ := h.session
  obtain ⟨cursor, dirty, buffer⟩ := session.step_buffer op goesOn
  refine ⟨⟨name, sector, session.step op goesOn⟩, dirty h.dirty, h.behind.trans cursor, h.fits, ?_,
    ?_⟩
  · rw [session.step_size op goesOn]
    exact h.size.trans (Nat.le_max_left _ _)
  · rw [← h.stored, Memory.length_read]
    apply Memory.read_congr
    intro a _ upper
    exact buffer a (upper.trans_le h.behind)

theorem exec (h : Holding cfg fd i pos bytes s) {ops : List FsOp}
    (goesOn : Run.Along (PicoOS.Fs.step cfg) (fun s op => ¬ endsSession cfg fd i s op) s ops) :
    Holding cfg fd i pos bytes (Run.exec (PicoOS.Fs.step cfg) s ops) :=
  Run.Along.invariant (I := Holding cfg fd i pos bytes) (fun _ op hs => hs.step op) h goesOn

end Holding

/-- A write that reports `n` bytes has put the first `n` of its data at the cursor. -/
theorem Inv.holding {fd : Int} {data : List UInt8} {n : Nat} (inv : Inv cfg s)
    (reported : (fsWrite s fd (some data)).1 = n) (any : 0 < n) :
    0 ≤ fd ∧ n ≤ data.length ∧ Holding cfg fd.toNat (s.openFds fd.toNat).fileIdx
      (s.openFds fd.toNat).pos (data.take n) (fsWrite s fd (some data)).2 := by
  have call := fsWrite_cases s fd (some data)
  have inv' := inv.writeResult call
  generalize hr : fsWrite s fd (some data) = r at call reported inv' ⊢
  cases call with
  | invalid _ => simp at reported
  | empty _ _ => simp at reported; omega
  | refused _ _ _ _ => simp at reported
  | @done _ ofd len valid given isFd writing isLen _ =>
    cases given
    subst isFd
    obtain ⟨lower, -, used⟩ := (validFd_iff fd).mp valid
    obtain rfl : len = n := Int.ofNat_inj.mp reported
    have fits : len ≤ data.length ∧ (s.openFds fd.toNat).pos + len ≤ fsMaxFileData := by
      unfold writable at isLen
      omega
    have length : (data.take len).length = len := by rw [List.length_take]; omega
    have session : InSession cfg fd.toNat (s.openFds fd.toNat).fileIdx
        (s.entry (s.openFds fd.toNat).fileIdx).name
        (Memory.read s.flash (fileFlashOffset (s.openFds fd.toNat).fileIdx) fsBlockSize) s :=
      ⟨inv, ⟨used, writing⟩, rfl, (inv.bound _ used).2.2, rfl, rfl⟩
    have after := session.step (.write fd (some data)) id
    change InSession cfg _ _ _ _ (fsWrite s fd (some data)).2 at after
    rw [hr] at after
    refine ⟨lower, fits.1, ⟨_, _, after⟩, ?_, ?_, ?_, ?_, ?_⟩
    · rw [setEntry_openFds, setFd_openFds, if_pos rfl]
    · rw [setEntry_openFds, setFd_openFds, if_pos rfl, length]
    · rw [length]
      exact fits.2
    · rw [setEntry_entry, if_pos rfl, grown_size _ fits.2, length]
      exact Nat.le_max_right _ _
    · rw [length]
      apply List.ext_getElem
      · rw [Memory.length_read, length]
      · intro k _ inside
        rw [Memory.getElem_read]
        exact Memory.write_inside _ _ _ k inside

/-- A commit that succeeds has erased and programmed the sector. -/
theorem commit_ok (ok : (commit cfg s i).1 = 0) :
    (flashEraseSector (fileFlashOffset i) s).1 = 0 ∧
      (flashProgramSector (fileFlashOffset i) s.fsBuffer
        (flashEraseSector (fileFlashOffset i) s).2).1 = 0 := by
  have erased : (flashEraseSector (fileFlashOffset i) s).1 = 0 := by
    by_contra failed
    rw [commit_erase_failed failed] at ok
    cases ok
  refine ⟨erased, ?_⟩
  by_contra failed
  have buffer : (flashEraseSector (fileFlashOffset i) s).2.fsBuffer = s.fsBuffer := rfl
  simp [commit, erased, buffer, failed] at ok

/-- A close that reports success leaves the stored bytes in the file. -/
theorem Holding.close {fd : Int} {pos : Nat} {bytes : List UInt8}
    (h : Holding cfg fd.toNat i pos bytes s) (lower : 0 ≤ fd) (ok : (fsClose cfg s fd).1 = 0) :
    segment (fileContent (fsClose cfg s fd).2 i) pos bytes.length = bytes := by
  obtain ⟨name, sector, session⟩ := h.session
  have valid : validFd s fd = true := by
    have bound := (session.inv.bound _ session.writer.1).1
    exact (validFd_iff fd).mpr ⟨lower, bound, session.writer.1⟩
  have committed : (commit cfg s i).1 = 0 := by
    rw [← session.file]
    simpa [fsClose, valid, h.dirty] using ok
  have entry : (fsClose cfg s fd).2.entry i = s.entry i := by
    have call := fsClose_cases cfg s fd
    generalize fsClose cfg s fd = r at call ⊢
    cases call with
    | invalid invalid => simp [valid] at invalid
    | clean _ isFd clean => simp [← isFd, h.dirty] at clean
    | committed _ _ _ flash _ => exact flash.entry i
  have covered : pos + bytes.length ≤ ((fsClose cfg s fd).2.entry i).size.toNat := by
    rw [entry]
    exact h.size
  rw [fileContent, segment_read _ _ covered, fsClose_flash valid h.dirty, session.file]
  obtain ⟨erased, programmed⟩ := commit_ok committed
  rw [← h.stored, Memory.length_read]
  apply Memory.read_eq_read
  intro k inside
  rw [Nat.add_assoc]
  apply commit_stored erased programmed
  have := h.fits
  simp only [fsMaxFileData] at this
  omega

/-! ### Threads -/

variable {τ : Type}

/-- The descriptor that a call tests before the lock. -/
def testedFd : FsOp → Option Int
  | .read fd _ _ => some fd
  | .write fd _ => some fd
  | .close fd => some fd
  | _ => none

/-- A thread that has tested a descriptor finds it in use when it gets `fs_mutex`. -/
def stillOpen (m : Linear.System τ FsState FsOp Returned) : Linear.Label τ FsOp → Bool
  | .act t =>
    match m.phase t with
    | .locking _ op =>
      match testedFd op with
      | some fd => validFd m.state fd
      | none => true
    | _ => true
  | _ => true

/-- Only the descriptor can change what the tests say. -/
theorem unlockedCheck_again {s₁ : FsState} {op : FsOp} (passed : unlockedCheck s₁ op = none)
    (inUse : ∀ fd, testedFd op = some fd → validFd s fd = true) : unlockedCheck s op = none := by
  cases op with
  | «open» name mode => exact passed
  | read fd buf n =>
    have valid : validFd s fd = true := inUse fd rfl
    simp only [unlockedCheck] at passed ⊢
    rw [valid]
    split at passed
    · cases passed
    · exact passed
  | write fd buf =>
    have valid : validFd s fd = true := inUse fd rfl
    simp only [unlockedCheck] at passed ⊢
    rw [valid]
    split at passed
    · cases passed
    · exact passed
  | close fd =>
    have valid : validFd s fd = true := inUse fd rfl
    simp only [unlockedCheck, valid]
    rfl
  | delete name => exact passed

/-- The state after the calls of a history. -/
def stateAfter (cfg : FsConfig) (s : FsState) (cs : List (Linear.Call τ FsOp Returned)) : FsState :=
  Run.exec (step cfg) s (cs.map (·.op))

theorem sequential_stateAfter {s' : FsState} {cs : List (Linear.Call τ FsOp Returned)}
    (h : Linear.Sequential (fsCall cfg) s cs s') : s' = stateAfter cfg s cs := by
  induction cs generalizing s with
  | nil => exact h.symm
  | cons c cs ih =>
    rw [ih h.2, fsCall_step]
    rfl

/-- Where a write reports `n` bytes and the next call to end the session of its descriptor is a
close that returns 0, the file holds these bytes at the place where they were written. -/
def WritesCommitted (cfg : FsConfig) (s₀ : FsState) (order : List (Linear.Call τ FsOp Returned)) :
    Prop :=
  ∀ (before between after : List (Linear.Call τ FsOp Returned)) (w c : Linear.Call τ FsOp Returned)
    (fd : Int) (data : List UInt8) (n : Nat),
    order = before ++ w :: (between ++ c :: after) → w.op = .write fd (some data) →
    w.result.1 = n → 0 < n → c.op = .close fd → c.result.1 = 0 →
    let ofd := (stateAfter cfg s₀ before).openFds fd.toNat
    Run.Along (step cfg) (fun s op => ¬ endsSession cfg fd ofd.fileIdx s op)
      (stateAfter cfg s₀ (before ++ [w])) (between.map (·.op)) →
    segment (fileContent (stateAfter cfg s₀ (before ++ w :: (between ++ [c]))) ofd.fileIdx) ofd.pos
      n = data.take n

theorem Inv.writesCommitted {s₀ s' : FsState} (inv : Inv cfg s₀)
    {order : List (Linear.Call τ FsOp Returned)}
    (legal : Linear.Sequential (fsCall cfg) s₀ order s') : WritesCommitted cfg s₀ order := by
  intro before between after w c fd data n cut isWrite reported any isClose closed ofd goesOn
  subst cut
  obtain ⟨s, first, wrote, later⟩ := legal.split
  obtain ⟨s₂, during, ended, -⟩ := Linear.Sequential.split later
  obtain rfl := sequential_stateAfter first
  have inv' : Inv cfg (stateAfter cfg s₀ before) := inv.exec _
  rw [isWrite] at wrote during
  rw [← wrote] at reported
  obtain ⟨lower, covered, holding⟩ := inv'.holding reported any
  rw [← Int.toNat_of_nonneg lower] at goesOn
  have next : stateAfter cfg s₀ (before ++ [w]) =
      (fsWrite (stateAfter cfg s₀ before) fd (some data)).2 := by
    simp only [stateAfter, List.map_append, Run.exec_append, List.map_cons, List.map_nil, isWrite]
    rfl
  rw [next] at goesOn
  have held := holding.exec goesOn
  obtain rfl := sequential_stateAfter during
  rw [isClose] at ended
  rw [← ended] at closed
  have stored := held.close lower closed
  have last : stateAfter cfg s₀ (before ++ w :: (between ++ [c])) =
      (fsClose cfg (stateAfter cfg (fsWrite (stateAfter cfg s₀ before) fd (some data)).2 between)
        fd).2 := by
    rw [← next]
    simp only [stateAfter, List.map_append, List.map_cons, List.map_nil, Run.exec_append,
      Run.exec_cons, Run.exec_nil, isClose]
    rfl
  rw [List.length_take, Nat.min_eq_left covered] at stored
  rw [last]
  exact stored

/-- Calls of any number of threads are linearizable in every run in which no descriptor is closed
between the test and the section of a call on it. -/
theorem calls_linearizable [DecidableEq τ] (cfg : FsConfig) {s₀ : FsState}
    (reachable : Reachable cfg s₀) (ls : List (Linear.Label τ FsOp))
    (inUse : Run.Along (Linear.step (fsObject cfg)) (fun m l => stillOpen m l = true)
      (Linear.start s₀) ls) :
    ∃ order, Linear.Linearization (fsCall cfg) s₀
        (Run.exec (Linear.step (fsObject cfg)) (Linear.start s₀) ls) order ∧
      WritesCommitted cfg s₀ order := by
  have fresh : Run.Along (Linear.step (fsObject cfg)) (Linear.Fresh (fsObject cfg))
      (Linear.start s₀) ls := by
    refine Run.Along.gives (I := fun m => ∀ t k op, m.phase t = .locking k op →
      ∃ s, (fsObject cfg).check s op = none) ?_ ?_ (by simp [Linear.start]) inUse
    · exact fun m l passed _ => Linear.locking_passed _ l passed
    · intro m l passed now
      cases l with
      | act t =>
        simp only [Linear.Fresh]
        simp only [stillOpen] at now
        split
        next k op locking =>
          rw [locking] at now
          obtain ⟨s₁, check⟩ := passed t k op locking
          refine unlockedCheck_again check fun fd tested => ?_
          simpa [tested] using now
        · trivial
      | _ => trivial
  obtain ⟨order, linear⟩ := Linear.linearizable _ _ fresh
  rw [fsObject_call] at linear
  exact ⟨order, linear, reachable.inv.writesCommitted linear.legal⟩

/-! ### Two threads -/

/-- File `a` has just been created and is open for writing as descriptor 0. -/
def openedA : FsState := Run.exec (step twoFiles) freshFs [createA]

theorem openedA_reachable : Reachable twoFiles openedA :=
  ⟨freshFs, [.call createA], freshFs_booted, rfl⟩

def writeA : FsOp := .write 0 (some [0x41, 0x42])

/-- The second thread creates `b` between the test and the section of the first one's write. -/
theorem write_beside_create :
    ∃ order, Linear.Linearization (fsCall twoFiles) openedA
        (Run.exec (Linear.step (fsObject twoFiles)) (Linear.start openedA)
          [.invoke false writeA, .check false, .invoke true createB, .check true, .act true,
            .act false, .finish false, .finish true]) order ∧
      WritesCommitted twoFiles openedA order :=
  calls_linearizable twoFiles openedA_reachable _ (by decide +kernel)

/-- The second thread closes the descriptor between the test and the section of the first one's
write. -/
def overtaken : Linear.System Bool FsState FsOp Returned :=
  Run.exec (Linear.step (fsObject twoFiles)) (Linear.start openedA)
    [.invoke false writeA, .check false, .invoke true (.close 0), .check true, .act true,
      .finish true, .act false, .finish false]

/-- The write reports two bytes, which never reach flash: made before the close it would have
committed them, and made after it it would have failed. -/
theorem close_overtakes_write :
    overtaken.returned = [(⟨true, 1, .close 0, (0, [])⟩, 2), (⟨false, 0, writeA, (2, [])⟩, 2)] ∧
      ¬ ∃ order, Linear.Linearization (fsCall twoFiles) openedA overtaken order := by
  have returned : overtaken.returned =
      [(⟨true, 1, .close 0, (0, [])⟩, 2), (⟨false, 0, writeA, (2, [])⟩, 2)] := by
    rfl
  refine ⟨returned, ?_⟩
  rintro ⟨order, legal, ⟨pending, -, member_iff, perm⟩, -⟩
  have done : pending = [] := by
    refine List.eq_nil_iff_forall_not_mem.mpr fun c member => ?_
    have answered := (member_iff c).mp member
    have idle : overtaken.phase c.thread = .idle := by
      cases c.thread <;> rfl
    rw [idle] at answered
    cases answered
  rw [returned, done] at perm
  rcases List.perm_pair.mp perm with rfl | rfl
  · -- the write fails on the closed descriptor
    exact absurd (congrArg Prod.fst legal.2.1) (by decide +kernel)
  · -- the close commits the bytes
    have flash := congrArg (fun s => s.flash (fileFlashOffset 0)) legal.2.2
    exact absurd flash (by decide +kernel)

end PicoOS.Fs
