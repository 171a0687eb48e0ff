import PicoOS.Fs.Directory
import PicoOS.Fs.PowerLoss

/-!
# What a file contains after a write session

The reference is one overlay of the joined chunks over the old content. A write
session keeps the buffer equal to the overlay of what it has stored so far, the
close puts the buffer on flash, and readers walk through it slice by slice. What is
lost is lost with the name: a file that an open has created under a name that is too
long is not found by it again.
-/
namespace PicoOS.Fs

variable {cfg : FsConfig} {s : FsState} {i : Nat}

/-! ### The reference -/

/-- The content a write session starts from. -/
def refBase (mode : UInt32) (c : List UInt8) : List UInt8 := if hasFlag mode vfsOTrunc then [] else c

/-- The position of its first byte. -/
def refStart (mode : UInt32) (c : List UInt8) : Nat :=
  if hasFlag mode vfsOAppend then (refBase mode c).length else 0

/-- What each write returns: the bytes stored, or -1 when nothing fits. -/
def refWrites : Nat → List (List UInt8) → List Int
  | _, [] => []
  | pos, chunk :: chunks =>
    let stored := min chunk.length (fsMaxFileData - pos)
    (if chunk ≠ [] ∧ stored = 0 then -1 else (stored : Int)) :: refWrites (pos + stored) chunks

/-- What reads of the given sizes return: consecutive slices and their lengths. -/
def refReads : List UInt8 → List Nat → List (Int × List UInt8)
  | _, [] => []
  | content, n :: ns => ((content.take n).length, content.take n) :: refReads (content.drop n) ns

/-! ### Sessions inside a run -/

/-- The chunk that a call writes through descriptor `fd`. -/
def writeChunk (fd : Int) : FsOp → Option (List UInt8)
  | .write f (some chunk) => if f = fd then some chunk else none
  | _ => none

/-- The results of the writes on `fd` in a run. -/
def writeResults (cfg : FsConfig) (fd : Int) : FsState → List FsOp → List Int
  | _, [] => []
  | s, op :: ops =>
    match writeChunk fd op with
    | some chunk => (fsWrite s fd (some chunk)).1 :: writeResults cfg fd (step cfg s op) ops
    | none => writeResults cfg fd (step cfg s op) ops

/-- The size that a call reads through descriptor `fd`. -/
def readSize (fd : Int) : FsOp → Option Nat
  | .read f true n => if f = fd then some n else none
  | _ => none

/-- The results of the reads on `fd` in a run, each with the bytes it stored. -/
def readResults (cfg : FsConfig) (fd : Int) : FsState → List FsOp → List (Int × List UInt8)
  | _, [] => []
  | s, op :: ops =>
    match readSize fd op with
    | some n => ((fsRead s fd true n).1, (fsRead s fd true n).2.1) ::
        readResults cfg fd (step cfg s op) ops
    | none => readResults cfg fd (step cfg s op) ops

/-- A call of the session, or one that does not work on file `i`. -/
def WritesOrOther (cfg : FsConfig) (fd : Int) (i : Nat) (s : FsState) (op : FsOp) : Prop :=
  writeChunk fd op ≠ none ∨ target cfg s op ≠ some i

def ReadsOrOther (cfg : FsConfig) (fd : Int) (i : Nat) (s : FsState) (op : FsOp) : Prop :=
  readSize fd op ≠ none ∨ target cfg s op ≠ some i

/-- A call that works on file `i`, or makes an entry that is found under its name as well. -/
def Touches (cfg : FsConfig) (name : CStr) (i : Nat) (s : FsState) (op : FsOp) : Prop :=
  target cfg s op = some i ∨ AddsName cfg name s op

/-- A call of the session, or one that leaves file `i` and its name alone. -/
def SessionCall (cfg : FsConfig) (name : CStr) (fd : Int) (i : Nat) (s : FsState) (op : FsOp) :
    Prop :=
  writeChunk fd op ≠ none ∨ ¬ Touches cfg name i s op

theorem writeChunk_some {fd : Int} {op : FsOp} {chunk : List UInt8}
    (h : writeChunk fd op = some chunk) : op = .write fd (some chunk) := by
  cases op with
  | write f buf =>
    cases buf with
    | none => cases h
    | some c =>
      simp only [writeChunk, Option.ite_none_right_eq_some, Option.some.injEq] at h
      rw [h.1, h.2]
  | _ => cases h

theorem readSize_some {fd : Int} {op : FsOp} {n : Nat} (h : readSize fd op = some n) :
    op = .read fd true n := by
  cases op with
  | read f buf m =>
    cases buf with
    | false => cases h
    | true =>
      simp only [readSize, Option.ite_none_right_eq_some, Option.some.injEq] at h
      rw [h.1, h.2]
  | _ => cases h

/-! ### The write session -/

/-- A session on file `i` through `fd` that began at `start` over `base` and has been
given the bytes `given`, of which it stored those that fit. -/
structure Writing (cfg : FsConfig) (fd : Int) (i : Nat) (base : List UInt8) (start : Nat)
    (given : List UInt8) (s : FsState) : Prop where
  inv : Inv cfg s
  flashRc : s.flashRc = []
  valid : validFd s fd = true
  file : (s.openFds fd.toNat).fileIdx = i
  mode : hasFlag (s.openFds fd.toNat).mode vfsOWronly = true
  inBase : start ≤ base.length
  fits : base.length ≤ fsMaxFileData
  pos : (s.openFds fd.toNat).pos = start + (given.take (fsMaxFileData - start)).length
  dirty : (s.openFds fd.toNat).dirty = decide (given.take (fsMaxFileData - start) ≠ [])
  size : (s.entry i).size.toNat =
    (Memory.overlay base start (given.take (fsMaxFileData - start))).length
  buffer : Memory.read s.fsBuffer 0 (s.entry i).size.toNat =
    Memory.overlay base start (given.take (fsMaxFileData - start))
  sector : Memory.read s.flash (fileFlashOffset i) base.length = base

/-- A file whose size fits its sector keeps its content through calls on other files. -/
theorem FileFrame.read_sector {s' : FsState} {len : Nat} (h : FileFrame i s s')
    (fits : len ≤ fsBlockSize) :
    Memory.read s'.flash (fileFlashOffset i) len = Memory.read s.flash (fileFlashOffset i) len := by
  apply Memory.read_congr
  intro a lower upper
  have := h.sector (a - fileFlashOffset i) (by omega)
  rwa [Nat.add_sub_cancel' lower] at this

namespace Writing

variable {fd : Int} {base given : List UInt8} {start : Nat} {s' : FsState}

theorem used (h : Writing cfg fd i base start given s) : (s.openFds fd.toNat).used = true :=
  ((validFd_iff fd).mp h.valid).2.2

theorem owner (h : Writing cfg fd i base start given s) : s.scratchOwner = some i :=
  h.file ▸ h.inv.owner _ ⟨h.used, h.mode⟩

/-- Calls on other files do not disturb the session. -/
theorem other (h : Writing cfg fd i base start given s) (op : FsOp)
    (other : target cfg s op ≠ some i) : Writing cfg fd i base start given (step cfg s op) := by
  have frame := FileFrame.step h.inv op other
  have same := frame.kept fd.toNat h.used h.file
  have buffer := frame.pending h.owner
  refine ⟨h.inv.step op, step_flashRc h.flashRc op, ?_, ?_, ?_, h.inBase, h.fits, ?_, ?_, ?_, ?_, ?_⟩
  · rw [validFd_iff, same]
    exact (validFd_iff fd).mp h.valid
  · rw [same]; exact h.file
  · rw [same]; exact h.mode
  · rw [same]; exact h.pos
  · rw [same]; exact h.dirty
  · rw [frame.entry]; exact h.size
  · rw [frame.entry, buffer]; exact h.buffer
  · rw [frame.read_sector h.fits]; exact h.sector

end Writing

/-- Taking what fits of the old bytes and then what fits of the new ones. -/
theorem take_append_fits (given chunk : List UInt8) (room : Nat) :
    given.take room ++ chunk.take (min chunk.length (room - (given.take room).length)) =
      (given ++ chunk).take room := by
  have count : min chunk.length (room - (given.take room).length) =
      min (room - given.length) chunk.length := by
    rw [List.length_take]
    omega
  rw [count, ← List.take_eq_take_min, List.take_append]

theorem grown_size (e : FsEntry) {pos : Nat} (small : pos ≤ fsMaxFileData) :
    (grown e pos).size.toNat = max e.size.toNat pos := by
  simp only [fsMaxFileData, fsBlockSize] at small
  unfold grown
  split
  next grows => rw [UInt32.toNat_ofNat_of_lt' (by simp only [UInt32.size]; omega)]; omega
  · omega

namespace Writing

variable {fd : Int} {base given : List UInt8} {start : Nat} {s' : FsState}

theorem regive {given' : List UInt8} (h : Writing cfg fd i base start given s)
    (same : given'.take (fsMaxFileData - start) = given.take (fsMaxFileData - start)) :
    Writing cfg fd i base start given' s := by
  obtain ⟨inv, rc, valid, file, mode, inBase, fits, pos, dirty, size, buffer, sector⟩ := h
  rw [← same] at pos dirty size buffer
  exact ⟨inv, rc, valid, file, mode, inBase, fits, pos, dirty, size, buffer, sector⟩

/-- One write of the session, with the result of the reference. -/
theorem write (h : Writing cfg fd i base start given s) (chunk : List UInt8) {pos stored : Nat}
    (isPos : (s.openFds fd.toNat).pos = pos)
    (isStored : min chunk.length (fsMaxFileData - pos) = stored) :
    (fsWrite s fd (some chunk)).1 = (if chunk ≠ [] ∧ stored = 0 then -1 else (stored : Int)) ∧
      Writing cfg fd i base start (given ++ chunk) (fsWrite s fd (some chunk)).2 ∧
      ((fsWrite s fd (some chunk)).2.openFds fd.toNat).pos = pos + stored := by
  have inv := h.inv.writeResult (fsWrite_cases s fd (some chunk))
  have taken := take_append_fits given chunk (fsMaxFileData - start)
  have cursor := h.pos
  rw [isPos] at cursor
  have count : min chunk.length (fsMaxFileData - start -
      (given.take (fsMaxFileData - start)).length) = stored := by omega
  rw [count] at taken
  have call := fsWrite_cases s fd (some chunk)
  generalize fsWrite s fd (some chunk) = r at call inv ⊢
  cases call with
  | invalid invalid => rw [h.valid] at invalid; cases invalid
  | empty _ null =>
    rcases null with null | empty
    · cases null
    · cases empty
      have zero : stored = 0 := by simpa using isStored.symm
      subst zero
      exact ⟨by simp, h.regive (by simp), isPos⟩
  | refused _ given nonempty full =>
    cases given
    have zero : stored = 0 := by
      rcases full with reading | full
      · rw [h.mode] at reading; cases reading
      · rw [writable, isPos] at full
        omega
    subst zero
    exact ⟨by simp [nonempty], h.regive (by rw [← taken]; simp), isPos⟩
  | @done data ofd len _ given isFd writing isLen some =>
    cases given
    subst isFd
    rw [writable, isPos, isStored] at isLen
    subst isLen
    have used := h.used
    have bytes : (chunk.take stored).length = stored := by rw [List.length_take]; omega
    have old := Memory.length_overlay base start (given.take (fsMaxFileData - start)) h.inBase
    -- The new overlay is the old one with the stored bytes laid over it at the cursor.
    have joined : Memory.overlay base start ((given ++ chunk).take (fsMaxFileData - start)) =
        Memory.overlay (Memory.overlay base start (given.take (fsMaxFileData - start))) pos
          (chunk.take stored) := by
      rw [← taken, cursor, Memory.overlay_overlay _ _ _ _ h.inBase]
    have extended := Memory.length_overlay
      (Memory.overlay base start (given.take (fsMaxFileData - start))) pos (chunk.take stored)
      (by omega)
    have small : pos + stored ≤ fsMaxFileData := by omega
    have size := grown_size (s.entry (s.openFds fd.toNat).fileIdx) small
    rw [h.file] at size inv ⊢
    rw [isPos] at inv ⊢
    rw [h.size] at size
    refine ⟨by simp [show stored ≠ 0 by omega], ⟨inv, h.flashRc, ?_, ?_, ?_, h.inBase, h.fits, ?_,
      ?_, ?_, ?_, h.sector⟩, ?_⟩
    · rw [validFd_iff, setEntry_openFds, setFd_openFds, if_pos rfl]
      exact (validFd_iff fd).mp h.valid
    · rw [setEntry_openFds, setFd_openFds, if_pos rfl]
    · rw [setEntry_openFds, setFd_openFds, if_pos rfl]
      exact writing
    · rw [setEntry_openFds, setFd_openFds, if_pos rfl, ← taken, List.length_append, bytes]
      change pos + stored = _
      omega
    · rw [setEntry_openFds, setFd_openFds, if_pos rfl, ← taken]
      symm
      rw [decide_eq_true_eq]
      intro nil
      have := congrArg List.length nil
      rw [List.length_append, bytes, List.length_nil] at this
      omega
    · rw [setEntry_entry, if_pos rfl, size, joined, extended, bytes]
    · rw [setEntry_entry, if_pos rfl, size, joined, ← bytes]
      have merged := Memory.read_write s.fsBuffer 0 (s.entry i).size.toNat pos (chunk.take stored)
        (by rw [h.size]; omega)
      rw [h.buffer, h.size, Nat.zero_add, bytes] at merged
      rw [bytes]
      exact merged
    · rw [setEntry_openFds, setFd_openFds, if_pos rfl]

/-- The whole session: the results of its writes and what it has stored at the end. -/
theorem exec {ops : List FsOp} (h : Writing cfg fd i base start given s)
    (only : Run.Along (step cfg) (WritesOrOther cfg fd i) s ops) :
    writeResults cfg fd s ops =
        refWrites (s.openFds fd.toNat).pos (ops.filterMap (writeChunk fd)) ∧
      Writing cfg fd i base start (given ++ (ops.filterMap (writeChunk fd)).flatten)
        (Run.exec (step cfg) s ops) := by
  induction ops generalizing s given with
  | nil => simpa [writeResults, refWrites] using h
  | cons op ops ih =>
    cases kind : writeChunk fd op with
    | none =>
      -- a call that is not on the file leaves the cursor where it is
      have foreign := only.1.resolve_left (not_not.mpr kind)
      obtain ⟨results, final⟩ := ih (h.other op foreign) only.2
      have same := (FileFrame.step h.inv op foreign).kept fd.toNat h.used h.file
      rw [same] at results
      simp only [writeResults, kind, List.filterMap_cons, Run.exec_cons]
      exact ⟨results, final⟩
    | some chunk =>
      cases writeChunk_some kind
      obtain ⟨result, written, cursor⟩ := h.write chunk rfl rfl
      obtain ⟨results, final⟩ := ih written only.2
      rw [List.append_assoc] at final
      simp only [writeResults, kind, List.filterMap_cons, Run.exec_cons, refWrites,
        List.flatten_cons, result, results, cursor, step]
      exact ⟨trivial, final⟩

end Writing

/-- The content of the file called `name` before it is opened; none if the open creates it. -/
def contentBefore (cfg : FsConfig) (s : FsState) (name : CStr) : List UInt8 :=
  match findFile cfg s name.stripSlash with
  | some i => fileContent s i
  | none => []

@[simp] theorem length_fileContent (s : FsState) (i : Nat) :
    (fileContent s i).length = (s.entry i).size.toNat := Memory.length_read ..

/-- The file an open has found or created holds the content from before. -/
theorem resolved_content {s' : FsState} {name : CStr} {mode : UInt32}
    (file : Resolved cfg s name.stripSlash mode i s') :
    (s'.entry i).size.toNat = (contentBefore cfg s name).length ∧
      Memory.read s'.flash (fileFlashOffset i) (contentBefore cfg s name).length =
        contentBefore cfg s name := by
  unfold contentBefore
  cases file with
  | found found =>
    simp only [found]
    exact ⟨(length_fileContent s i).symm, by rw [length_fileContent]; rfl⟩
  | created absent _ _ =>
    simp only [absent]
    exact ⟨by rw [createEntry_entry, if_pos rfl]; rfl, rfl⟩

/-- A successful open starts a session over the file's content. -/
theorem fsOpen_writing {s₁ : FsState} {name : CStr} {mode : UInt32} {fd : Int} (inv : Inv cfg s)
    (nil : s.flashRc = [])
    (fits : (refBase mode (contentBefore cfg s name)).length ≤ fsMaxFileData)
    (opened : fsOpen cfg s (some name) mode = (fd, s₁)) (success : 0 ≤ fd)
    (writing : hasFlag mode vfsOWronly = true) (file : (s₁.openFds fd.toNat).fileIdx = i) :
    Writing cfg fd i (refBase mode (contentBefore cfg s name))
      (refStart mode (contentBefore cfg s name)) [] s₁ := by
  have inv₁ : Inv cfg s₁ := by
    have := inv.opened (fsOpen_cases cfg s (some name) mode)
    rwa [opened] at this
  have nil₁ : s₁.flashRc = [] := by
    have after : (fsOpen cfg s (some name) mode).2.flashRc = [] :=
      step_flashRc nil (.open (some name) mode)
    rwa [opened] at after
  obtain ⟨i', s', k, rfl, resolved, -, slot, rfl⟩ := fsOpen_success opened success
  have atFd : ((claimed s' i' mode).setFd k (openedFd (claimed s' i' mode) i' mode)).openFds
      (Int.ofNat k).toNat = openedFd (claimed s' i' mode) i' mode := by
    rw [setFd_openFds]
    exact if_pos rfl
  rw [atFd] at file
  change i' = i at file
  subst file
  obtain ⟨length, content⟩ := resolved_content resolved
  generalize contentBefore cfg s name = c at *
  -- an `O_TRUNC` open has set the size to 0, any other one has left it
  have size : ((claimed s' i' mode).entry i').size.toNat = (refBase mode c).length := by
    rw [claimed_entry, refBase]
    cases trunc : hasFlag mode vfsOTrunc with
    | true => simp [writing]
    | false => simpa using length
  have inBase : refStart mode c ≤ (refBase mode c).length := by
    unfold refStart
    split <;> omega
  refine ⟨inv₁, nil₁, ?_, ?_, ?_, inBase, fits, ?_, ?_, ?_, ?_, ?_⟩
  · rw [validFd_iff, atFd]
    exact ⟨success, (allocOpenFd_some slot).1, rfl⟩
  · rw [atFd]
    rfl
  · rw [atFd]
    exact writing
  · rw [atFd]
    simp only [openedFd, writing, Bool.true_and, size, refStart, List.take_nil, List.length_nil]
    rfl
  · rw [atFd]
    simp [openedFd]
  · simpa using size
  · rw [setFd_entry, size, List.take_nil, Memory.overlay_nil, setFd_fsBuffer]
    simp only [claimed, writing, if_true, claimBuffer, refBase]
    cases trunc : hasFlag mode vfsOTrunc with
    | true => rfl
    | false =>
      simp only [refBase, trunc, Bool.false_eq_true, if_false] at fits ⊢
      refine (Memory.read_copy _ _ fits).trans ?_
      exact (Memory.read_eq_read fun k _ => by rw [Nat.zero_add]).trans content
  · rw [setFd_flash, claimed_flash]
    unfold refBase
    split
    · rfl
    · exact content

theorem Writing.size_fits {fd : Int} {base given : List UInt8} {start : Nat}
    (h : Writing cfg fd i base start given s) : (s.entry i).size.toNat ≤ fsBlockSize := by
  have length := Memory.length_overlay base start (given.take (fsMaxFileData - start)) h.inBase
  have room := List.length_take_le (fsMaxFileData - start) given
  have small := h.fits
  have begins := h.inBase
  rw [h.size, length]
  simp only [fsMaxFileData] at *
  omega

/-- Closing the session leaves the overlay as the content of the file. -/
theorem Writing.close {fd : Int} {base given : List UInt8} {start : Nat}
    (h : Writing cfg fd i base start given s) :
    (fsClose cfg s fd).1 = 0 ∧ Inv cfg (fsClose cfg s fd).2 ∧
      (fsClose cfg s fd).2.entry i = s.entry i ∧ fileContent (fsClose cfg s fd).2 i =
        Memory.overlay base start (given.take (fsMaxFileData - start)) := by
  have inv := h.inv.closed (fsClose_cases cfg s fd)
  have call := fsClose_cases cfg s fd
  generalize fsClose cfg s fd = r at call inv ⊢
  cases call with
  | invalid invalid => rw [h.valid] at invalid; cases invalid
  | clean _ isFd clean =>
    -- Nothing was stored: the sector still holds the base.
    have untouched : given.take (fsMaxFileData - start) = [] := by
      by_contra stored
      have dirty := h.dirty
      rw [isFd, clean, decide_eq_true stored] at dirty
      cases dirty
    refine ⟨rfl, inv, rfl, ?_⟩
    have size := h.size
    rw [untouched, Memory.overlay_nil] at size ⊢
    change Memory.read s.flash _ (s.entry i).size.toNat = _
    rw [size]
    exact h.sector
  | @committed ofd rc s₁ _ isFd _ flash ok =>
    subst isFd
    obtain ⟨success, -, stored⟩ := ok h.flashRc
    rw [h.file] at stored
    refine ⟨success, inv, flash.entry i, ?_⟩
    rw [← h.buffer]
    change Memory.read s₁.flash _ (s₁.entry i).size.toNat = _
    rw [flash.entry]
    have fits := h.size_fits
    apply Memory.read_eq_read
    intro k hk
    rw [Nat.zero_add]
    exact stored k (by omega)

/-! ### Reading back -/

/-- Descriptor `fd` reads file `i`; `rest` is what it has not read yet. -/
structure Reading (cfg : FsConfig) (fd : Int) (i : Nat) (rest : List UInt8) (s : FsState) : Prop where
  inv : Inv cfg s
  valid : validFd s fd = true
  file : (s.openFds fd.toNat).fileIdx = i
  clean : (s.openFds fd.toNat).dirty = false
  fits : (s.entry i).size.toNat ≤ fsBlockSize
  rest : (fileContent s i).drop (s.openFds fd.toNat).pos = rest

namespace Reading

variable {fd : Int} {rest : List UInt8}

theorem used (h : Reading cfg fd i rest s) : (s.openFds fd.toNat).used = true :=
  ((validFd_iff fd).mp h.valid).2.2

theorem other (h : Reading cfg fd i rest s) (op : FsOp) (other : target cfg s op ≠ some i) :
    Reading cfg fd i rest (step cfg s op) := by
  have frame := FileFrame.step h.inv op other
  have same := frame.kept fd.toNat h.used h.file
  refine ⟨h.inv.step op, ?_, ?_, ?_, ?_, ?_⟩
  · rw [validFd_iff, same]
    exact (validFd_iff fd).mp h.valid
  · rw [same]; exact h.file
  · rw [same]; exact h.clean
  · rw [frame.entry]; exact h.fits
  · rw [same, fileContent, frame.entry, frame.read_sector h.fits]
    exact h.rest

/-- One read takes the next slice. -/
theorem read (h : Reading cfg fd i rest s) (n : Nat) :
    (fsRead s fd true n).1 = (rest.take n).length ∧ (fsRead s fd true n).2.1 = rest.take n ∧
      Reading cfg fd i (rest.drop n) (fsRead s fd true n).2.2 := by
  have inv := h.inv.readResult (fsRead_cases s fd true n)
  have restLength := congrArg List.length h.rest
  rw [List.length_drop, length_fileContent] at restLength
  have call := fsRead_cases s fd true n
  generalize fsRead s fd true n = r at call inv ⊢
  cases call with
  | invalid invalid => rw [h.valid] at invalid; cases invalid
  | empty _ nothing =>
    have none : min n rest.length = 0 := by
      rcases nothing with null | none
      · cases null
      · rw [readable, h.file] at none
        omega
    have slice : rest.take n = [] := by
      rw [← List.length_eq_zero_iff, List.length_take]
      exact none
    have same : rest.drop n = rest := by
      have parts := List.take_append_drop n rest
      rwa [slice, List.nil_append] at parts
    rw [slice, same]
    exact ⟨rfl, rfl, h⟩
  | @done ofd len _ isFd isLen some =>
    subst isFd
    rw [readable, h.file] at isLen
    have count : len = (rest.take n).length := by
      rw [List.length_take]
      omega
    have bytes : readSource s (s.openFds fd.toNat) len = rest.take n := by
      have flash : readSource s (s.openFds fd.toNat) len =
          Memory.read s.flash (fileFlashOffset i + (s.openFds fd.toNat).pos) len := by
        rw [readSource, if_neg (by simp [h.clean]), h.file]
      rw [flash, ← h.rest, fileContent, Memory.drop_read _ _ _ _ (by omega), Memory.take_read, isLen]
    -- the read was cut off at the end of the file, where nothing is left to drop
    have remaining : rest.drop len = rest.drop n := by
      by_cases all : n ≤ rest.length
      · rw [show len = n by omega]
      · rw [List.drop_eq_nil_of_le (by omega), List.drop_eq_nil_of_le (by omega)]
    refine ⟨by rw [count], bytes, inv, ?_, ?_, ?_, h.fits, ?_⟩
    · rw [validFd_iff, setFd_openFds, if_pos rfl]
      exact (validFd_iff fd).mp h.valid
    · rw [setFd_openFds, if_pos rfl]
      exact h.file
    · rw [setFd_openFds, if_pos rfl]
      exact h.clean
    · rw [setFd_openFds, if_pos rfl]
      change (fileContent s i).drop ((s.openFds fd.toNat).pos + len) = _
      rw [← List.drop_drop, h.rest, remaining]

theorem exec {ops : List FsOp} (h : Reading cfg fd i rest s)
    (only : Run.Along (step cfg) (ReadsOrOther cfg fd i) s ops) :
    readResults cfg fd s ops = refReads rest (ops.filterMap (readSize fd)) := by
  induction ops generalizing s rest with
  | nil => rfl
  | cons op ops ih =>
    cases kind : readSize fd op with
    | none =>
      have foreign := only.1.resolve_left (not_not.mpr kind)
      simp only [readResults, kind, List.filterMap_cons]
      exact ih (h.other op foreign) only.2
    | some n =>
      cases readSize_some kind
      obtain ⟨result, bytes, next⟩ := h.read n
      have results := ih next only.2
      simp only [readResults, kind, List.filterMap_cons, refReads, result, bytes]
      exact congrArg _ results

end Reading

/-! ### Finding the file again -/

/-- The session's file is still found by its name after the session. -/
theorem Writing.findFile {fd : Int} {base given : List UInt8} {start : Nat} {name : CStr}
    {ops : List FsOp} (h : Writing cfg fd i base start given s)
    (only : Run.Along (step cfg) (SessionCall cfg name fd i) s ops)
    (found : findFile cfg s name = some i) :
    PicoOS.Fs.findFile cfg (Run.exec (step cfg) s ops) name = some i := by
  induction ops generalizing s given with
  | nil => exact found
  | cons op ops ih =>
    cases kind : writeChunk fd op with
    | none =>
      have apart := only.1.resolve_left (not_not.mpr kind)
      have foreign := fun on => apart (.inl on)
      have same := (FileFrame.step h.inv op foreign).entry
      apply ih (h.other op foreign) only.2
      exact findFile_step found (fun adds => apart (.inr adds)) (by rw [same]) (by rw [same])
    | some chunk =>
      cases writeChunk_some kind
      obtain ⟨-, written, -⟩ := h.write chunk rfl rfl
      -- a write keeps the entry's name
      have present := (written.inv.bound _ written.used).2.2
      have before := (h.inv.bound _ h.used).2.2
      rw [written.file] at present
      rw [h.file] at before
      have effect := entry_effect cfg s (.write fd (some chunk)) i
      have apart : ¬ AddsName cfg name s (.write fd (some chunk)) :=
        not_addsName_of_fit found trivial
      apply ih written only.2
      apply findFile_step found apart (present.trans before.symm)
      cases effect with
      | kept _ same => exact same
      | removed gone => exact absurd present (by simp only [step] at gone; simp [gone])
      | created call _ _ _ => cases call

theorem allocOpenFd_ne_none : allocOpenFd s ≠ none ↔ ∃ k < fsMaxOpenFds, (s.openFds k).used = false := by
  rw [← Option.isSome_iff_ne_none, allocOpenFd, List.find?_isSome]
  simp

/-- A read-only open of a file that is found needs a free descriptor and no more. -/
theorem fsOpen_readOnly {name : CStr} {mode : UInt32} (found : findFile cfg s name.stripSlash = some i)
    (readOnly : hasFlag mode vfsOWronly = false) :
    0 ≤ (fsOpen cfg s (some name) mode).1 ↔ allocOpenFd s ≠ none := by
  simp only [fsOpen, lookupOrCreate, found, readOnly, Bool.false_and, Bool.false_eq_true, if_false]
  cases allocOpenFd s with
  | none => simp
  | some k => simp

/-- A close gives its descriptor back, whatever it returns. -/
theorem fsClose_frees {fd : Int} (valid : validFd s fd = true) :
    ((fsClose cfg s fd).2.openFds fd.toNat).used = false := by
  rw [fsClose, if_neg (by simp [valid])]
  dsimp only
  rw [setFd_openFds, if_pos rfl]

/-- A read-only open on file `i` starts at its first byte. -/
theorem fsOpen_reading {s₁ : FsState} {name : CStr} {mode : UInt32} {fd : Int} (inv : Inv cfg s)
    (used : (s.entry i).used = true) (fits : (s.entry i).size.toNat ≤ fsBlockSize)
    (opened : fsOpen cfg s (some name) mode = (fd, s₁)) (success : 0 ≤ fd)
    (readOnly : hasFlag mode vfsOWronly = false) (file : (s₁.openFds fd.toNat).fileIdx = i) :
    Reading cfg fd i (fileContent s i) s₁ := by
  have inv₁ : Inv cfg s₁ := by
    have := inv.opened (fsOpen_cases cfg s (some name) mode)
    rwa [opened] at this
  obtain ⟨i', s', k, rfl, resolved, -, slot, rfl⟩ := fsOpen_success opened success
  -- a reader does not claim the buffer, and its `O_TRUNC` counts for nothing
  have plain : claimed s' i' mode = s' := if_neg (by simp [readOnly])
  rw [plain] at file inv₁ ⊢
  have atFd : (s'.setFd k (openedFd s' i' mode)).openFds (Int.ofNat k).toNat =
      openedFd s' i' mode := by
    rw [setFd_openFds]
    exact if_pos rfl
  rw [atFd] at file
  change i' = i at file
  subst file
  have same : s' = s := by
    cases resolved with
    | found _ => rfl
    | created _ _ room => rw [(allocFileEntry_some room).2] at used; cases used
  subst same
  refine ⟨inv₁, ?_, by rw [atFd]; rfl, by rw [atFd]; rfl, fits, ?_⟩
  · rw [validFd_iff, atFd]
    exact ⟨success, (allocOpenFd_some slot).1, rfl⟩
  · rw [atFd]
    simp only [openedFd, readOnly, Bool.false_and]
    rfl

/-! ### The content law -/

end PicoOS.Fs
