import PicoOS.Fs.Run

/-!
# Calls on one file leave the others alone

The files share a superblock, a write buffer and a descriptor table. `FileFrame`
says what must survive for file `j`; the frame of each call is proved from the
outcomes of `Calls`, and a run composes frames.
-/
namespace PicoOS.Fs

/-- Everything that belongs to file `j` is the same in both states. -/
structure FileFrame (j : Nat) (s s' : FsState) : Prop where
  entry : s'.entry j = s.entry j
  sector : ∀ k, k < fsBlockSize → s'.flash (fileFlashOffset j + k) = s.flash (fileFlashOffset j + k)
  /-- Descriptors on `j` are neither lost, changed nor gained. -/
  kept : ∀ fd, (s.openFds fd).used = true → (s.openFds fd).fileIdx = j →
    s'.openFds fd = s.openFds fd
  gained : ∀ fd, (s'.openFds fd).used = true → (s'.openFds fd).fileIdx = j →
    s'.openFds fd = s.openFds fd
  owner : s'.scratchOwner = some j ↔ s.scratchOwner = some j
  /-- Data a writer of `j` has stored but not committed. -/
  pending : s.scratchOwner = some j → s'.fsBuffer = s.fsBuffer

namespace FileFrame

variable {cfg : FsConfig} {i j : Nat} {s s' s₁ s₂ : FsState}

theorem refl (j : Nat) (s : FsState) : FileFrame j s s :=
  ⟨rfl, fun _ _ => rfl, fun _ _ _ => rfl, fun _ _ _ => rfl, Iff.rfl, fun _ => rfl⟩

theorem trans (h : FileFrame j s s₁) (h' : FileFrame j s₁ s₂) : FileFrame j s s₂ where
  entry := h'.entry.trans h.entry
  sector k hk := (h'.sector k hk).trans (h.sector k hk)
  kept fd used file := by
    have first := h.kept fd used file
    exact (h'.kept fd (first ▸ used) (first ▸ file)).trans first
  gained fd used file := by
    have second := h'.gained fd used file
    exact second.trans (h.gained fd (second ▸ used) (second ▸ file))
  owner := h'.owner.trans h.owner
  pending own := (h'.pending (h.owner.mpr own)).trans (h.pending own)

/-- A flash operation outside the file's sector. -/
theorem of_flashOnly {touched : Nat → Prop} (flash : FlashOnly touched s s')
    (apart : ∀ a, touched a → ¬ InFile j a) : FileFrame j s s' where
  entry := flash.entry j
  sector _ hk := flash.outside fun ht => apart _ ht (inFile_add hk)
  kept _ _ _ := by rw [flash.openFds]
  gained _ _ _ := by rw [flash.openFds]
  owner := by rw [flash.scratchOwner]
  pending _ := flash.fsBuffer

/-- Changing a descriptor slot that does not denote `j` before or after. -/
theorem setFd (fd : Nat) (ofd : OpenFd) (before : (s.openFds fd).used = true →
      (s.openFds fd).fileIdx ≠ j) (after : ofd.used = true → ofd.fileIdx ≠ j) :
    FileFrame j s (s.setFd fd ofd) where
  entry := rfl
  sector _ _ := rfl
  kept k used file := by
    rw [setFd_openFds, if_neg]
    rintro rfl
    exact before used file
  gained k used file := by
    rw [setFd_openFds] at used file ⊢
    split at used
    next eq => rw [if_pos eq] at file; exact absurd file (after used)
    next ne => rw [if_neg ne]
  owner := Iff.rfl
  pending _ := rfl

theorem setEntry (e : FsEntry) (ne : i ≠ j) : FileFrame j s (s.setEntry i e) where
  entry := by rw [setEntry_entry, if_neg ne.symm]
  sector _ _ := rfl
  kept _ _ _ := rfl
  gained _ _ _ := rfl
  owner := Iff.rfl
  pending _ := rfl

/-- The buffer and its owner may change while `j` does not own it. -/
theorem rebuffer (buffer : Nat → UInt8) (owner : Option Nat) (before : s.scratchOwner ≠ some j)
    (after : owner ≠ some j) :
    FileFrame j s { s with fsBuffer := buffer, scratchOwner := owner } where
  entry := rfl
  sector _ _ := rfl
  kept _ _ _ := rfl
  gained _ _ _ := rfl
  owner := iff_of_false after before
  pending own := absurd own before

theorem recount (count : UInt32) :
    FileFrame j s { s with superblockRam := { s.superblockRam with fileCount := count } } where
  entry := rfl
  sector _ _ := rfl
  kept _ _ _ := rfl
  gained _ _ _ := rfl
  owner := Iff.rfl
  pending _ := rfl

theorem createEntry (name : CStr) (ne : i ≠ j) : FileFrame j s (createEntry cfg s i name) := by
  have written : FileFrame j s (filled s i name) := (setEntry (newEntry i name) ne).trans (recount _)
  refine written.trans (of_flashOnly (createEntry_flashOnly cfg s i name) ?_)
  exact fun a inSb inFile => inFile.not_superblock inSb

theorem claimed (mode : UInt32) (ne : i ≠ j)
    (free : hasFlag mode vfsOWronly = true → s.scratchOwner = none) :
    FileFrame j s (claimed s i mode) := by
  unfold PicoOS.Fs.claimed
  split
  next writing =>
    have notMine : s.scratchOwner ≠ some j := by simp [free writing]
    have owner : some i ≠ some j := fun eq => ne (Option.some.inj eq)
    unfold claimBuffer
    dsimp only
    split
    · exact (rebuffer _ _ notMine owner).trans (setEntry _ ne)
    · exact rebuffer _ _ notMine owner
  · exact refl j s

theorem resolved {name : CStr} {mode : UInt32} (file : Resolved cfg s name mode i s') (ne : i ≠ j) :
    FileFrame j s s' := by
  cases file with
  | found _ => exact refl j s
  | created _ _ _ => exact createEntry name ne

theorem opened {name : Option CStr} {mode : UInt32} {r : Int × FsState}
    (call : Opened cfg s name mode r)
    (other : (name.bind fun n => openFile cfg s n.stripSlash mode) ≠ some j) :
    FileFrame j s r.2 := by
  cases call with
  | missing _ => exact refl j s
  | busy given file _ _ =>
    subst given
    exact resolved file fun eq => other (eq ▸ file.openFile)
  | @full n i s₁ given file owner _ =>
    subst given
    have ne : i ≠ j := fun eq => other (eq ▸ file.openFile)
    have found := resolved file ne
    split
    next writing =>
      refine (found.trans (claimed mode ne owner)).trans (rebuffer _ none ?_ (by simp))
      rw [claimed_scratchOwner, if_pos writing]
      exact fun eq => ne (Option.some.inj eq)
    · exact found
  | @done n i s₁ fd given file owner slot =>
    subst given
    have ne : i ≠ j := fun eq => other (eq ▸ file.openFile)
    refine ((resolved file ne).trans (claimed mode ne owner)).trans (setFd fd _ ?_ fun _ => ne)
    rw [claimed_openFds, (allocOpenFd_some slot).2]
    exact fun used => by cases used

theorem readResult {fd : Int} {buf : Bool} {n : Nat} {r : Int × List UInt8 × FsState}
    (call : ReadResult s fd buf n r) (other : fdFile s fd ≠ some j) : FileFrame j s r.2.2 := by
  cases call with
  | invalid _ => exact refl j s
  | empty _ _ => exact refl j s
  | done valid isFd _ _ =>
    subst isFd
    rw [fdFile_valid valid] at other
    have ne : (s.openFds fd.toNat).fileIdx ≠ j := fun eq => other (congrArg some eq)
    exact setFd _ _ (fun _ => ne) fun _ => ne

/-- A write needs the buffer, so its file owns the buffer and `j` does not. -/
theorem writeResult {fd : Int} {buf : Option (List UInt8)} {r : Int × FsState} (inv : Inv cfg s)
    (call : WriteResult s fd buf r) (other : fdFile s fd ≠ some j) : FileFrame j s r.2 := by
  cases call with
  | invalid _ => exact refl j s
  | empty _ _ => exact refl j s
  | refused _ _ _ _ => exact refl j s
  | @done data ofd len valid _ isFd writing _ _ =>
    subst isFd
    have used := ((validFd_iff fd).mp valid).2.2
    rw [fdFile_valid valid] at other
    have ne : (s.openFds fd.toNat).fileIdx ≠ j := fun eq => other (congrArg some eq)
    have notMine : s.scratchOwner ≠ some j := inv.owner _ ⟨used, writing⟩ ▸ other
    have stored := rebuffer (j := j) (Memory.write s.fsBuffer (s.openFds fd.toNat).pos (data.take len))
      s.scratchOwner notMine notMine
    have advanced := stored.trans (setFd fd.toNat { s.openFds fd.toNat with
      pos := (s.openFds fd.toNat).pos + len, dirty := true } (fun _ => ne) fun _ => ne)
    exact advanced.trans (setEntry _ ne)

theorem closed {fd : Int} {r : Int × FsState} (inv : Inv cfg s) (call : Closed cfg s fd r)
    (other : fdFile s fd ≠ some j) : FileFrame j s r.2 := by
  cases call with
  | invalid _ => exact refl j s
  | @clean ofd valid isFd _ =>
    subst isFd
    rw [fdFile_valid valid] at other
    have ne : (s.openFds fd.toNat).fileIdx ≠ j := fun eq => other (congrArg some eq)
    have released : FileFrame j s
        { s with scratchOwner := releasedOwner s (s.openFds fd.toNat) } := by
      unfold releasedOwner
      split
      next release => exact rebuffer s.fsBuffer none (release.2 ▸ other) (by simp)
      · exact refl j s
    exact released.trans (setFd fd.toNat _ (fun _ => ne) fun _ => ne)
  | @committed ofd rc s₁ valid isFd dirty flash _ =>
    subst isFd
    have used := ((validFd_iff fd).mp valid).2.2
    rw [fdFile_valid valid] at other
    have ne : (s.openFds fd.toNat).fileIdx ≠ j := fun eq => other (congrArg some eq)
    have written : FileFrame j s s₁ := of_flashOnly flash fun a touched inFile =>
      touched.elim (fun h => ne (h.unique inFile)) inFile.not_superblock
    have notMine : s₁.scratchOwner ≠ some j := by
      rw [flash.scratchOwner, inv.owner _ ⟨used, inv.dirty _ used dirty⟩]
      exact other
    refine (written.trans (rebuffer s₁.fsBuffer none notMine (by simp))).trans
      (setFd fd.toNat _ (fun _ => ?_) fun _ => ne)
    rw [flash.openFds]
    exact ne

theorem forceClose (ne : i ≠ j) : FileFrame j s (forceClose s i) where
  entry := rfl
  sector _ _ := rfl
  kept fd _ file := if_neg fun h => ne (h.2.2.symm.trans file)
  gained fd used _ := by
    simp only [PicoOS.Fs.forceClose] at used ⊢
    split at used
    · cases used
    next keep => exact if_neg keep
  owner := by
    simp only [PicoOS.Fs.forceClose]
    split
    next mine => simp [mine, ne]
    · exact Iff.rfl
  pending _ := rfl

theorem removeEntry (ne : i ≠ j) : FileFrame j s (removeEntry s i) := by
  unfold PicoOS.Fs.removeEntry
  dsimp only
  split
  · exact (setEntry _ ne).trans (recount _)
  · exact setEntry _ ne

theorem deleted {name : Option CStr} {r : Int × FsState} (call : Deleted cfg s name r)
    (other : (name.bind fun n => findFile cfg s n.stripSlash) ≠ some j) : FileFrame j s r.2 := by
  cases call with
  | missing _ => exact refl j s
  | @done n i rc s₁ given found flash _ =>
    subst given
    have ne : i ≠ j := fun eq => other (eq ▸ found)
    refine ((forceClose ne).trans (removeEntry ne)).trans (of_flashOnly flash ?_)
    exact fun a touched inFile => touched.elim (fun h => ne (h.unique inFile)) inFile.not_superblock

/-- A call on another file, or on none, leaves file `j` alone. -/
theorem step (inv : Inv cfg s) (op : FsOp) (other : target cfg s op ≠ some j) :
    FileFrame j s (step cfg s op) := by
  cases op with
  | «open» name mode => exact opened (fsOpen_cases cfg s name mode) other
  | read fd buf n => exact readResult (fsRead_cases s fd buf n) other
  | write fd buf => exact writeResult inv (fsWrite_cases s fd buf) other
  | close fd => exact closed inv (fsClose_cases cfg s fd) other
  | delete name => exact deleted (fsDelete_cases cfg s name) other

theorem exec (inv : Inv cfg s) {ops : List FsOp}
    (others : Run.Along (PicoOS.Fs.step cfg) (fun s op => target cfg s op ≠ some j) s ops) :
    FileFrame j s (Run.exec (PicoOS.Fs.step cfg) s ops) := by
  induction ops generalizing s with
  | nil => exact refl j s
  | cons op ops ih => exact (step inv op others.1).trans (ih (inv.step op) others.2)

end FileFrame

/-- File isolation: calls on other files, one or many, leave file `j` alone, and
what a pending writer of `j` commits afterwards is the buffer it had before. -/
theorem calls_keep_other_files (cfg : FsConfig) (s : FsState) (reachable : Reachable cfg s) (j : Nat)
    (ops : List FsOp)
    (others : Run.Along (step cfg) (fun s op => target cfg s op ≠ some j) s ops) :
    FileFrame j s (Run.exec (step cfg) s ops) ∧
      ∀ fd, fdFile s fd = some j → (s.openFds fd.toNat).dirty = true → s.flashRc = [] →
        ∀ k, k < fsBlockSize →
          (fsClose cfg (Run.exec (step cfg) s ops) fd).2.flash (fileFlashOffset j + k) =
            s.fsBuffer k := by
  have frame := FileFrame.exec reachable.inv others
  refine ⟨frame, fun fd mine dirty nil k hk => ?_⟩
  obtain ⟨valid, file⟩ := fdFile_eq_some.mp mine
  obtain ⟨lower, upper, used⟩ := (validFd_iff fd).mp valid
  have same := frame.kept fd.toNat used file
  have owner := reachable.inv.owner _ ⟨used, reachable.inv.dirty _ used dirty⟩
  have call := fsClose_cases cfg (Run.exec (step cfg) s ops) fd
  generalize fsClose cfg (Run.exec (step cfg) s ops) fd = r at call ⊢
  cases call with
  | invalid h => rw [(validFd_iff fd).mpr ⟨lower, upper, same ▸ used⟩] at h; cases h
  | clean _ isFd clean => rw [← isFd, same, dirty] at clean; cases clean
  | committed _ isFd _ _ ok =>
    subst isFd
    obtain ⟨-, -, stored⟩ := ok (exec_flashRc nil ops)
    rw [same, file] at stored
    exact (stored k hk).trans (congrFun (frame.pending (file ▸ owner)) k)

/-- Creating and deleting `b` while `a` has unsaved data. -/
theorem pendingA_survives_createB_deleteB :
    FileFrame 0 pendingA (Run.exec (step twoFiles) pendingA [createB, .delete (some fileB)]) ∧
      ∀ k, k < fsBlockSize → (fsClose twoFiles (Run.exec (step twoFiles) pendingA
        [createB, .delete (some fileB)]) 0).2.flash (fileFlashOffset 0 + k) = pendingA.fsBuffer k := by
  have law := calls_keep_other_files twoFiles pendingA pendingA_reachable 0
    [createB, .delete (some fileB)] ⟨by decide +kernel, by decide +kernel, trivial⟩
  exact ⟨law.1, law.2 0 (by decide +kernel) (by decide +kernel) (by decide +kernel)⟩

end PicoOS.Fs
