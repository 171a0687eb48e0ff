import PicoOS.Fs.Names
import Mathlib

/-!
# The names in the directory

`fs_open` stores 15 bytes of a name and `find_file` compares 16, so a longer
name is stored as another one: it is never found again, and the name it is cut
down to may be there already. Every other create keeps the directory unambiguous.
-/
namespace PicoOS.Fs

variable {cfg : FsConfig} {s s' : FsState}

/-! ### Stored names -/

instance CStr.decidableEq : DecidableEq CStr :=
  inferInstanceAs (DecidableEq { bytes : List UInt8 // 0 ∉ bytes })

/-- Two entries with the same name. -/
def sameName (a b : FsEntry) : Bool := strncmpEq a.nameByte b.nameByte fsNameMax

/-- A name that is too long does not match the entry that was made for it. -/
theorem newEntry_hasName_iff (i : Nat) (name : CStr) :
    hasName (newEntry i name) name = true ↔ name.Fits :=
  ⟨fits_of_newEntry, newEntry_hasName i⟩

/-- An entry that matches a name has the name of every other entry that does. -/
theorem sameName_of_hasName {a b : FsEntry} {name : CStr} (ha : hasName a name = true)
    (hb : hasName b name = true) : sameName a b = true := by
  simp only [hasName, Bool.and_eq_true] at ha hb
  exact strncmpEq_trans ha.2 (strncmpEq_symm hb.2)

/-- No entry in use has the name that an entry created for `name` would get. -/
def Fresh (cfg : FsConfig) (s : FsState) (name : CStr) : Prop :=
  ∀ k < cfg.fsMaxFiles, (s.entry k).used = true → sameName (s.entry k) (newEntry k name) = false

/-- A name that fits and is not found is stored under itself. -/
theorem fresh_of_absent {name : CStr} (fits : name.Fits) (absent : findFile cfg s name = none) :
    Fresh cfg s name := by
  intro k inside used
  rw [← Bool.not_eq_true]
  intro same
  have whole := newEntry_hasName k fits
  simp only [hasName, Bool.and_eq_true] at whole
  have found : hasName (s.entry k) name = true := by
    simp only [hasName, Bool.and_eq_true]
    exact ⟨used, strncmpEq_trans same whole.2⟩
  rw [findFile_eq_none.mp absent k inside] at found
  cases found

/-! ### What a call does to the directory -/

/-- The open creates an entry. -/
def creates (cfg : FsConfig) (s : FsState) (name : CStr) (mode : UInt32) : Prop :=
  findFile cfg s name = none ∧ hasFlag mode vfsOCreat = true ∧ allocFileEntry cfg s ≠ none

/-- The open is refused once the file is there: the buffer is owned, or the table is full. -/
def refused (s : FsState) (mode : UInt32) : Prop :=
  (hasFlag mode vfsOWronly = true ∧ s.scratchOwner ≠ none) ∨ allocOpenFd s = none

/-- The same name, in use or not. -/
def Alike (e e' : FsEntry) : Prop := e'.used = e.used ∧ e'.name = e.name

/-- No name changes, or one is added by an open, or one is removed by a delete. -/
inductive DirEffect (cfg : FsConfig) (s : FsState) (op : FsOp) (s' : FsState) : Prop
  | kept (quiet : ∀ name mode, op = .open (some name) mode → ¬ creates cfg s name.stripSlash mode)
      (stays : ∀ name, op = .delete (some name) → findFile cfg s name.stripSlash = none)
      (alike : ∀ k, Alike (s.entry k) (s'.entry k))
  | created {name mode i} (call : op = .open (some name) mode)
      (absent : findFile cfg s name.stripSlash = none) (creat : hasFlag mode vfsOCreat = true)
      (slot : allocFileEntry cfg s = some i)
      (added : Alike (newEntry i name.stripSlash) (s'.entry i))
      (alike : ∀ k, k ≠ i → Alike (s.entry k) (s'.entry k))
  | removed {name i} (call : op = .delete (some name))
      (found : findFile cfg s name.stripSlash = some i) (gone : (s'.entry i).used = false)
      (alike : ∀ k, k ≠ i → Alike (s.entry k) (s'.entry k))

theorem Alike.refl (e : FsEntry) : Alike e e := ⟨rfl, rfl⟩

theorem claimed_alike (s : FsState) (i k : Nat) (mode : UInt32) :
    Alike (s.entry k) ((claimed s i mode).entry k) :=
  ⟨claimed_used s i k mode, claimed_name s i k mode⟩

/-- An open up to the lookup, and then a change of sizes only. -/
theorem resolved_effect {name : CStr} {mode : UInt32} {i : Nat} {s₁ : FsState}
    (file : Resolved cfg s name.stripSlash mode i s₁)
    (sizes : ∀ k, Alike (s₁.entry k) (s'.entry k)) :
    DirEffect cfg s (.open (some name) mode) s' := by
  cases file with
  | found found =>
    refine .kept ?_ (fun _ call => by cases call) sizes
    rintro _ _ call ⟨absent, -⟩
    cases call
    rw [found] at absent
    cases absent
  | created absent creat slot =>
    refine .created rfl absent creat slot ?_ fun k other => ?_
    · have new := sizes i
      rwa [createEntry_entry, if_pos rfl] at new
    · have old := sizes k
      rwa [createEntry_entry, if_neg other] at old

theorem dir_effect (cfg : FsConfig) (s : FsState) (op : FsOp) :
    DirEffect cfg s op (step cfg s op) := by
  cases op with
  | «open» name mode =>
    simp only [step]
    have call := fsOpen_cases cfg s name mode
    generalize fsOpen cfg s name mode = r at call ⊢
    cases call with
    | missing h =>
      refine .kept ?_ (fun _ call => by cases call) fun _ => .refl _
      rintro n _ call ⟨-, creat, room⟩
      cases call
      exact room ((h n rfl).2 creat)
    | busy given file _ _ =>
      cases given
      exact resolved_effect file fun _ => .refl _
    | full given file _ _ =>
      cases given
      apply resolved_effect file
      intro k
      split
      · exact claimed_alike ..
      · exact .refl _
    | done given file _ _ =>
      cases given
      exact resolved_effect file fun k => claimed_alike ..
  | read fd buf n =>
    refine .kept (fun _ _ call => by cases call) (fun _ call => by cases call) ?_
    simp only [step]
    have call := fsRead_cases s fd buf n
    generalize fsRead s fd buf n = r at call ⊢
    intro k
    cases call <;> exact .refl _
  | write fd buf =>
    refine .kept (fun _ _ call => by cases call) (fun _ call => by cases call) ?_
    simp only [step]
    have call := fsWrite_cases s fd buf
    generalize fsWrite s fd buf = r at call ⊢
    intro k
    cases call with
    | invalid _ => exact .refl _
    | empty _ _ => exact .refl _
    | refused _ _ _ _ => exact .refl _
    | done _ _ _ _ _ _ =>
      rw [setEntry_entry]
      split
      next same =>
        subst same
        unfold grown
        split <;> exact ⟨rfl, rfl⟩
      · exact .refl _
  | close fd =>
    refine .kept (fun _ _ call => by cases call) (fun _ call => by cases call) ?_
    simp only [step]
    have call := fsClose_cases cfg s fd
    generalize fsClose cfg s fd = r at call ⊢
    intro k
    cases call with
    | invalid _ => exact .refl _
    | clean _ _ _ => exact .refl _
    | committed _ _ _ flash _ =>
      have same := flash.entry k
      exact ⟨congrArg FsEntry.used same, congrArg FsEntry.name same⟩
  | delete name =>
    simp only [step]
    have call := fsDelete_cases cfg s name
    generalize fsDelete cfg s name = r at call ⊢
    cases call with
    | missing absent =>
      refine .kept (fun _ _ call => by cases call) ?_ fun _ => .refl _
      intro n call
      cases call
      exact absent n rfl
    | done given found flash _ =>
      subst given
      refine .removed rfl found ?_ fun k other => ?_
      · rw [flash.entry, removeEntry_entry, if_pos rfl]
        rfl
      · rw [flash.entry, removeEntry_entry, if_neg other]
        exact .refl _

/-! ### The names a caller relies on -/

/-- The names that successful opens with `VFS_O_CREAT` were given, with the entry each has found or
created, as long as no delete has removed it. -/
abbrev Given := List (CStr × Nat)

def givenAfter (cfg : FsConfig) (s : FsState) (given : Given) : FsOp → Given
  | .open (some name) mode =>
    let (fd, s') := fsOpen cfg s (some name) mode
    if hasFlag mode vfsOCreat ∧ 0 ≤ fd then (name, (s'.openFds fd.toNat).fileIdx) :: given else given
  | .delete (some name) =>
    match findFile cfg s name.stripSlash with
    | some i => given.filter fun p => p.2 != i
    | none => given
  | _ => given

def givenStep (cfg : FsConfig) (t : FsState × Given) (op : FsOp) : FsState × Given :=
  (step cfg t.1 op, givenAfter cfg t.1 t.2 op)

/-- The names in use are distinct; a name given to a create is found again without `VFS_O_CREAT`,
and deleting it removes its entry. -/
structure NamesHold (cfg : FsConfig) (t : FsState × Given) : Prop where
  distinct : ∀ i < cfg.fsMaxFiles, ∀ j < cfg.fsMaxFiles, (t.1.entry i).used = true →
    (t.1.entry j).used = true → sameName (t.1.entry i) (t.1.entry j) = true → i = j
  opens : ∀ name i, (name, i) ∈ t.2 → ∀ mode, hasFlag mode vfsOCreat = false →
    lookupOrCreate cfg t.1 name.stripSlash mode = (some i, t.1)
  deletes : ∀ name i, (name, i) ∈ t.2 → (t.1.entry i).used = true ∧
    ((fsDelete cfg t.1 (some name)).2.entry i).used = false

/-- The open creates no entry, or one for a name that fits, or it is refused after it has created
one whose cut name is new. -/
def KeepsNames (cfg : FsConfig) (s : FsState) : FsOp → Prop
  | .open (some name) mode => creates cfg s name.stripSlash mode →
      name.stripSlash.Fits ∨ (refused s mode ∧ Fresh cfg s name.stripSlash)
  | _ => True

/-- The same, for the search. -/
structure Found (cfg : FsConfig) (t : FsState × Given) : Prop where
  distinct : ∀ i < cfg.fsMaxFiles, ∀ j < cfg.fsMaxFiles, (t.1.entry i).used = true →
    (t.1.entry j).used = true → sameName (t.1.entry i) (t.1.entry j) = true → i = j
  finds : ∀ name i, (name, i) ∈ t.2 → findFile cfg t.1 name.stripSlash = some i

theorem namesHold_iff {t : FsState × Given} : NamesHold cfg t ↔ Found cfg t := by
  constructor
  · intro h
    refine ⟨h.distinct, fun name i member => ?_⟩
    have opened := h.opens name i member 0 rfl
    unfold lookupOrCreate at opened
    cases search : findFile cfg t.1 name.stripSlash with
    | some j =>
      simp only [search, Prod.mk.injEq, and_true] at opened
      exact opened
    | none => simp [search, hasFlag] at opened
  · intro h
    refine ⟨h.distinct, fun name i member mode _ => ?_, fun name i member => ?_⟩
    · simp only [lookupOrCreate, h.finds name i member]
    · have found := h.finds name i member
      refine ⟨(findFile_some found).2.1, ?_⟩
      have effect := dir_effect cfg t.1 (.delete (some name))
      cases effect with
      | kept _ stays _ =>
        rw [stays name rfl] at found
        cases found
      | created call _ _ _ _ _ => cases call
      | removed call found' gone _ =>
        cases call
        rw [found] at found'
        cases found'
        exact gone

/-! ### One call -/

theorem Alike.hasName {e e' : FsEntry} (h : Alike e e') (name : CStr) :
    hasName e' name = hasName e name := hasName_congr h.1 h.2 name

theorem Alike.sameName {a a' b b' : FsEntry} (ha : Alike a a') (hb : Alike b b') :
    sameName a' b' = sameName a b := by
  have bytes {e e' : FsEntry} (h : Alike e e') : e'.nameByte = e.nameByte := by
    funext k
    simp only [FsEntry.nameByte, h.2]
  simp only [PicoOS.Fs.sameName, bytes ha, bytes hb]

theorem sameName_symm {a b : FsEntry} (h : sameName a b = true) : sameName b a = true :=
  strncmpEq_symm h

namespace Found

variable {given : Given} {op : FsOp}

/-- Nothing about the names changes. -/
theorem kept (h : Found cfg (s, given)) (alike : ∀ k, Alike (s.entry k) (s'.entry k)) :
    Found cfg (s', given) := by
  constructor
  · intro i hi j hj usedI usedJ same
    rw [(alike i).1] at usedI
    rw [(alike j).1] at usedJ
    rw [(alike i).sameName (alike j)] at same
    exact h.distinct i hi j hj usedI usedJ same
  · intro name i member
    dsimp only
    rw [findFile_congr fun k => (alike k).hasName _]
    exact h.finds name i member

/-- An entry is removed, and with it the names that were given for it. -/
theorem removed (h : Found cfg (s, given)) {i : Nat} (gone : (s'.entry i).used = false)
    (alike : ∀ k, k ≠ i → Alike (s.entry k) (s'.entry k)) :
    Found cfg (s', given.filter fun p => p.2 != i) := by
  -- what is still used was there before
  have old {k : Nat} (used : (s'.entry k).used = true) : Alike (s.entry k) (s'.entry k) := by
    apply alike
    rintro rfl
    rw [gone] at used
    cases used
  constructor
  · intro j hj k hk usedJ usedK same
    have oldJ := old usedJ
    have oldK := old usedK
    rw [oldJ.1] at usedJ
    rw [oldK.1] at usedK
    rw [oldJ.sameName oldK] at same
    exact h.distinct j hj k hk usedJ usedK same
  · intro name j member
    simp only [List.mem_filter, bne_iff_ne, ne_eq] at member
    obtain ⟨hj, mine, first⟩ := findFile_eq_some.mp (h.finds name j member.1)
    refine findFile_eq_some.mpr ⟨hj, ?_, fun k before => ?_⟩
    · rw [(alike j member.2).hasName]
      exact mine
    · by_cases same : k = i
      · simp [hasName, same, gone]
      · rw [(alike k same).hasName]
        exact first k before

/-- An entry with a new name is added: the names that were there are found as before. -/
theorem created (h : Found cfg (s, given)) {i : Nat} {name : CStr}
    (slot : allocFileEntry cfg s = some i) (fresh : Fresh cfg s name)
    (added : Alike (newEntry i name) (s'.entry i))
    (alike : ∀ k, k ≠ i → Alike (s.entry k) (s'.entry k)) : Found cfg (s', given) := by
  obtain ⟨inside, unused⟩ := allocFileEntry_some slot
  -- no other entry has the name of the new one
  have alone {k : Nat} (hk : k < cfg.fsMaxFiles) (other : k ≠ i)
      (used : (s'.entry k).used = true) : sameName (s'.entry k) (s'.entry i) = false := by
    rw [(alike k other).1] at used
    rw [(alike k other).sameName added]
    exact fresh k hk used
  constructor
  · intro j hj k hk usedJ usedK same
    by_cases newJ : j = i
    · by_cases newK : k = i
      · rw [newJ, newK]
      · rw [newJ] at same
        have mirrored := sameName_symm same
        dsimp only at mirrored
        rw [alone hk newK usedK] at mirrored
        cases mirrored
    · by_cases newK : k = i
      · dsimp only at same
        rw [newK, alone hj newJ usedJ] at same
        cases same
      · dsimp only at usedJ usedK same
        rw [(alike j newJ).1] at usedJ
        rw [(alike k newK).1] at usedK
        rw [(alike j newJ).sameName (alike k newK)] at same
        exact h.distinct j hj k hk usedJ usedK same
  · intro n j member
    obtain ⟨hj, mine, first⟩ := findFile_eq_some.mp (h.finds n j member)
    have other : j ≠ i := by
      rintro rfl
      simp [hasName, unused] at mine
    have still : hasName (s'.entry j) n.stripSlash = true := by
      rw [(alike j other).hasName]
      exact mine
    refine findFile_eq_some.mpr ⟨hj, still, fun k before => ?_⟩
    by_cases new : k = i
    · rw [new, ← Bool.not_eq_true]
      intro both
      have same := sameName_of_hasName still both
      have used : (s'.entry j).used = true := by
        simp only [hasName, Bool.and_eq_true] at still
        exact still.1
      rw [alone hj other used] at same
      cases same
    · rw [(alike k new).hasName]
      exact first k before

/-- One more name, which is found. -/
theorem cons (h : Found cfg (s, given)) {name : CStr} {i : Nat}
    (found : findFile cfg s name.stripSlash = some i) : Found cfg (s, (name, i) :: given) := by
  refine ⟨h.distinct, fun n j member => ?_⟩
  rcases List.mem_cons.mp member with new | old
  · cases new
    exact found
  · exact h.finds n j old

end Found

/-- A descriptor that an open returns denotes the file that the open has found or created. -/
theorem fsOpen_file {s₁ : FsState} {name : CStr} {mode : UInt32} {fd : Int}
    (opened : fsOpen cfg s (some name) mode = (fd, s₁)) (success : 0 ≤ fd) :
    ∃ s', Resolved cfg s name.stripSlash mode (s₁.openFds fd.toNat).fileIdx s' := by
  obtain ⟨i, s', k, rfl, file, -, -, rfl⟩ := fsOpen_success opened success
  refine ⟨s', ?_⟩
  rw [setFd_openFds, if_pos (show (Int.ofNat k).toNat = k from rfl)]
  exact file

/-- An open that creates an entry succeeds unless it is refused afterwards. -/
theorem fsOpen_success_iff {name : CStr} {mode : UInt32}
    (new : creates cfg s name.stripSlash mode) :
    0 ≤ (fsOpen cfg s (some name) mode).1 ↔ ¬ refused s mode := by
  obtain ⟨absent, creat, room⟩ := new
  -- creating the entry changes nothing that the refusals look at
  have kept {i : Nat} {s₁ : FsState} (file : Resolved cfg s name.stripSlash mode i s₁) :
      s₁.scratchOwner = s.scratchOwner ∧ allocOpenFd s₁ = allocOpenFd s := by
    cases file with
    | found _ => exact ⟨rfl, rfl⟩
    | created _ _ _ =>
      exact ⟨createEntry_scratchOwner .., allocOpenFd_congr (createEntry_openFds ..)⟩
  have minus : ¬ (0 : Int) ≤ -1 := by decide
  have call := fsOpen_cases cfg s (some name) mode
  generalize fsOpen cfg s (some name) mode = r at call ⊢
  cases call with
  | missing h => exact absurd ((h name rfl).2 creat) room
  | busy given file writing owner =>
    cases given
    rw [(kept file).1] at owner
    exact iff_of_false minus (not_not_intro (.inl ⟨writing, owner⟩))
  | full given file _ slots =>
    cases given
    rw [(kept file).2] at slots
    exact iff_of_false minus (not_not_intro (.inr slots))
  | done given file owner slot =>
    cases given
    rw [(kept file).1] at owner
    rw [(kept file).2] at slot
    apply iff_of_true
    · exact Int.natCast_nonneg _
    · rintro (⟨writing, busy⟩ | full)
      · exact busy (owner writing)
      · rw [slot] at full
        cases full

/-- A call keeps the names in order exactly if it meets the condition. -/
theorem found_step_iff {t : FsState × Given} (h : Found cfg t) (op : FsOp) :
    Found cfg (givenStep cfg t op) ↔ KeepsNames cfg t.1 op := by
  obtain ⟨s, given⟩ := t
  have effect := dir_effect cfg s op
  simp only [givenStep]
  cases effect with
  | kept quiet stays alike =>
    have same := h.kept alike
    cases op with
    | «open» name mode =>
      cases name with
      | none => exact iff_of_true same trivial
      | some name =>
        have plain : ¬ creates cfg s name.stripSlash mode := quiet name mode rfl
        apply iff_of_true _ fun new => absurd new plain
        simp only [givenAfter]
        split
        next success =>
          apply same.cons
          obtain ⟨s', file⟩ := fsOpen_file rfl success.2
          rw [findFile_congr fun k => (alike k).hasName _]
          cases file with
          | found found => exact found
          | created absent creat slot => exact absurd ⟨absent, creat, by simp [slot]⟩ plain
        · exact same
    | read fd buf n => exact iff_of_true same trivial
    | write fd buf => exact iff_of_true same trivial
    | close fd => exact iff_of_true same trivial
    | delete name =>
      apply iff_of_true _ trivial
      cases name with
      | none => exact same
      | some name =>
        simp only [givenAfter, stays name rfl]
        exact same
  | removed call found gone alike =>
    subst call
    apply iff_of_true _ trivial
    simp only [givenAfter, found]
    exact h.removed gone alike
  | @created name mode i call absent creat slot added alike =>
    subst call
    have new : creates cfg s name.stripSlash mode := ⟨absent, creat, by simp [slot]⟩
    obtain ⟨inside, unused⟩ := allocFileEntry_some slot
    have success := fsOpen_success_iff new
    -- the descriptor, if there is one, denotes the new entry
    have file (opened : 0 ≤ (fsOpen cfg s (some name) mode).1) :
        ((step cfg s (.open (some name) mode)).openFds
          (fsOpen cfg s (some name) mode).1.toNat).fileIdx = i := by
      obtain ⟨s', resolved⟩ : ∃ s', Resolved cfg s name.stripSlash mode
          ((fsOpen cfg s (some name) mode).2.openFds
            (fsOpen cfg s (some name) mode).1.toNat).fileIdx s' := fsOpen_file rfl opened
      have mine := resolved.openFile
      simp only [openFile, absent, creat, if_true, slot, Option.some.injEq] at mine
      exact mine.symm
    have finds (fits : name.stripSlash.Fits) :
        findFile cfg (step cfg s (.open (some name) mode)) name.stripSlash = some i := by
      refine findFile_eq_some.mpr ⟨inside, ?_, fun k before => ?_⟩
      · rw [added.hasName]
        exact newEntry_hasName i fits
      · rw [(alike k (by omega)).hasName]
        exact findFile_eq_none.mp absent k (by omega)
    constructor
    · intro kept _
      -- an open that is refused relies on no name
      have fresh : Fresh cfg s name.stripSlash := by
        intro k hk used
        rw [← Bool.not_eq_true]
        intro same
        have other : k ≠ i := by
          rintro rfl
          rw [unused] at used
          cases used
        have both : sameName ((step cfg s (.open (some name) mode)).entry k)
            ((step cfg s (.open (some name) mode)).entry i) = true := by
          rw [(alike k other).sameName added]
          exact same
        exact other (kept.distinct k hk i inside ((alike k other).1.trans used) added.1 both)
      by_cases late : refused s mode
      · exact .inr ⟨late, fresh⟩
      · left
        have opened := success.mpr late
        have member : (name, i) ∈ givenAfter cfg s given (.open (some name) mode) := by
          simp only [givenAfter]
          rw [if_pos ⟨creat, opened⟩, ← file opened]
          exact List.mem_cons_self
        have found := (findFile_eq_some.mp (kept.finds name i member)).2.1
        rw [added.hasName] at found
        exact (newEntry_hasName_iff i _).mp found
    · intro keeps
      have fresh : Fresh cfg s name.stripSlash := by
        rcases keeps new with fits | late
        · exact fresh_of_absent fits absent
        · exact late.2
      have old := h.created slot fresh added alike
      simp only [givenAfter]
      split
      next opened =>
        rcases keeps new with fits | late
        · have mine := file opened.2
          simp only [step] at mine old finds
          rw [mine]
          exact old.cons (finds fits)
        · exact absurd late.1 (success.mp opened.2)
      · exact old

/-! ### Every run -/

/-- After a format nothing is in the directory, and no name was given. -/
theorem found_format (cfg : FsConfig) (s : FsState) : Found cfg (fsFormat cfg s, []) := by
  have unused (i : Nat) : ((fsFormat cfg s).entry i).used = false := by
    rw [(fsFormat_flashOnly cfg s).1.entry]
    rfl
  refine ⟨fun i _ _ _ used => ?_, fun _ _ member => absurd member List.not_mem_nil⟩
  rw [unused] at used
  cases used

/-- From a formatted filesystem on, the names are in order throughout a run if and only if every
open of the run keeps them. -/
theorem names_hold_iff (cfg : FsConfig) (s : FsState) (ops : List FsOp) :
    (∀ pre, pre <+: ops →
        NamesHold cfg (Run.exec (givenStep cfg) (fsFormat cfg s, []) pre)) ↔
      Run.Along (givenStep cfg) (fun t op => KeepsNames cfg t.1 op) (fsFormat cfg s, []) ops := by
  simp only [namesHold_iff]
  exact Run.invariant_iff_along (I := Found cfg) (fun _ op h => found_step_iff h op)
    (found_format cfg s) ops

/-- Sixteen letters. -/
def longName : CStr := ⟨List.replicate 16 0x61, by decide⟩

def createLong : FsOp := .open (some longName) (vfsORdonly ||| vfsOCreat)

/-- A name of sixteen letters is not found again, and a second open creates it once more. -/
theorem long_name_lost :
    ¬ NamesHold twoFiles (Run.exec (givenStep twoFiles) (fsFormat twoFiles freshFs, [])
        [createLong]) ∧
      ∃ i j, i < 2 ∧ j < 2 ∧ i ≠ j ∧
        let s := Run.exec (step twoFiles) (fsFormat twoFiles freshFs) [createLong, createLong]
        (s.entry i).used = true ∧ (s.entry j).used = true ∧ sameName (s.entry i) (s.entry j) = true := by
  constructor
  · intro names
    have opened := (namesHold_iff.mp names).finds longName 0
    revert opened
    decide +kernel
  · exact ⟨0, 1, by decide +kernel⟩

end PicoOS.Fs
