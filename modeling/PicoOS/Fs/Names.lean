import PicoOS.Fs.Mirror

/-!
# Looking a file up again

A stored name keeps `fsNameMax - 1` bytes, so names that fit are found again and
longer ones never are. As long as all names fit, creating other files never hides
one that is there.
-/
namespace PicoOS.Fs

variable {cfg : FsConfig} {s s' : FsState}

/-! ### Comparing C strings -/

theorem strncmpEq_refl (a : Nat → UInt8) (n : Nat) : strncmpEq a a n = true := by
  induction n generalizing a with
  | zero => rfl
  | succ n ih => simp [strncmpEq, ih]

theorem strncmpEq_symm {a b : Nat → UInt8} {n : Nat} (h : strncmpEq a b n = true) :
    strncmpEq b a n = true := by
  induction n generalizing a b with
  | zero => rfl
  | succ n ih =>
    simp only [strncmpEq, Bool.and_eq_true, Bool.or_eq_true, beq_iff_eq] at h ⊢
    obtain ⟨first, stop | more⟩ := h
    · exact ⟨first.symm, .inl (first ▸ stop)⟩
    · exact ⟨first.symm, .inr (ih more)⟩

theorem strncmpEq_trans {a b c : Nat → UInt8} {n : Nat} (h : strncmpEq a b n = true)
    (h' : strncmpEq b c n = true) : strncmpEq a c n = true := by
  induction n generalizing a b c with
  | zero => rfl
  | succ n ih =>
    simp only [strncmpEq, Bool.and_eq_true, Bool.or_eq_true, beq_iff_eq] at h h' ⊢
    obtain ⟨first, stop | more⟩ := h
    · exact ⟨first.trans h'.1, .inl stop⟩
    obtain ⟨first', stop' | more'⟩ := h'
    · exact ⟨first.trans first', .inl (first.trans stop')⟩
    · exact ⟨first.trans first', .inr (ih more more')⟩

theorem strncmpEq_congr {a a' b : Nat → UInt8} {n : Nat} (h : ∀ k, k < n → a' k = a k) :
    strncmpEq a' b n = strncmpEq a b n := by
  induction n generalizing a a' b with
  | zero => rfl
  | succ n ih =>
    have tail : strncmpEq (fun k => a' (k + 1)) (fun k => b (k + 1)) n =
        strncmpEq (fun k => a (k + 1)) (fun k => b (k + 1)) n :=
      ih fun k hk => h (k + 1) (by omega)
    simp only [strncmpEq, h 0 (by omega), tail]

/-- Equal strings have equal bytes as far as the first goes on. -/
theorem strncmpEq_byte {a b : Nat → UInt8} {n k : Nat} (h : strncmpEq a b n = true) (inside : k < n)
    (goesOn : ∀ j < k, a j ≠ 0) : a k = b k := by
  induction k generalizing a b n with
  | zero =>
    cases n with
    | zero => omega
    | succ n =>
      simp only [strncmpEq, Bool.and_eq_true, beq_iff_eq] at h
      exact h.1
  | succ k ih =>
    cases n with
    | zero => omega
    | succ n =>
      simp only [strncmpEq, Bool.and_eq_true, Bool.or_eq_true, beq_iff_eq] at h
      rcases h.2 with stop | more
      · exact absurd stop (goesOn 0 (by omega))
      · exact ih more (by omega) fun j before => goesOn (j + 1) (by omega)

/-! ### Matching entries -/

/-- The test that `find_file` makes on an entry. -/
def hasName (e : FsEntry) (name : CStr) : Bool :=
  e.used && strncmpEq e.nameByte name.byte fsNameMax

/-- A name that a directory entry can hold. -/
def CStr.Fits (name : CStr) : Prop := name.val.length < fsNameMax

theorem CStr.byte_of_length_le (name : CStr) {k : Nat} (h : name.val.length ≤ k) :
    name.byte k = 0 := by
  simp [CStr.byte, List.getElem?_eq_none h]

theorem CStr.byte_ne_zero (name : CStr) {k : Nat} (h : k < name.val.length) : name.byte k ≠ 0 := by
  intro zero
  have here : name.val[k]? = some name.val[k] := List.getElem?_eq_getElem h
  rw [CStr.byte, here, Option.getD_some] at zero
  have member := List.getElem_mem h
  rw [zero] at member
  exact name.property member

/-- An entry stores a name that fits byte by byte. -/
theorem newEntry_nameByte (i : Nat) {name : CStr} (fits : name.Fits) {k : Nat} (h : k < fsNameMax) :
    (newEntry i name).nameByte k = name.byte k := by
  simp only [CStr.Fits, fsNameMax] at fits h
  simp only [FsEntry.nameByte, newEntry, fsNameMax]
  rw [Vector.getElem?_eq_getElem h, Option.getD_some, Vector.getElem_ofFn]
  by_cases inside : k < 16 - 1
  · exact if_pos inside
  · have last : name.byte k = 0 := name.byte_of_length_le (by omega)
    exact (if_neg inside).trans last.symm

theorem newEntry_hasName (i : Nat) {name : CStr} (fits : name.Fits) :
    hasName (newEntry i name) name = true := by
  simp only [hasName, Bool.and_eq_true]
  exact ⟨rfl, (strncmpEq_congr fun k hk => newEntry_nameByte i fits hk).trans (strncmpEq_refl _ _)⟩

theorem newEntry_last (i : Nat) (name : CStr) : (newEntry i name).nameByte 15 = 0 := by
  simp only [FsEntry.nameByte, newEntry, fsNameMax]
  rw [Vector.getElem?_eq_getElem (show 15 < 16 by omega), Option.getD_some, Vector.getElem_ofFn]
  exact if_neg (Nat.lt_irrefl 15)

/-- No entry that an open makes matches a name that is too long. -/
theorem fits_of_newEntry {i : Nat} {name other : CStr}
    (stored : hasName (newEntry i other) name = true) : name.Fits := by
  by_contra long
  simp only [CStr.Fits, fsNameMax, not_lt] at long
  simp only [hasName, Bool.and_eq_true] at stored
  -- the entry ends at byte 15, the name goes on there
  have last : name.byte 15 = (newEntry i other).nameByte 15 := by
    apply strncmpEq_byte (strncmpEq_symm stored.2) (by decide)
    intro j before
    exact name.byte_ne_zero (by omega)
  rw [newEntry_last] at last
  exact name.byte_ne_zero (by omega) last

/-- An entry that matches both names makes every entry match both. -/
theorem hasName_of_newEntry {i : Nat} {name other : CStr} {e : FsEntry} (fits : other.Fits)
    (both : hasName (newEntry i other) name = true) (h : hasName e name = true) :
    hasName e other = true := by
  simp only [hasName, Bool.and_eq_true] at both h ⊢
  have stored := both.2
  rw [strncmpEq_congr fun k hk => newEntry_nameByte i fits hk] at stored
  exact ⟨h.1, strncmpEq_trans h.2 (strncmpEq_symm stored)⟩

theorem hasName_congr {e e' : FsEntry} (used : e'.used = e.used) (name : e'.name = e.name)
    (n : CStr) : hasName e' n = hasName e n := by
  have bytes : e'.nameByte = e.nameByte := by
    funext k
    simp only [FsEntry.nameByte, name]
  simp only [hasName, used, bytes]

theorem findFile_eq_some {name : CStr} {i : Nat} : findFile cfg s name = some i ↔
    i < cfg.fsMaxFiles ∧ hasName (s.entry i) name = true ∧
      ∀ k, k < i → hasName (s.entry k) name = false := by
  simp only [findFile, List.find?_range_eq_some, List.mem_range, Bool.not_eq_true', hasName]
  tauto

theorem findFile_eq_none {name : CStr} : findFile cfg s name = none ↔
    ∀ k, k < cfg.fsMaxFiles → hasName (s.entry k) name = false := by
  simp only [findFile, List.find?_eq_none, List.mem_range, Bool.not_eq_true, hasName]

/-! ### What a call does to one entry -/

/-- The names that a call may store fit. -/
def NamesFit : FsOp → Prop
  | .open (some name) _ => name.stripSlash.Fits
  | _ => True

/-- An entry keeps its name, is removed, or is created by an open that found no match. -/
inductive EntryEffect (cfg : FsConfig) (s : FsState) (op : FsOp) (e e' : FsEntry) : Prop
  | kept (used : e'.used = e.used) (name : e'.name = e.name)
  | removed (used : e'.used = false)
  | created {name mode i} (call : op = .open (some name) mode)
      (absent : findFile cfg s name.stripSlash = none) (used : e'.used = true)
      (stored : e'.name = (newEntry i name.stripSlash).name)

theorem claimed_name (s : FsState) (i j : Nat) (mode : UInt32) :
    ((claimed s i mode).entry j).name = (s.entry j).name := by
  rw [claimed_entry]
  split <;> rfl

theorem entry_effect (cfg : FsConfig) (s : FsState) (op : FsOp) (k : Nat) :
    EntryEffect cfg s op (s.entry k) ((step cfg s op).entry k) := by
  -- an open finds or creates the entry, and then claims it, unless it is refused
  have resolved {name : CStr} {mode : UInt32} {i : Nat} {s₁ : FsState}
      (file : Resolved cfg s name.stripSlash mode i s₁) :
      EntryEffect cfg s (.open (some name) mode) (s.entry k) (s₁.entry k) := by
    cases file with
    | found _ => exact .kept rfl rfl
    | created absent _ _ =>
      rw [createEntry_entry]
      split
      · exact .created rfl absent rfl rfl
      · exact .kept rfl rfl
  have claims {name : CStr} {mode : UInt32} {i : Nat} {s₁ : FsState}
      (file : Resolved cfg s name.stripSlash mode i s₁) :
      EntryEffect cfg s (.open (some name) mode) (s.entry k) ((claimed s₁ i mode).entry k) := by
    have used := claimed_used s₁ i k mode
    have stored := claimed_name s₁ i k mode
    cases resolved file with
    | kept u n => exact .kept (used.trans u) (stored.trans n)
    | removed u => exact .removed (used.trans u)
    | created call absent u n => exact .created call absent (used.trans u) (stored.trans n)
  cases op with
  | «open» name mode =>
    simp only [step]
    have call := fsOpen_cases cfg s name mode
    generalize fsOpen cfg s name mode = r at call ⊢
    cases call with
    | missing _ => exact .kept rfl rfl
    | busy given file _ _ => cases given; exact resolved file
    | full given file _ _ =>
      cases given
      split
      · exact claims file
      · exact resolved file
    | done given file _ _ => cases given; exact claims file
  | read fd buf n =>
    simp only [step]
    have call := fsRead_cases s fd buf n
    generalize fsRead s fd buf n = r at call ⊢
    cases call <;> exact .kept rfl rfl
  | write fd buf =>
    simp only [step]
    have call := fsWrite_cases s fd buf
    generalize fsWrite s fd buf = r at call ⊢
    cases call with
    | invalid _ => exact .kept rfl rfl
    | empty _ _ => exact .kept rfl rfl
    | refused _ _ _ _ => exact .kept rfl rfl
    | done _ _ _ _ _ _ =>
      rw [setEntry_entry]
      split
      next eq =>
        subst eq
        unfold grown
        split <;> exact .kept rfl rfl
      · exact .kept rfl rfl
  | close fd =>
    simp only [step]
    have call := fsClose_cases cfg s fd
    generalize fsClose cfg s fd = r at call ⊢
    cases call with
    | invalid _ => exact .kept rfl rfl
    | clean _ _ _ => exact .kept rfl rfl
    | committed _ _ _ flash _ =>
      have same := flash.entry k
      exact .kept (congrArg FsEntry.used same) (congrArg FsEntry.name same)
  | delete name =>
    simp only [step]
    have call := fsDelete_cases cfg s name
    generalize fsDelete cfg s name = r at call ⊢
    cases call with
    | missing _ => exact .kept rfl rfl
    | done _ _ flash _ =>
      rw [flash.entry, removeEntry_entry]
      split
      · exact .removed rfl
      · exact .kept rfl rfl

/-! ### A name that is found stays found -/

/-- The call makes an entry that is found under `name` as well. -/
def AddsName (cfg : FsConfig) (name : CStr) (s : FsState) (op : FsOp) : Prop :=
  ∃ k, hasName (s.entry k) name = false ∧ hasName ((step cfg s op).entry k) name = true

/-- Only an open that creates its file adds a name. -/
theorem AddsName.created {name : CStr} {op : FsOp} (adds : AddsName cfg name s op) :
    ∃ other mode i, op = .open (some other) mode ∧ findFile cfg s other.stripSlash = none ∧
      hasName (newEntry i other.stripSlash) name = true := by
  obtain ⟨k, before, after⟩ := adds
  cases entry_effect cfg s op k with
  | kept u n =>
    rw [hasName_congr u n, before] at after
    cases after
  | removed u => simp [hasName, u] at after
  | @created other mode i call absent u n =>
    rw [hasName_congr (e := newEntry i other.stripSlash) u n] at after
    exact ⟨other, mode, i, call, absent, after⟩

/-- A call whose names fit does not add the name of a file that is there. -/
theorem not_addsName_of_fit {name : CStr} {i : Nat} {op : FsOp}
    (found : findFile cfg s name = some i) (fit : NamesFit op) : ¬ AddsName cfg name s op := by
  intro adds
  obtain ⟨other, mode, j, rfl, absent, both⟩ := adds.created
  rw [findFile_eq_some] at found
  -- The new entry would match as well, but its name was absent and ours was there.
  have present := hasName_of_newEntry fit both found.2.1
  rw [findFile_eq_none.mp absent i found.1] at present
  cases present

/-- The file called `name` is found again after any call that keeps its entry and adds no other. -/
theorem findFile_step {name : CStr} {i : Nat} {op : FsOp} (found : findFile cfg s name = some i)
    (only : ¬ AddsName cfg name s op) (used : ((step cfg s op).entry i).used = (s.entry i).used)
    (same : ((step cfg s op).entry i).name = (s.entry i).name) :
    findFile cfg (step cfg s op) name = some i := by
  rw [findFile_eq_some] at found ⊢
  obtain ⟨hi, mine, first⟩ := found
  refine ⟨hi, (hasName_congr used same name).trans mine, fun k hk => ?_⟩
  rw [← Bool.not_eq_true]
  exact fun added => only ⟨k, first k hk, added⟩

theorem findFile_congr {name : CStr}
    (same : ∀ k, hasName (s'.entry k) name = hasName (s.entry k) name) :
    findFile cfg s' name = findFile cfg s name := by
  simp only [findFile]
  congr 1
  funext k
  exact same k

/-- The file an open has found, or created under a name that fits, is found by its name. -/
theorem Resolved.findFile {name : CStr} {mode : UInt32} {i : Nat}
    (named : name.Fits ∨ findFile cfg s name ≠ none) (file : Resolved cfg s name mode i s') :
    PicoOS.Fs.findFile cfg s' name = some i := by
  cases file with
  | found h => exact h
  | created absent _ room =>
    have fits := named.resolve_right (not_not.mpr absent)
    rw [findFile_eq_some, createEntry_entry, if_pos rfl]
    refine ⟨(allocFileEntry_some room).1, newEntry_hasName i fits, fun k hk => ?_⟩
    rw [createEntry_entry, if_neg (by omega)]
    exact findFile_eq_none.mp absent k (hk.trans (allocFileEntry_some room).1)

/-- A descriptor that a successful open returns denotes the file of that name. -/
theorem fsOpen_findFile {s₁ : FsState} {name : CStr} {mode : UInt32} {fd : Int}
    (opened : fsOpen cfg s (some name) mode = (fd, s₁)) (success : 0 ≤ fd)
    (named : name.stripSlash.Fits ∨ findFile cfg s name.stripSlash ≠ none) :
    PicoOS.Fs.findFile cfg s₁ name.stripSlash = some (s₁.openFds fd.toNat).fileIdx := by
  obtain ⟨i, s', k, rfl, file, -, -, rfl⟩ := fsOpen_success opened success
  have index : (((claimed s' i mode).setFd k (openedFd (claimed s' i mode) i mode)).openFds
      (Int.ofNat k).toNat).fileIdx = i := by
    rw [setFd_openFds]
    exact congrArg OpenFd.fileIdx (if_pos rfl)
  rw [index, ← file.findFile named]
  exact findFile_congr fun j => hasName_congr (claimed_used s' i j mode) (claimed_name s' i j mode) _

end PicoOS.Fs
