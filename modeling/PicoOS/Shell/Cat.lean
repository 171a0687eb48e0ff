import PicoOS.Fs.Content
import PicoOS.Shell.Tracing

/-!
# The cat command

`cat` reads a file in pieces and prints each as a string, while other threads call the
filesystem between any two of its steps.
-/
namespace PicoOS.Shell

open Fs CString

/-- Where `cmd_cat` is. -/
inductive CatPc where
  | opens
  | reads (fd : Int)
  | closes (fd : Int)
  | returned (rc : Int)

/-- A filesystem on which `cmd_cat` runs, with what it has printed. -/
structure Cat where
  fs : FsState
  pc : CatPc
  printed : List UInt8

/-- A step of the command, or a call of another thread. -/
inductive CatStep where
  | cat
  | other (op : FsOp)

def CatStep.own : CatStep → Bool
  | .cat => true
  | .other _ => false

/-- `sizeof(buf) - 1u`. -/
def catPiece : Nat := 127

/-- What `cat` prints when `fs_open` fails. -/
def cannotOpen (name : CStr) : List UInt8 :=
  text "cat: cannot open '" ++ name.val ++ println "'"

/-- What `cat` prints of these bytes: of each piece only what is in front of its first NUL. -/
def catText (content : List UInt8) : List UInt8 :=
  if content = [] then []
  else (content.take catPiece).takeWhile (· ≠ 0) ++ catText (content.drop catPiece)
termination_by content.length
decreasing_by
  rename_i some
  have := List.length_pos_iff.mpr some
  rw [List.length_drop, catPiece]
  omega

namespace Cat

def start (s : FsState) : Cat := ⟨s, .opens, []⟩

/-- `cmd_cat` for `argv[1]`. -/
def step (cfg : FsConfig) (name : CStr) (c : Cat) : CatStep → Cat
  | .other op => { c with fs := Fs.step cfg c.fs op }
  | .cat =>
    match c.pc with
    | .opens =>
      let (fd, fs) := fsOpen cfg c.fs (some name) vfsORdonly
      if fd < 0 then ⟨fs, .returned (-1), c.printed ++ cannotOpen name⟩
      else ⟨fs, .reads fd, c.printed⟩
    | .reads fd =>
      let (n, buf, fs) := fsRead c.fs fd true catPiece
      -- `buf[n] = '\0'`, and "%s" stops at the first NUL
      if 0 < n then ⟨fs, .reads fd, c.printed ++ buf.takeWhile (· ≠ 0)⟩
      else ⟨fs, .closes fd, c.printed ++ println ""⟩
    | .closes fd => ⟨(fsClose cfg c.fs fd).2, .returned 0, c.printed⟩
    | .returned _ => c

/-- The other threads leave the file alone that the command has open. -/
def Apart (cfg : FsConfig) (c : Cat) : CatStep → Prop
  | .cat => True
  | .other op =>
    match c.pc with
    | .reads fd | .closes fd => target cfg c.fs op ≠ some (c.fs.openFds fd.toNat).fileIdx
    | .opens | .returned _ => True

end Cat

/-! ### What is shown -/

theorem catText_nil : catText [] = [] := by
  rw [catText, if_pos rfl]

theorem catText_piece {content : List UInt8} (some : content ≠ []) :
    catText content = (content.take catPiece).takeWhile (· ≠ 0) ++ catText (content.drop catPiece) := by
  rw [catText, if_neg some]

/-- A text is shown as it is. -/
theorem catText_plain (content : List UInt8) (plain : 0 ∉ content) : catText content = content := by
  induction content using catText.induct with
  | case1 => exact catText_nil
  | case2 content some ih =>
    have first : (content.take catPiece).takeWhile (· ≠ 0) = content.take catPiece := by
      apply List.takeWhile_eq_self_iff.mpr
      intro c member
      have nonzero : c ≠ 0 := by
        rintro rfl
        exact plain (List.mem_of_mem_take member)
      simpa using nonzero
    rw [catText_piece some, first, ih fun zero => plain (List.mem_of_mem_drop zero),
      List.take_append_drop]

/-! ### A run -/

namespace Cat

variable {cfg : FsConfig} {name : CStr} {c : Cat} {content : List UInt8} {n : Nat}

/-- The command shows the content, and has at most `n` steps to go. -/
def Shows (cfg : FsConfig) (content : List UInt8) (n : Nat) (c : Cat) : Prop :=
  match c.pc with
  | .opens => False
  | .reads fd => ∃ i rest, Reading cfg fd i rest c.fs ∧
      c.printed ++ catText rest = catText content ∧ (rest.length + 126) / 127 + 2 ≤ n
  | .closes fd => (∃ i, Reading cfg fd i [] c.fs) ∧
      c.printed = catText content ++ println "" ∧ 1 ≤ n
  | .returned rc => rc = 0 ∧ c.printed = catText content ++ println ""

theorem Shows.cat (shows : Shows cfg content n c) : Shows cfg content (n - 1) (c.step cfg name .cat) := by
  obtain ⟨fs, pc, printed⟩ := c
  cases pc with
  | opens => exact shows.elim
  | reads fd =>
    obtain ⟨i, rest, reading, sofar, left⟩ := shows
    obtain ⟨result, bytes, next⟩ := reading.read catPiece
    simp only [step, result, bytes]
    -- a read of nothing ends the loop, and only at the end of the file
    cases rest with
    | nil =>
      rw [catText_nil, List.append_nil] at sofar
      exact ⟨⟨i, next⟩, congrArg (· ++ println "") sofar, by omega⟩
    | cons b rest =>
      have some : (0 : Int) < ((b :: rest).take catPiece).length := by
        rw [List.length_take, List.length_cons, catPiece]
        omega
      rw [if_pos some]
      rw [catText_piece (List.cons_ne_nil b rest), ← List.append_assoc] at sofar
      refine ⟨i, _, next, sofar, ?_⟩
      rw [List.length_drop, catPiece]
      rw [List.length_cons] at left ⊢
      omega
  | closes fd => exact ⟨rfl, shows.2.1⟩
  | returned rc => exact shows

theorem Shows.other (shows : Shows cfg content n c) (op : FsOp)
    (apart : Apart cfg c (.other op)) : Shows cfg content n (c.step cfg name (.other op)) := by
  obtain ⟨fs, pc, printed⟩ := c
  cases pc with
  | opens => exact shows.elim
  | reads fd =>
    obtain ⟨i, rest, reading, told⟩ := shows
    exact ⟨i, rest, reading.other op (reading.file ▸ apart), told⟩
  | closes fd =>
    obtain ⟨⟨i, reading⟩, told⟩ := shows
    exact ⟨⟨i, reading.other op (reading.file ▸ apart)⟩, told⟩
  | returned rc => exact shows

/-- Each own step brings the command closer to its end, and the others do not hold it up. -/
theorem Shows.run {steps : List CatStep} (shows : Shows cfg content n c)
    (apart : Run.Along (step cfg name) (Apart cfg) c steps) :
    Shows cfg content (n - steps.countP CatStep.own) (Run.exec (step cfg name) c steps) := by
  -- `n` goes down with the command's own steps only
  induction steps generalizing c n with
  | nil => exact shows
  | cons a steps ih =>
    rw [Run.exec_cons]
    cases a with
    | cat =>
      have next : Shows cfg content (n - 1) (c.step cfg name .cat) := shows.cat
      have later := ih next apart.2
      rwa [Nat.sub_sub, Nat.add_comm, ← List.countP_cons_of_pos (a := .cat) rfl] at later
    | other op =>
      have later := ih (shows.other op apart.1) apart.2
      rwa [← List.countP_cons_of_neg (a := .other op) Bool.false_ne_true] at later

theorem Shows.printed (shows : Shows cfg content n c) :
    c.printed <+: catText content ++ println "" := by
  obtain ⟨fs, pc, printed⟩ := c
  cases pc with
  | opens => exact shows.elim
  | reads fd =>
    obtain ⟨i, rest, _, sofar, _⟩ := shows
    rw [← sofar, List.append_assoc]
    exact List.prefix_append ..
  | closes fd => exact shows.2.1 ▸ List.prefix_rfl
  | returned rc => exact shows.2 ▸ List.prefix_rfl

theorem Shows.ended (shows : Shows cfg content 0 c) :
    c.pc = .returned 0 ∧ c.printed = catText content ++ println "" := by
  obtain ⟨fs, pc, printed⟩ := c
  cases pc with
  | opens => exact shows.elim
  | reads fd =>
    obtain ⟨_, _, _, _, left⟩ := shows
    omega
  | closes fd => exact absurd shows.2.2 (by decide)
  | returned rc =>
    obtain ⟨rfl, all⟩ := shows
    exact ⟨rfl, all⟩

/-- An open that succeeds has found the file. -/
theorem shows_start {s : FsState} (inv : Inv cfg s)
    (sized : ∀ i, findFile cfg s name.stripSlash = some i →
      (s.entry i).size.toNat ≤ fsBlockSize)
    (opens : ¬ (fsOpen cfg s (some name) vfsORdonly).1 < 0) :
    ∃ i, findFile cfg s name.stripSlash = some i ∧
      Shows cfg (fileContent s i) ((fileContent s i).length / 127 + 3) ((start s).step cfg name .cat) := by
  rcases opened : fsOpen cfg s (some name) vfsORdonly with ⟨fd, s₁⟩
  rw [opened] at opens
  have success : 0 ≤ fd := Int.not_lt.mp opens
  obtain ⟨i, s', k, isFd, resolved, _, _, after⟩ := fsOpen_success opened success
  -- a mode that does not write finds its file and creates none
  cases resolved with
  | created _ creat => exact absurd creat (by decide)
  | found found =>
    have used := (findFile_some found).2.1
    have file : (s₁.openFds fd.toNat).fileIdx = i := by
      rw [isFd, after, setFd_openFds]
      exact congrArg OpenFd.fileIdx (if_pos rfl)
    have reading := fsOpen_reading inv used (sized i found) opened success (by decide) file
    refine ⟨i, found, ?_⟩
    rw [step, start]
    dsimp only
    rw [opened]
    dsimp only
    rw [if_neg opens]
    exact ⟨i, _, reading, rfl, by omega⟩

/-- A command that cannot open its file has ended. -/
theorem run_failed {printed : List UInt8} {s : FsState} (steps : List CatStep) :
    (Run.exec (step cfg name) ⟨s, .returned (-1), printed⟩ steps).pc = .returned (-1) ∧
      (Run.exec (step cfg name) ⟨s, .returned (-1), printed⟩ steps).printed = printed := by
  induction steps generalizing s with
  | nil => exact ⟨rfl, rfl⟩
  | cons a steps ih =>
    cases a with
    | cat => exact ih
    | other op => exact ih

/-- `cat` says that it cannot open the file, or prints what the file has held when it was opened, each
piece up to its first NUL. It ends, with whatever calls on other files in between. -/
theorem cat_prints (cfg : FsConfig) (s : FsState) (name : CStr) (reachable : Reachable cfg s)
    (sized : ∀ i, findFile cfg s name.stripSlash = some i →
      (s.entry i).size.toNat ≤ fsBlockSize)
    (steps : List CatStep)
    (apart : Run.Along (step cfg name) (Apart cfg) ((start s).step cfg name .cat) steps) :
    let c := Run.exec (step cfg name) ((start s).step cfg name .cat) steps
    if (fsOpen cfg s (some name) vfsORdonly).1 < 0 then
      c.pc = .returned (-1) ∧ c.printed = cannotOpen name
    else
      ∃ i, findFile cfg s name.stripSlash = some i ∧
        c.printed <+: catText (fileContent s i) ++ println "" ∧
        (0 ∉ fileContent s i → catText (fileContent s i) = fileContent s i) ∧
        ((fileContent s i).length / 127 + 3 ≤ steps.countP CatStep.own →
          c.pc = .returned 0 ∧ c.printed = catText (fileContent s i) ++ println "") := by
  intro c
  split
  next failed =>
    have ended : (start s).step cfg name .cat =
        ⟨(fsOpen cfg s (some name) vfsORdonly).2, .returned (-1), cannotOpen name⟩ := by
      rw [step, start]
      dsimp only
      rw [if_pos failed, List.nil_append]
    simp only [c, ended]
    exact run_failed steps
  next opens =>
    obtain ⟨i, found, shows⟩ := shows_start reachable.inv sized opens
    have run := shows.run apart
    refine ⟨i, found, run.printed, catText_plain _, fun enough => ?_⟩
    rw [Nat.sub_eq_zero_of_le enough] at run
    exact run.ended

/-- File `a` with two bytes. -/
def storedA : FsState := Fs.step twoFiles pendingA (.close 0)

theorem storedA_file : findFile twoFiles storedA fileA.stripSlash = some 0 := by decide +kernel

theorem cat_prints_stored :
    let c := Run.exec (step twoFiles fileA) ((start storedA).step twoFiles fileA .cat)
      [.cat, .cat, .cat]
    c.pc = .returned 0 ∧ c.printed = [0x41, 0x42] ++ println "" := by
  have sized (i : Nat) (found : findFile twoFiles storedA fileA.stripSlash = some i) :
      (storedA.entry i).size.toNat ≤ fsBlockSize := by
    cases storedA_file.symm.trans found
    decide +kernel
  have told := cat_prints twoFiles storedA fileA
    ⟨freshFs, [.call createA, .call (.write 0 (some [0x41, 0x42])), .call (.close 0)],
      freshFs_booted, rfl⟩
    sized [.cat, .cat, .cat] ⟨trivial, trivial, trivial, trivial⟩
  have opens : ¬ (fsOpen twoFiles storedA (some fileA) vfsORdonly).1 < 0 := by decide +kernel
  simp only [if_neg opens] at told
  obtain ⟨i, found, _, plain, ended⟩ := told
  cases storedA_file.symm.trans found
  have content : fileContent storedA 0 = [0x41, 0x42] := by decide +kernel
  rw [content] at plain ended
  rw [plain (by decide)] at ended
  exact ended (by decide)

end Cat

end PicoOS.Shell
