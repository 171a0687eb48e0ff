import Mathlib
import PicoOS.Shell.Tokenise
import PicoOS.Shell.Upload

/-!
# The filesystem command

`cmd_fs` with what `tokenise` leaves of a typed line. In the single-line modes the
words behind the file name are joined again, and so the file gets as many of them
as `argv` has had room for.
-/
namespace PicoOS.Shell

open PicoOS.Fs CString Runs

/-- `SHELL_ARGC_MAX`. -/
def shellArgcMax : Int := 8

/-- The string that the bytes begin with. -/
def cStr (bytes : List UInt8) : CStr :=
  ⟨bytes.takeWhile (· ≠ 0), fun member => by simpa using List.mem_takeWhile_imp member⟩

/-- The loop that joins the words from `argv[3]` on. -/
def joinLoop : Bool → List UInt8 → List CStr → List UInt8
  | _, line, [] => line
  | first, line, word :: words =>
    let line := if first then line else strncat line (text " ") (shellLineMax - line.length - 1)
    joinLoop false (strncat line word.val (shellLineMax - line.length - 1)) words

/-- The line that the single-line modes write. -/
def fsLine (words : List CStr) : List UInt8 :=
  let line := joinLoop true [] words
  strncat line (text "\n") (shellLineMax - line.length - 1)

/-- The mode `fs append` opens its file with. -/
def appendMode : UInt32 := vfsOWronly ||| vfsOCreat ||| vfsOAppend

/-- How `cmd_fs` leaves off: its result, the filesystem, the rest of the input, and what it has passed
to `fs_write` in a single-line mode. -/
structure FsCommand where
  rc : Int
  fs : FsState
  input : List UInt8
  passed : Option (List UInt8)

/-- A single-line mode: open the file, write the line, close it. -/
def writeLine (cfg : FsConfig) (s : FsState) (name : CStr) (mode : UInt32) (words : List CStr)
    (input : List UInt8) : FsCommand :=
  let opened := fsOpen cfg s (some name) mode
  if opened.1 < 0 then ⟨-1, opened.2, input, none⟩
  else
    let line := fsLine words
    let written := fsWrite opened.2 opened.1 (some line)
    let closed := fsClose cfg written.2 opened.1
    ⟨if closed.1 ≠ 0 then -1 else if written.1 < 0 then -1 else 0, closed.2, input, some line⟩

/-- `cmd_fs`; `none` waits for more input. -/
def cmdFs (cfg : FsConfig) (s : FsState) (argv : List CStr) (input : List UInt8) :
    Option FsCommand :=
  match argv with
  | _ :: sub :: args =>
    if sub.val = text "write" then
      match args with
      | [] => some ⟨-1, s, input, none⟩
      | [name] => (fsWriteCmd cfg s name input).map fun (rc, s, input) => ⟨rc, s, input, none⟩
      | name :: words => some (writeLine cfg s name writeMode words input)
    else if sub.val = text "append" then
      match args with
      | name :: word :: words => some (writeLine cfg s name appendMode (word :: words) input)
      | _ => some ⟨-1, s, input, none⟩
    else if sub.val = text "format" then
      some ⟨0, fsFormat cfg s, input, none⟩
    else
      some ⟨-1, s, input, none⟩
  | _ => some ⟨-1, s, input, none⟩

/-- What `shell_run` does with a line once Enter is pressed, if it is an `fs` command: it splits the
line and calls `cmd_fs`. -/
def runFs (cfg : FsConfig) (s : FsState) (line input : List UInt8) : Option FsCommand := do
  let (line, argv) ← tokenise (line ++ [0]) shellArgcMax
  let argv := argv.map fun p => cStr (line.drop p)
  let name ← argv.head?
  if name.val = text "fs" then cmdFs cfg s argv input else none

/-- A line that `shell_run` accepts. -/
def Typed (line : List UInt8) : Prop := line.length < shellLineMax ∧ ∀ c ∈ line, 0x20 ≤ c ∧ c < 0x7F

/-- The words joined by single spaces, and a newline. -/
def joined (words : List (List UInt8)) : List UInt8 := [0x20].intercalate words ++ [0x0A]

/-! ### Joining -/

theorem intercalate_cons (sep w : List UInt8) (ws : List (List UInt8)) :
    sep.intercalate (w :: ws) = w ++ ws.flatMap (sep ++ ·) := by
  induction ws generalizing w with
  | nil => simp
  | cons v ws ih => simp [List.intercalate_cons_cons, ih]

/-- The bytes of the strings. -/
def strings (words : List CStr) : List (List UInt8) := words.map fun word => word.val

@[simp] theorem strings_nil : strings [] = [] := rfl

@[simp] theorem strings_cons (word : CStr) (words : List CStr) :
    strings (word :: words) = word.val :: strings words := rfl

theorem strings_eq_cons {words : List CStr} {w : List UInt8} {ws : List (List UInt8)}
    (eq : strings words = w :: ws) :
    ∃ word words', words = word :: words' ∧ word.val = w ∧ strings words' = ws :=
  List.map_eq_cons_iff.mp eq

/-- The room that the words take, each with a separator. -/
def room (words : List (List UInt8)) : Nat := words.flatten.length + words.length

theorem room_cons (w : List UInt8) (ws : List (List UInt8)) :
    room (w :: ws) = w.length + 1 + room ws := by
  simp only [room, List.flatten_cons, List.length_append, List.length_cons]
  omega

theorem room_take (n : Nat) (words : List (List UInt8)) : room (words.take n) ≤ room words := by
  have bytes := congrArg (List.length ·.flatten) (List.take_append_drop n words)
  have count := List.length_take_le' n words
  simp only [List.flatten_append, List.length_append] at bytes
  simp only [room]
  omega

theorem strncat_fits {dest src : List UInt8} (fits : dest.length + src.length < shellLineMax) :
    strncat dest src (shellLineMax - dest.length - 1) = dest ++ src := by
  rw [strncat, List.take_of_length_le (by omega)]

/-- With room for all of them, each word behind the first one gets a space. -/
theorem joinLoop_later {line : List UInt8} {words : List CStr}
    (fits : line.length + room (strings words) < shellLineMax) :
    joinLoop false line words = line ++ (strings words).flatMap ([0x20] ++ ·) := by
  induction words generalizing line with
  | nil => simp [joinLoop]
  | cons word words ih =>
    rw [strings_cons, room_cons] at fits
    have space : text " " = [0x20] := by decide +kernel
    have spaced : strncat line (text " ") (shellLineMax - line.length - 1) = line ++ [0x20] := by
      rw [space]
      exact strncat_fits (by rw [List.length_singleton]; omega)
    have added : strncat (line ++ [0x20]) word.val (shellLineMax - (line ++ [0x20]).length - 1) =
        line ++ [0x20] ++ word.val :=
      strncat_fits (by rw [List.length_append, List.length_singleton]; omega)
    rw [joinLoop]
    simp only [Bool.false_eq_true, if_false]
    rw [spaced, added, ih (by simp only [List.length_append, List.length_singleton]; omega),
      strings_cons, List.flatMap_cons]
    simp

/-- The spaces and the newline make one for each word. -/
theorem length_joined {words : List (List UInt8)} (held : words ≠ []) :
    (joined words).length = room words := by
  obtain ⟨w, ws, rfl⟩ := List.exists_cons_of_ne_nil held
  have spaces (ws : List (List UInt8)) : (ws.flatMap ([0x20] ++ ·)).length = room ws := by
    induction ws with
    | nil => rfl
    | cons w ws ih =>
      rw [List.flatMap_cons, List.length_append, ih, room_cons, List.length_append,
        List.length_singleton]
      omega
  rw [joined, intercalate_cons, List.length_append, List.length_append, spaces, room_cons,
    List.length_singleton]
  omega

/-- Words that fit into the line are joined whole. -/
theorem fsLine_joined {words : List CStr} (held : words ≠ [])
    (fits : room (strings words) < shellLineMax) :
    fsLine words = joined (strings words) := by
  obtain ⟨word, words, rfl⟩ := List.exists_cons_of_ne_nil held
  rw [strings_cons, room_cons] at fits
  have first : strncat [] word.val (shellLineMax - ([] : List UInt8).length - 1) = word.val :=
    strncat_fits (by rw [List.length_nil]; omega)
  have others : joinLoop true [] (word :: words) =
      [0x20].intercalate (strings (word :: words)) := by
    rw [joinLoop]
    simp only [if_true]
    rw [first, joinLoop_later (by omega), strings_cons, intercalate_cons]
  have size : ([0x20].intercalate (strings (word :: words))).length + 1 =
      room (strings (word :: words)) := by
    have length := length_joined (List.cons_ne_nil word.val (strings words))
    rw [← strings_cons] at length
    rwa [joined, List.length_append, List.length_singleton] at length
  have newline : text "\n" = [0x0A] := by decide +kernel
  rw [strings_cons, room_cons] at size
  rw [fsLine, others, newline, strings_cons, strncat_fits, joined]
  rw [List.length_singleton, size]
  exact fits

/-! ### What is typed -/

theorem cStr_val {buf w : List UInt8} {p : Nat} (found : strAt buf p = some w) :
    (cStr (buf.drop p)).val = w := by
  rw [strAt] at found
  split at found
  · exact Option.some.inj found
  · cases found

/-- The strings that `cmd_fs` gets: the first words of the line. -/
theorem tokenise_words {line : List UInt8} (nul : 0 ∉ line) :
    ∃ line' argv, tokenise (line ++ [0]) shellArgcMax = some (line', argv) ∧
      strings (argv.map fun p => cStr (line'.drop p)) = (runs isBlank line).take 8 := by
  have enough : line.length < (line ++ [0]).length + 1 := by
    rw [List.length_append]
    omega
  obtain ⟨line', ran, split⟩ := tokeniseLoop_splits shellArgcMax [] line [] [] nul enough
  have count : (shellArgcMax - ([] : List Nat).length).toNat = 8 := rfl
  rw [count] at ran split
  simp only [List.nil_append, List.length_nil, Nat.zero_add, List.map_id'] at ran split
  refine ⟨_, _, ran, ?_⟩
  rw [strings, runs, ← List.map_take, List.map_map]
  refine List.map_congr_left fun i member => ?_
  have found := split.tokens i member
  simp only [List.nil_append, List.length_nil, Nat.zero_add] at found
  exact cStr_val found

/-- The mode that a single-line subcommand opens its file with. -/
def lineMode (sub : List UInt8) : UInt32 := if sub = text "write" then writeMode else appendMode

theorem cmdFs_line (cfg : FsConfig) (s : FsState) {name sub file word : CStr} (words : List CStr)
    (input : List UInt8) (single : sub.val = text "write" ∨ sub.val = text "append") :
    cmdFs cfg s (name :: sub :: file :: word :: words) input =
      some (writeLine cfg s file (lineMode sub.val) (word :: words) input) := by
  rw [cmdFs, lineMode]
  · by_cases write : sub.val = text "write"
    · rw [if_pos write, if_pos write]
    · rw [if_neg write, if_neg write, if_pos (single.resolve_left write)]
  · intro none
    cases none

/-- A single-line command runs on the first five words behind the file. -/
theorem runFs_line (cfg : FsConfig) (s : FsState) {line : List UInt8} (input : List UInt8)
    (typed : Typed line) {sub : List UInt8} {file : CStr} {words : List (List UInt8)}
    (split : runs isBlank line = text "fs" :: sub :: file.val :: words)
    (single : sub = text "write" ∨ sub = text "append") (held : words ≠ []) :
    ∃ strs : List CStr, fsLine strs = joined (words.take 5) ∧
      runFs cfg s line input = some (writeLine cfg s file (lineMode sub) strs input) := by
  have nul : 0 ∉ line := fun member => absurd (typed.2 0 member).1 (by decide)
  obtain ⟨line', argv, ran, strs⟩ := tokenise_words nul
  generalize shape : (argv.map fun p => cStr (line'.drop p)) = vals at strs
  have five : (text "fs" :: sub :: file.val :: words).take 8 =
      text "fs" :: sub :: file.val :: words.take 5 := rfl
  rw [split, five] at strs
  obtain ⟨fs, _, rfl, fs_val, behind_fs⟩ := strings_eq_cons strs
  obtain ⟨cmd, _, rfl, cmd_val, behind_sub⟩ := strings_eq_cons behind_fs
  obtain ⟨file', vals, rfl, same, words_val⟩ := strings_eq_cons behind_sub
  cases Subtype.ext same
  subst cmd_val
  have some_left : vals ≠ [] := by
    rintro rfl
    obtain ⟨w, ws, rfl⟩ := List.exists_cons_of_ne_nil held
    cases words_val
  -- The line has had room for all of its words.
  have whole := length_runs isBlank line
  have size : (runs isBlank line).flatten.length + (runs isBlank line).length =
      room (runs isBlank line) := rfl
  rw [size, split, room_cons, room_cons, room_cons] at whole
  have fewer := room_take 5 words
  have short := typed.1
  refine ⟨vals, words_val ▸ fsLine_joined some_left (by rw [words_val]; omega), ?_⟩
  obtain ⟨word, vals, rfl⟩ := List.exists_cons_of_ne_nil some_left
  rw [runFs, ran]
  simp only [Option.bind_eq_bind, Option.bind_some, shape, List.head?_cons, if_pos fs_val]
  exact cmdFs_line cfg s vals input single

/-- A single-line `fs write` or `fs append` passes the words behind the file to `fs_write`, joined by
single spaces and ended by a newline: the first five, for which `argv` has room. -/
theorem fs_line_passed (cfg : FsConfig) (s : FsState) (line input : List UInt8)
    (typed : Typed line) (sub : List UInt8) (file : CStr) (words : List (List UInt8))
    (split : runs isBlank line = text "fs" :: sub :: file.val :: words)
    (single : sub = text "write" ∨ sub = text "append") (held : words ≠ []) :
    ∃ r, runFs cfg s line input = some r ∧
      if (fsOpen cfg s (some file) (lineMode sub)).1 < 0 then
        r.passed = none ∧ r.fs = (fsOpen cfg s (some file) (lineMode sub)).2
      else
        r.passed = some (joined (words.take 5)) ∧
        r.fs = (fsClose cfg
          (fsWrite (fsOpen cfg s (some file) (lineMode sub)).2
            (fsOpen cfg s (some file) (lineMode sub)).1 (some (joined (words.take 5)))).2
          (fsOpen cfg s (some file) (lineMode sub)).1).2 := by
  obtain ⟨strs, passed, ran⟩ := runFs_line cfg s input typed split single held
  refine ⟨_, ran, ?_⟩
  rw [writeLine]
  split
  · exact ⟨rfl, rfl⟩
  · rw [passed]
    exact ⟨rfl, rfl⟩

/-! ### Two commands -/

/-- Two words behind the file, with blanks between them. -/
def twoWords : List UInt8 := text "fs write a  hi   you"

theorem twoWords_typed : Typed twoWords := ⟨by decide +kernel, by decide +kernel⟩

theorem twoWords_split :
    runs isBlank twoWords = text "fs" :: text "write" :: fileA.val :: [text "hi", text "you"] := by
  decide +kernel

theorem fs_line_passed_two :
    ∃ r, runFs twoFiles freshFs twoWords [] = some r ∧
      if (fsOpen twoFiles freshFs (some fileA) (lineMode (text "write"))).1 < 0 then
        r.passed = none ∧
        r.fs = (fsOpen twoFiles freshFs (some fileA) (lineMode (text "write"))).2
      else
        r.passed = some (joined ([text "hi", text "you"].take 5)) ∧
        r.fs = (fsClose twoFiles
          (fsWrite (fsOpen twoFiles freshFs (some fileA) (lineMode (text "write"))).2
            (fsOpen twoFiles freshFs (some fileA) (lineMode (text "write"))).1
            (some (joined ([text "hi", text "you"].take 5)))).2
          (fsOpen twoFiles freshFs (some fileA) (lineMode (text "write"))).1).2 :=
  fs_line_passed twoFiles freshFs twoWords [] twoWords_typed (text "write") fileA
    [text "hi", text "you"] twoWords_split (.inl rfl) (List.cons_ne_nil _ _)

/-- Six words behind the file. -/
def sixWords : List UInt8 := text "fs write a b c d e f g"

/-- The sixth word does not reach the file. -/
theorem sixth_word_dropped :
    Typed sixWords ∧
      runs isBlank sixWords = text "fs" :: text "write" :: fileA.val ::
        [text "b", text "c", text "d", text "e", text "f", text "g"] ∧
      0 ≤ (fsOpen twoFiles freshFs (some fileA) writeMode).1 ∧
      ∃ r, runFs twoFiles freshFs sixWords [] = some r ∧
        r.passed = some (text "b c d e f\n") ∧
        r.passed ≠
          some (joined [text "b", text "c", text "d", text "e", text "f", text "g"]) := by
  have typed : Typed sixWords := ⟨by decide +kernel, by decide +kernel⟩
  have split : runs isBlank sixWords = text "fs" :: text "write" :: fileA.val ::
      [text "b", text "c", text "d", text "e", text "f", text "g"] := by decide +kernel
  obtain ⟨strs, passed, ran⟩ := runFs_line twoFiles freshFs [] typed split (.inl rfl)
    (List.cons_ne_nil _ _)
  have mode : lineMode (text "write") = writeMode := if_pos rfl
  have opens := freshFs_opens
  have five : joined ([text "b", text "c", text "d", text "e", text "f", text "g"].take 5) =
      text "b c d e f\n" := by decide +kernel
  refine ⟨typed, split, opens, _, ran, ?_⟩
  rw [mode, writeLine, if_neg (by omega), passed, five]
  exact ⟨rfl, by decide +kernel⟩

end PicoOS.Shell
