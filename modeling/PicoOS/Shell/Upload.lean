import Mathlib
import PicoOS.Fs.Content

/-!
# Uploading a text file

`upload_file` of console.py sends a file line by line, the multi-line mode of
`fs write` reads the lines with `shell_readline` and writes them one by one,
each with a newline appended where the line buffer has room for it.
-/
namespace PicoOS.Shell

open PicoOS.Fs

/-! ### The host -/

/-- `str.isspace`. -/
def isSpace (c : Char) : Bool :=
  let n := c.toNat
  (0x09 ≤ n && n ≤ 0x0D) || (0x1C ≤ n && n ≤ 0x20) || n == 0x85 || n == 0xA0 || n == 0x1680 ||
    (0x2000 ≤ n && n ≤ 0x200A) || n == 0x2028 || n == 0x2029 || n == 0x202F || n == 0x205F ||
    n == 0x3000

/-- `str.strip`. -/
def strip (line : List Char) : List Char :=
  ((line.dropWhile isSpace).reverse.dropWhile isSpace).reverse

def carriageReturn : Char := .ofNat 0x0D

def lineFeed : Char := .ofNat 0x0A

/-- The line boundaries of `str.splitlines`. -/
def isBreak (c : Char) : Bool :=
  let n := c.toNat
  (0x0A ≤ n && n ≤ 0x0D) || (0x1C ≤ n && n ≤ 0x1E) || n == 0x85 || n == 0x2028 || n == 0x2029

/-- The rest of `str.splitlines` behind the characters `line` of a line; a line feed after a
carriage return belongs to it. -/
def splitLoop : Bool → List Char → List Char → List (List Char)
  | _, line, [] => if line = [] then [] else [line]
  | afterCr, line, c :: text =>
    if afterCr ∧ c = lineFeed then splitLoop false [] text
    else if isBreak c then line :: splitLoop (c = carriageReturn) [] text
    else splitLoop false (line ++ [c]) text

/-- `str.splitlines`. -/
def splitlines (text : List Char) : List (List Char) := splitLoop false [] text

/-- A line as it is sent: a lone `.` gets a space, so that it is not taken for the sentinel. -/
def frameLine (line : List Char) : List Char :=
  (if strip line = ['.'] then ['.', ' '] else line) ++ [carriageReturn]

/-- What `upload_file` sends after the command line: the lines and the sentinel. -/
def uploadFile (text : List Char) : List UInt8 :=
  (((splitlines text).map frameLine).flatten ++ ['.', carriageReturn]).flatMap String.utf8EncodeChar

/-! ### The device -/

/-- `SHELL_LINE_MAX`. -/
def shellLineMax : Nat := 128

/-- `shell_readline` with `line` in its buffer of `size` bytes: the line and the input behind it;
`none` waits for more input. -/
def shellReadline (size : Nat) : List UInt8 → List UInt8 → Option (List UInt8 × List UInt8)
  | _, [] => none
  | line, ch :: input =>
    if ch = 0x0D ∨ ch = 0x0A then some (line, input)
    else if (ch = 0x08 ∨ ch = 0x7F) ∧ 0 < line.length then shellReadline size line.dropLast input
    else if 0x20 ≤ ch ∧ ch < 0x7F ∧ line.length < size - 1 then
      shellReadline size (line ++ [ch]) input
    else shellReadline size line input

theorem shellReadline_shorter {size : Nat} {line input got rest : List UInt8}
    (read : shellReadline size line input = some (got, rest)) : rest.length < input.length := by
  induction input generalizing line with
  | nil => cases read
  | cons ch input ih =>
    rw [shellReadline] at read
    split at read
    · cases read
      exact Nat.lt_succ_self _
    · split at read
      · exact (ih read).trans (Nat.lt_succ_self _)
      · split at read
        · exact (ih read).trans (Nat.lt_succ_self _)
        · exact (ih read).trans (Nat.lt_succ_self _)

/-- `strncat(dest, src, n)`. -/
def strncat (dest src : List UInt8) (n : Nat) : List UInt8 := dest ++ src.take n

/-- The loop of the multi-line mode: the bytes written, and the input it leaves. -/
def multiLine (fd : Int) (s : FsState) (total : Int) (input : List UInt8) :
    Option (Int × FsState × List UInt8) :=
  match read : shellReadline shellLineMax [] input with
  | none => none
  | some (line, rest) =>
    have := shellReadline_shorter read
    if line.length = 1 ∧ line.head? = some 0x2E then some (total, s, rest)
    else
      let text := strncat line [0x0A] (shellLineMax - line.length - 1)
      if (fsWrite s fd (some text)).1 < 0 then some (total, (fsWrite s fd (some text)).2, rest)
      else multiLine fd (fsWrite s fd (some text)).2 (total + (fsWrite s fd (some text)).1) rest
termination_by input.length

/-- The mode `fs write` opens its file with. -/
def writeMode : UInt32 := vfsOWronly ||| vfsOCreat ||| vfsOTrunc

/-- `fs write <file>` of `cmd_fs`: its result, the filesystem and the input it leaves. -/
def fsWriteCmd (cfg : FsConfig) (s : FsState) (name : CStr) (input : List UInt8) :
    Option (Int × FsState × List UInt8) :=
  let opened := fsOpen cfg s (some name) writeMode
  if opened.1 < 0 then some (-1, opened.2, input)
  else
    (multiLine opened.1 opened.2 0 input).map fun (total, s, rest) =>
      let closed := fsClose cfg s opened.1
      (if closed.1 ≠ 0 then -1 else if total < 0 then -1 else 0, closed.2, rest)

/-! ### What the device reads -/

/-- A printable ASCII character. -/
def Printable (c : Char) : Prop := 0x20 ≤ c.toNat ∧ c.toNat ≤ 0x7E

/-- The bytes of a line. -/
def ascii (line : List Char) : List UInt8 := line.map fun c => .ofNat c.toNat

theorem utf8_ascii {c : Char} (printable : c.toNat ≤ 0x7F) :
    String.utf8EncodeChar c = [.ofNat c.toNat] := by
  have one : c.utf8Size = 1 := by
    rw [Char.utf8Size_eq_one_iff]
    exact UInt32.le_iff_toNat_le.mpr printable
  rw [String.utf8EncodeChar_eq_singleton one]
  rfl

theorem flatMap_utf8 {line : List Char} (printable : ∀ c ∈ line, c.toNat ≤ 0x7F) :
    line.flatMap String.utf8EncodeChar = ascii line := by
  induction line with
  | nil => rfl
  | cons c line ih =>
    rw [List.flatMap_cons, utf8_ascii (printable c List.mem_cons_self),
      ih fun d member => printable d (List.mem_cons_of_mem c member)]
    rfl

@[simp] theorem length_ascii (line : List Char) : (ascii line).length = line.length :=
  List.length_map _

theorem ascii_printable {line : List Char} (printable : ∀ c ∈ line, Printable c) :
    ∀ b ∈ ascii line, 0x20 ≤ b ∧ b < 0x7F := by
  intro b member
  obtain ⟨c, of_line, rfl⟩ := List.mem_map.mp member
  obtain ⟨low, high⟩ := printable c of_line
  have value : (UInt8.ofNat c.toNat).toNat = c.toNat := by
    rw [UInt8.toNat_ofNat']
    exact Nat.mod_eq_of_lt (by omega)
  exact ⟨UInt8.le_iff_toNat_le.mpr (by rw [value]; exact low),
    UInt8.lt_iff_toNat_lt.mpr (by rw [value]; exact Nat.lt_succ_of_le high)⟩

/-- A line that fits into the buffer is read as it is sent. -/
theorem shellReadline_line {size : Nat} {line more rest : List UInt8}
    (printable : ∀ b ∈ more, 0x20 ≤ b ∧ b < 0x7F) (fits : line.length + more.length ≤ size - 1) :
    shellReadline size line (more ++ 0x0D :: rest) = some (line ++ more, rest) := by
  induction more generalizing line with
  | nil => simp [shellReadline]
  | cons b more ih =>
    obtain ⟨low, high⟩ := printable b List.mem_cons_self
    rw [List.length_cons] at fits
    have low_nat : 0x20 ≤ b.toNat := UInt8.le_iff_toNat_le.mp low
    have high_nat : b.toNat < 0x7F := UInt8.lt_iff_toNat_lt.mp high
    have no_end : ¬ (b = 0x0D ∨ b = 0x0A) := by
      rintro (rfl | rfl)
      · exact absurd low_nat (by decide)
      · exact absurd low_nat (by decide)
    have no_erase : ¬ ((b = 0x08 ∨ b = 0x7F) ∧ 0 < line.length) := by
      rintro ⟨rfl | rfl, _⟩
      · exact absurd low_nat (by decide)
      · exact absurd high_nat (by decide)
    rw [List.cons_append, shellReadline, if_neg no_end, if_neg no_erase,
      if_pos ⟨low, high, by omega⟩,
      ih (fun c member => printable c (List.mem_cons_of_mem b member))
        (by rw [List.length_append, List.length_singleton]; omega),
      List.append_assoc, List.singleton_append]

/-- The chunk that a line is written as: the newline is appended where the buffer has room. -/
def chunk (line : List Char) : List UInt8 :=
  strncat (ascii line) [0x0A] (shellLineMax - line.length - 1)

theorem chunk_short {line : List Char} (short : line.length < 127) :
    chunk line = ascii line ++ [0x0A] := by
  have room : shellLineMax - line.length - 1 = shellLineMax - line.length - 2 + 1 := by
    simp only [shellLineMax]
    omega
  rw [chunk, strncat, room, List.take_succ_cons, List.take_nil]

theorem chunk_full {line : List Char} (full : line.length = 127) : chunk line = ascii line := by
  rw [chunk, strncat, full]
  exact List.append_nil _

theorem chunk_le (line : List Char) (short : line.length ≤ 127) :
    0 < (chunk line).length ∧ (chunk line).length ≤ line.length + 1 := by
  by_cases full : line.length = 127
  · rw [chunk_full full, length_ascii]
    omega
  · rw [chunk_short (by omega), List.length_append, length_ascii, List.length_singleton]
    omega

/-! ### What the device stores -/

/-- A line that the upload may have, and that is not taken for the sentinel. -/
structure Sendable (line : List Char) : Prop where
  printable : ∀ c ∈ line, Printable c
  short : line.length ≤ 127
  text : strip line ≠ ['.']

theorem Sendable.frame {line : List Char} (h : Sendable line) :
    (frameLine line).flatMap String.utf8EncodeChar = ascii line ++ [0x0D] := by
  have low : ∀ c ∈ line ++ [carriageReturn], c.toNat ≤ 0x7F := by
    intro c member
    rcases List.mem_append.mp member with of_line | last
    · exact (h.printable c of_line).2.trans (by decide)
    · obtain rfl := List.mem_singleton.mp last
      decide
  rw [frameLine, if_neg h.text, flatMap_utf8 low, ascii, List.map_append]
  rfl

/-- The bytes of the lines, one after another. -/
theorem uploadFile_eq {text : List Char} (sendable : ∀ line ∈ splitlines text, Sendable line) :
    uploadFile text =
      ((splitlines text).flatMap fun line => ascii line ++ [0x0D]) ++ [0x2E, 0x0D] := by
  have lines : ∀ ls : List (List Char), (∀ line ∈ ls, Sendable line) →
      (ls.map frameLine).flatten.flatMap String.utf8EncodeChar =
        ls.flatMap fun line => ascii line ++ [0x0D] := by
    intro ls
    induction ls with
    | nil => exact fun _ => rfl
    | cons line ls ih =>
      intro each
      rw [List.map_cons, List.flatten_cons, List.flatMap_append, List.flatMap_cons,
        (each line List.mem_cons_self).frame,
        ih fun other member => each other (List.mem_cons_of_mem line member)]
  rw [uploadFile, List.flatMap_append, lines _ sendable]
  rfl

/-- A line that is `.` alone is the sentinel: no line of the upload is. -/
theorem Sendable.no_sentinel {line : List Char} (h : Sendable line) :
    ¬ ((ascii line).length = 1 ∧ (ascii line).head? = some 0x2E) := by
  rintro ⟨one, dot⟩
  rw [length_ascii] at one
  obtain ⟨c, rfl⟩ := List.length_eq_one_iff.mp one
  have value : UInt8.ofNat c.toNat = 0x2E := Option.some.inj dot
  have printable := (h.printable c List.mem_cons_self).2
  have code : c.toNat = 0x2E := by
    have := congrArg UInt8.toNat value
    rw [UInt8.toNat_ofNat', Nat.mod_eq_of_lt (by omega)] at this
    exact this
  have same : c = '.' := Char.toNat_inj.mp code
  subst same
  exact h.text (by decide +kernel)

/-- The size of a file whose lines each end with a newline. -/
def fileSize (lines : List (List Char)) : Nat := (lines.map fun line => line.length + 1).sum

theorem fileSize_cons (line : List Char) (lines : List (List Char)) :
    fileSize (line :: lines) = line.length + 1 + fileSize lines := by simp [fileSize]

/-- The file as it is meant: each line and a newline. -/
def fileBytes (lines : List (List Char)) : List UInt8 :=
  lines.flatMap fun line => ascii line ++ [0x0A]

theorem length_fileBytes (lines : List (List Char)) :
    (fileBytes lines).length = fileSize lines := by
  induction lines with
  | nil => rfl
  | cons line lines ih =>
    rw [fileBytes, List.flatMap_cons, List.length_append, List.length_append, length_ascii,
      List.length_singleton, fileSize_cons, ← ih, fileBytes]

theorem chunks_le {lines : List (List Char)} (short : ∀ line ∈ lines, line.length ≤ 127) :
    (lines.flatMap chunk).length ≤ fileSize lines := by
  induction lines with
  | nil => exact le_refl 0
  | cons line lines ih =>
    have first := (chunk_le line (short line List.mem_cons_self)).2
    have others := ih fun l member => short l (List.mem_cons_of_mem line member)
    rw [List.flatMap_cons, List.length_append, fileSize_cons]
    omega

/-- What is written is the file, unless a line leaves no room for its newline. -/
theorem chunks_eq_iff {lines : List (List Char)} (short : ∀ line ∈ lines, line.length ≤ 127) :
    lines.flatMap chunk = fileBytes lines ↔ ∀ line ∈ lines, line.length ≠ 127 := by
  constructor
  · intro same line member full
    -- a full line is one byte short
    obtain ⟨before, after, rfl⟩ := List.append_of_mem member
    rw [List.forall_mem_append, List.forall_mem_cons] at short
    have size := congrArg List.length same
    have first := chunks_le short.1
    have second := chunks_le short.2.2
    have whole : fileSize (before ++ line :: after) =
        fileSize before + (line.length + 1 + fileSize after) := by
      simp [fileSize]
    rw [length_fileBytes, whole, List.flatMap_append, List.flatMap_cons, List.length_append,
      List.length_append, chunk_full full, length_ascii] at size
    omega
  · intro room
    apply List.flatMap_congr
    intro line member
    have := short line member
    have := room line member
    exact chunk_short (by omega)

section Loop

variable {cfg : FsConfig} {fd : Int} {i : Nat}

/-- The sentinel ends the loop. -/
theorem multiLine_sentinel (s : FsState) (total : Int) (rest : List UInt8) :
    multiLine fd s total ([0x2E, 0x0D] ++ rest) = some (total, s, rest) := by
  have read : shellReadline shellLineMax [] ([0x2E] ++ 0x0D :: rest) = some ([0x2E], rest) :=
    shellReadline_line (by rw [List.forall_mem_singleton]; decide) (by decide)
  rw [multiLine]
  have input : [0x2E, 0x0D] ++ rest = [0x2E] ++ 0x0D :: rest := rfl
  split
  · next none => rw [input, read] at none; cases none
  · next line left got =>
    rw [input, read] at got
    cases got
    rfl

/-- A line is written, and the loop goes on with the next one. -/
theorem multiLine_line {line : List Char} (h : Sendable line) {s : FsState} (total : Int)
    (rest : List UInt8) (success : 0 ≤ (fsWrite s fd (some (chunk line))).1) :
    multiLine fd s total ((ascii line ++ [0x0D]) ++ rest) =
      multiLine fd (fsWrite s fd (some (chunk line))).2
        (total + (fsWrite s fd (some (chunk line))).1) rest := by
  have read : shellReadline shellLineMax [] (ascii line ++ 0x0D :: rest) =
      some (ascii line, rest) :=
    shellReadline_line (ascii_printable h.printable) (by
      have := h.short
      rw [length_ascii, List.length_nil, shellLineMax]
      omega)
  have input : (ascii line ++ [0x0D]) ++ rest = ascii line ++ 0x0D :: rest := by simp
  rw [multiLine]
  split
  · next none => rw [input, read] at none; cases none
  · next got left read' =>
    rw [input, read] at read'
    cases read'
    have same : strncat (ascii line) [0x0A] (shellLineMax - (ascii line).length - 1) =
        chunk line := by rw [length_ascii, chunk]
    rw [if_neg h.no_sentinel]
    dsimp only
    rw [same, if_neg (by omega)]

/-- The loop writes every line of the upload. -/
theorem multiLine_lines {lines : List (List Char)} (sendable : ∀ line ∈ lines, Sendable line)
    {s : FsState} {given : List UInt8} (h : Writing cfg fd i [] 0 given s)
    (fits : given.length + fileSize lines ≤ fsMaxFileData) (total : Int) :
    ∃ written s', multiLine fd s total
        ((lines.flatMap fun line => ascii line ++ [0x0D]) ++ [0x2E, 0x0D]) =
          some (total + written, s', []) ∧ 0 ≤ written ∧
      Writing cfg fd i [] 0 (given ++ lines.flatMap chunk) s' := by
  induction lines generalizing s given total with
  | nil =>
    refine ⟨0, s, ?_, le_refl 0, by simpa using h⟩
    rw [add_zero]
    exact multiLine_sentinel s total []
  | cons line lines ih =>
    have first := sendable line List.mem_cons_self
    have others : ∀ l ∈ lines, Sendable l := fun l member =>
      sendable l (List.mem_cons_of_mem line member)
    have size := fileSize_cons line lines
    obtain ⟨some_byte, at_most⟩ := chunk_le line first.short
    -- the chunk fits behind what is written already
    have cursor : (s.openFds fd.toNat).pos = given.length := by
      rw [h.pos, List.take_of_length_le (by omega)]
      exact Nat.zero_add _
    have stored : min (chunk line).length (fsMaxFileData - given.length) = (chunk line).length := by
      omega
    obtain ⟨result, written, -⟩ := h.write (chunk line) cursor stored
    rw [if_neg (by omega)] at result
    obtain ⟨more, s', rest, nonneg, final⟩ := ih others written
      (by rw [List.length_append]; omega) (total + (chunk line).length)
    refine ⟨(chunk line).length + more, s', ?_, by omega, ?_⟩
    · rw [List.flatMap_cons, List.append_assoc, multiLine_line first total _ (by omega), result,
        rest, add_assoc]
    · rw [List.flatMap_cons, ← List.append_assoc]
      exact final

end Loop

/-- An upload into a file that can be opened writes each line with what is appended to it. -/
theorem upload_stores {cfg : FsConfig} {s : FsState} (reachable : Reachable cfg s)
    (nil : s.flashRc = []) {name : CStr} (opened : 0 ≤ (fsOpen cfg s (some name) writeMode).1)
    {text : List Char} (sendable : ∀ line ∈ splitlines text, Sendable line)
    (fits : fileSize (splitlines text) ≤ fsMaxFileData) :
    ∃ s', fsWriteCmd cfg s name (uploadFile text) = some (0, s', []) ∧
      fileContent s' ((fsOpen cfg s (some name) writeMode).2.openFds
        (fsOpen cfg s (some name) writeMode).1.toNat).fileIdx =
      (splitlines text).flatMap chunk := by
  generalize result : fsOpen cfg s (some name) writeMode = r at opened
  obtain ⟨fd, s₁⟩ := r
  dsimp only at opened ⊢
  have empty : refBase writeMode (contentBefore cfg s name) = [] := rfl
  have started := fsOpen_writing reachable.inv nil (by rw [empty]; exact Nat.zero_le _) result
    opened (by decide) rfl
  have start : refStart writeMode (contentBefore cfg s name) = 0 := rfl
  rw [empty, start] at started
  obtain ⟨total, s₂, ran, nonneg, written⟩ := multiLine_lines sendable started
    (by rw [List.length_nil, Nat.zero_add]; exact fits) 0
  obtain ⟨closed, -, -, content⟩ := written.close
  have whole : ([] ++ (splitlines text).flatMap chunk).take (fsMaxFileData - 0) =
      (splitlines text).flatMap chunk := by
    apply List.take_of_length_le
    exact (chunks_le fun line member => (sendable line member).short).trans fits
  refine ⟨(fsClose cfg s₂ fd).2, ?_, ?_⟩
  · rw [fsWriteCmd, result]
    dsimp only
    rw [if_neg (by omega), uploadFile_eq sendable, ran, Option.map_some]
    simp only [closed, ne_eq, not_true_eq_false, if_false, zero_add]
    rw [if_neg (by omega)]
  · rw [content, whole]
    simp [Memory.overlay]

/-- The upload stores the lines, each followed by a newline, exactly when no line has 127
characters. -/
theorem upload_round_trip_iff (cfg : FsConfig) (s : FsState) (reachable : Reachable cfg s)
    (nil : s.flashRc = []) (name : CStr) (opened : 0 ≤ (fsOpen cfg s (some name) writeMode).1)
    (text : List Char) (sendable : ∀ line ∈ splitlines text, Sendable line)
    (fits : fileSize (splitlines text) ≤ fsMaxFileData) :
    (∃ s', fsWriteCmd cfg s name (uploadFile text) = some (0, s', []) ∧
      fileContent s' ((fsOpen cfg s (some name) writeMode).2.openFds
        (fsOpen cfg s (some name) writeMode).1.toNat).fileIdx = fileBytes (splitlines text)) ↔
    ∀ line ∈ splitlines text, line.length ≠ 127 := by
  have stores := upload_stores reachable nil opened sendable fits
  obtain ⟨s', ran, content⟩ := stores
  have same := chunks_eq_iff fun line member => (sendable line member).short
  constructor
  · rintro ⟨t, ran', whole⟩
    rw [ran] at ran'
    cases ran'
    exact same.mp (content.symm.trans whole)
  · intro room
    exact ⟨s', ran, content.trans (same.mpr room)⟩

/-! ### Two uploads -/

theorem freshFs_opens : 0 ≤ (fsOpen twoFiles freshFs (some fileA) writeMode).1 := by
  decide +kernel

theorem freshFs_reachable : Reachable twoFiles freshFs := ⟨freshFs, [], freshFs_booted, rfl⟩

/-- A file of two lines. -/
def greeting : List Char := ['h', 'i', lineFeed, 'y', 'o', 'u', lineFeed]

theorem greeting_lines : splitlines greeting = [['h', 'i'], ['y', 'o', 'u']] := by decide +kernel

theorem greeting_sendable : ∀ line ∈ splitlines greeting, Sendable line := by
  rw [greeting_lines, List.forall_mem_cons, List.forall_mem_singleton]
  have printable (c : Char) (low : 0x20 ≤ c.toNat) (high : c.toNat ≤ 0x7E) : Printable c :=
    ⟨low, high⟩
  constructor
  · refine ⟨?_, by decide, by decide +kernel⟩
    rw [List.forall_mem_cons, List.forall_mem_singleton]
    exact ⟨printable _ (by decide) (by decide), printable _ (by decide) (by decide)⟩
  · refine ⟨?_, by decide, by decide +kernel⟩
    rw [List.forall_mem_cons, List.forall_mem_cons, List.forall_mem_singleton]
    exact ⟨printable _ (by decide) (by decide), printable _ (by decide) (by decide),
      printable _ (by decide) (by decide)⟩

theorem upload_round_trip_greeting :
    (∃ s', fsWriteCmd twoFiles freshFs fileA (uploadFile greeting) = some (0, s', []) ∧
      fileContent s' ((fsOpen twoFiles freshFs (some fileA) writeMode).2.openFds
        (fsOpen twoFiles freshFs (some fileA) writeMode).1.toNat).fileIdx =
          fileBytes (splitlines greeting)) ↔
    ∀ line ∈ splitlines greeting, line.length ≠ 127 :=
  upload_round_trip_iff twoFiles freshFs freshFs_reachable (by decide +kernel) fileA freshFs_opens
    greeting greeting_sendable (by rw [greeting_lines]; decide)

/-- A line that fills the line buffer, and a short one. -/
def longLine : List Char := List.replicate 127 'a' ++ [lineFeed, 'b', lineFeed]

theorem longLine_lines : splitlines longLine = [List.replicate 127 'a', ['b']] := by
  decide +kernel

theorem longLine_sendable : ∀ line ∈ splitlines longLine, Sendable line := by
  rw [longLine_lines, List.forall_mem_cons, List.forall_mem_singleton]
  constructor
  · refine ⟨fun c member => ?_, List.length_replicate.le, by decide +kernel⟩
    obtain rfl := List.eq_of_mem_replicate member
    exact ⟨by decide, by decide⟩
  · refine ⟨?_, by decide, by decide +kernel⟩
    rw [List.forall_mem_singleton]
    exact ⟨by decide, by decide⟩

/-- The long line loses its newline: the file holds one line of 128 characters. -/
theorem upload_joins_lines :
    (∀ line ∈ splitlines longLine, Sendable line) ∧
      fileSize (splitlines longLine) ≤ fsMaxFileData ∧
      ∃ s', fsWriteCmd twoFiles freshFs fileA (uploadFile longLine) = some (0, s', []) ∧
        fileContent s' ((fsOpen twoFiles freshFs (some fileA) writeMode).2.openFds
          (fsOpen twoFiles freshFs (some fileA) writeMode).1.toNat).fileIdx =
            List.replicate 127 0x61 ++ [0x62, 0x0A] ∧
        fileContent s' ((fsOpen twoFiles freshFs (some fileA) writeMode).2.openFds
          (fsOpen twoFiles freshFs (some fileA) writeMode).1.toNat).fileIdx ≠
            fileBytes (splitlines longLine) := by
  have size : fileSize (splitlines longLine) ≤ fsMaxFileData := by
    rw [longLine_lines]
    decide +kernel
  obtain ⟨s', ran, content⟩ := upload_stores freshFs_reachable (by decide +kernel) freshFs_opens
    longLine_sendable size
  refine ⟨longLine_sendable, size, s', ran, ?_, ?_⟩
  · rw [content, longLine_lines]
    decide +kernel
  · intro whole
    have room := (chunks_eq_iff fun line member => (longLine_sendable line member).short).mp
      (content.symm.trans whole)
    rw [longLine_lines] at room
    exact room _ List.mem_cons_self List.length_replicate

end PicoOS.Shell
