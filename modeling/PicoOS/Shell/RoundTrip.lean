import PicoOS.Shell.Cat
import PicoOS.Shell.Commands

/-!
# From the keyboard to the file and back

A line typed for `fs write` goes through the tokeniser, the joining of the words and the
flash, and `cat` shows it again.
-/
namespace PicoOS.Shell

open Fs CString Runs

/-! ### The line -/

theorem joined_plain {words : List (List UInt8)} (plain : ∀ w ∈ words, 0 ∉ w) :
    0 ∉ joined words := by
  intro zero
  rcases List.mem_append.mp zero with zero | zero
  · cases words with
    | nil => cases zero
    | cons w ws =>
      rw [intercalate_cons] at zero
      rcases List.mem_append.mp zero with zero | zero
      · exact plain w List.mem_cons_self zero
      · obtain ⟨v, member, zero⟩ := List.mem_flatMap.mp zero
        rcases List.mem_append.mp zero with zero | zero
        · exact absurd zero (by decide)
        · exact plain v (List.mem_cons_of_mem w member) zero
  · exact absurd zero (by decide)

/-! ### The file -/

variable {cfg : FsConfig} {s : FsState} {name : CStr}

/-- A line that has been written is what the file holds, and its descriptor is free again. -/
theorem writeLine_stores (inv : Inv cfg s) (nil : s.flashRc = []) (fits : name.stripSlash.Fits)
    (opens : 0 ≤ (fsOpen cfg s (some name) writeMode).1) {strs : List CStr} (input : List UInt8)
    (some : fsLine strs ≠ []) (short : (fsLine strs).length ≤ fsMaxFileData) :
    ∃ i fd, (writeLine cfg s name writeMode strs input).rc = 0 ∧
      Inv cfg (writeLine cfg s name writeMode strs input).fs ∧
      findFile cfg (writeLine cfg s name writeMode strs input).fs name.stripSlash = .some i ∧
      fileContent (writeLine cfg s name writeMode strs input).fs i = fsLine strs ∧
      fd < fsMaxOpenFds ∧
      ((writeLine cfg s name writeMode strs input).fs.openFds fd).used = false := by
  rcases opened : fsOpen cfg s (.some name) writeMode with ⟨fd, s₁⟩
  rw [opened] at opens
  have empty : refBase writeMode (contentBefore cfg s name) = [] := rfl
  have begins : refStart writeMode (contentBefore cfg s name) = 0 := rfl
  have started := fsOpen_writing inv nil (by rw [empty]; exact Nat.zero_le _) opened opens
    (by decide) rfl
  rw [empty, begins] at started
  have found := fsOpen_findFile opened opens (.inl fits)
  have cursor : (s₁.openFds fd.toNat).pos = 0 := by simpa using started.pos
  obtain ⟨result, written, -⟩ := started.write (fsLine strs) cursor rfl
  obtain ⟨closed, after, entry, content⟩ := written.close
  have whole : (fsLine strs).take (fsMaxFileData - 0) = fsLine strs :=
    List.take_of_length_le short
  have plain : Memory.overlay [] 0 (fsLine strs) = fsLine strs := by simp [Memory.overlay]
  rw [List.nil_append, whole, plain] at content
  have stored : ¬ (fsWrite s₁ fd (.some (fsLine strs))).1 < 0 := by
    have room := List.length_pos_iff.mpr some
    rw [result, if_neg (by omega)]
    exact Int.not_lt.mpr (Int.natCast_nonneg _)
  have line : writeLine cfg s name writeMode strs input =
      ⟨0, (fsClose cfg (fsWrite s₁ fd (.some (fsLine strs))).2 fd).2, input, fsLine strs⟩ := by
    rw [writeLine, opened]
    dsimp only
    rw [if_neg (Int.not_lt.mpr opens), if_neg (not_not.mpr closed), if_neg stored]
  rw [line]
  -- neither the write nor the close takes the name from the file
  have only : Run.Along (Fs.step cfg)
      (SessionCall cfg name.stripSlash fd (s₁.openFds fd.toNat).fileIdx) s₁
      [.write fd (.some (fsLine strs))] := ⟨.inl (by simp [writeChunk]), trivial⟩
  have afterWrite := started.findFile only found
  have afterClose : findFile cfg
      (Fs.step cfg (fsWrite s₁ fd (.some (fsLine strs))).2 (.close fd)) name.stripSlash = _ :=
    findFile_step afterWrite (not_addsName_of_fit afterWrite trivial)
      (congrArg FsEntry.used entry) (congrArg FsEntry.name entry)
  refine ⟨_, fd.toNat, rfl, after, afterClose, content, ((validFd_iff fd).mp written.valid).2.1, ?_⟩
  exact fsClose_frees written.valid

/-- A line that `fs write` has been typed with, up to five words behind the file, is what `cat` of the
file prints, with whatever calls on other files in between its steps. -/
theorem typed_line_shown (cfg : FsConfig) (s : FsState) (reachable : Reachable cfg s)
    (nil : s.flashRc = []) (line input : List UInt8) (typed : Typed line) (file : CStr)
    (words : List (List UInt8))
    (split : runs isBlank line = text "fs" :: text "write" :: file.val :: words) (held : words ≠ [])
    (fits : file.stripSlash.Fits) (opens : 0 ≤ (fsOpen cfg s (some file) writeMode).1) :
    ∃ r, runFs cfg s line input = some r ∧ r.rc = 0 ∧
      ∀ steps, Run.Along (Cat.step cfg file) (Cat.Apart cfg)
        ((Cat.start r.fs).step cfg file .cat) steps →
        let c := Run.exec (Cat.step cfg file) ((Cat.start r.fs).step cfg file .cat) steps
        c.printed <+: joined (words.take 5) ++ println "" ∧
          (4 ≤ steps.countP CatStep.own →
            c.pc = .returned 0 ∧ c.printed = joined (words.take 5) ++ println "") := by
  obtain ⟨strs, joins, ran⟩ := runFs_line cfg s input typed split (.inl rfl) held
  have mode : lineMode (text "write") = writeMode := if_pos rfl
  rw [mode] at ran
  have some_left : words.take 5 ≠ [] := by
    cases words with
    | nil => exact absurd rfl held
    | cons w ws => exact List.cons_ne_nil _ _
  -- the line has had room for its words
  have whole := length_runs isBlank line
  have size : (runs isBlank line).flatten.length + (runs isBlank line).length =
      room (runs isBlank line) := rfl
  rw [size, split, room_cons, room_cons, room_cons] at whole
  have fewer := room_take 5 words
  have length := length_joined some_left
  have short := typed.1
  rw [shellLineMax] at short
  have small : (joined (words.take 5)).length ≤ 127 := by omega
  have filled : 0 < (fsLine strs).length := by
    rw [joins, joined, List.length_append, List.length_singleton]
    omega
  obtain ⟨i, fd, done, inv, found, content, inside, free⟩ := writeLine_stores reachable.inv nil fits
    opens input (List.length_pos_iff.mp filled) (by rw [joins, fsMaxFileData, fsBlockSize]; omega)
  refine ⟨_, ran, done, fun steps apart => ?_⟩
  have plain : 0 ∉ joined (words.take 5) := by
    apply joined_plain
    intro w member zero
    have typed_word : w ∈ runs isBlank line := by
      rw [split]
      simp only [List.mem_cons]
      exact .inr (.inr (.inr (List.mem_of_mem_take member)))
    exact absurd (typed.2 0 (mem_of_mem_runs typed_word zero)).1 (by decide)
  have slot := allocOpenFd_ne_none.mpr ⟨fd, inside, free⟩
  have readOnly : hasFlag vfsORdonly vfsOWronly = false := by decide
  have shown := (fsOpen_readOnly found readOnly).mpr slot
  obtain ⟨j, same, shows⟩ := Cat.shows_start inv (fun j at_ => by
    cases found.symm.trans at_
    rw [← length_fileContent, content, joins, fsBlockSize]
    omega) (Int.not_lt.mpr shown)
  cases found.symm.trans same
  have run := shows.run apart
  rw [content, joins] at run
  have printed := run.printed
  rw [catText_plain _ plain] at printed
  refine ⟨printed, fun enough => ?_⟩
  have bound : (joined (words.take 5)).length / 127 + 3 ≤ 4 := by omega
  rw [Nat.sub_eq_zero_of_le (bound.trans enough)] at run
  have ended := run.ended
  rwa [catText_plain _ plain] at ended

theorem typed_line_shown_two :
    ∃ r, runFs twoFiles freshFs twoWords [] = some r ∧ r.rc = 0 ∧
      (Run.exec (Cat.step twoFiles fileA) ((Cat.start r.fs).step twoFiles fileA .cat)
        [.cat, .cat, .cat, .cat]).printed = joined [text "hi", text "you"] ++ println "" := by
  have fits : fileA.stripSlash.val.length < fsNameMax := by decide +kernel
  obtain ⟨r, ran, done, shows⟩ := typed_line_shown twoFiles freshFs freshFs_reachable
    (by decide +kernel) twoWords [] twoWords_typed fileA [text "hi", text "you"] twoWords_split
    (List.cons_ne_nil _ _) fits freshFs_opens
  obtain ⟨_, ended⟩ := shows [.cat, .cat, .cat, .cat] ⟨trivial, trivial, trivial, trivial, trivial⟩
  exact ⟨r, ran, done, (ended (by decide)).2⟩

end PicoOS.Shell
