import Mathlib
import PicoOS.Lib.Decimal
import PicoOS.Lib.Lines

/-!
# Reading config.txt

Three readers go through the same text, each for keys of its own: `parse_config` of
`cray-one`, `parse_btn_config` and `shell_autorun_init` of the shell. What they find
is said over the lines of the text.
-/
namespace PicoOS.Apps

open CString Decimal Lines Runs

/-! ### The readers -/

/-- `a - b` of type `size_t`. -/
def sizeSub (a b : Nat) : Nat := (a + 2 ^ 32 - b) % 2 ^ 32

/-- A value of a line at `p` is copied into its buffer, as far as there is room for it and its NUL. -/
def copyValue (buf : List UInt8) (p klen lineLen : Nat) (dst : List UInt8) :
    Option (List UInt8) := do
  let vlen := sizeSub lineLen klen
  let vlen := if dst.length ≤ vlen then sizeSub dst.length 1 else vlen
  let value ← load buf (p + klen) vlen
  let dst ← store dst 0 value
  store dst vlen [0]

/-- `for (size_t i = klen; i < line_len && p[i] >= '0' && p[i] <= '9'; i++)`. The wrapped sum stands for
the overflow of a signed `int`, which C leaves undefined: from `2 ^ 31` on the result is one of many. -/
def numberLoop (buf : List UInt8) (p lineLen : Nat) : Nat → Nat → Int → Option Int
  | 0, _, _ => none
  | fuel + 1, i, v =>
    if i < lineLen then do
      let c ← buf[p + i]?
      if isDigit c then numberLoop buf p lineLen fuel (i + 1) (int32 (v * 10 + digit c)) else some v
    else some v

/-- What `parse_config` fills: four buffers and two numbers. -/
structure Config where
  ssid : List UInt8
  password : List UInt8
  ssidAlt : List UInt8
  passAlt : List UInt8
  nodeid : Int
  maxnodes : Int

/-- A line of `parse_config`. -/
def configLine (buf : List UInt8) (p lineLen : Nat) (c : Config) : Option Config := do
  if ← hasPrefix buf p (text "SSIDALT=") then
    return { c with ssidAlt := ← copyValue buf p 8 lineLen c.ssidAlt }
  else if ← hasPrefix buf p (text "SSID=") then
    return { c with ssid := ← copyValue buf p 5 lineLen c.ssid }
  else if ← hasPrefix buf p (text "PASSWORDALT=") then
    return { c with passAlt := ← copyValue buf p 12 lineLen c.passAlt }
  else if ← hasPrefix buf p (text "PASSWORD=") then
    return { c with password := ← copyValue buf p 9 lineLen c.password }
  else if ← hasPrefix buf p (text "NODEID=") then
    return { c with nodeid := ← numberLoop buf p lineLen (lineLen + 1) 7 0 }
  else if ← hasPrefix buf p (text "MAXNODES=") then
    return { c with maxnodes := ← numberLoop buf p lineLen (lineLen + 1) 9 0 }
  else return c

/-- `parse_config`. -/
def parseConfig (buf : List UInt8) (c : Config) : Option Config :=
  eachLine buf (fun p n c => (configLine buf p n c).map (·, false)) (buf.length + 1) 0 c

/-- `btn_binding_t`. -/
structure Binding where
  mask : UInt8
  appname : List UInt8

/-- `btn_bindings` and `btn_binding_count`. -/
structure Bindings where
  slots : List Binding
  count : Nat

/-- An entry of the key table of `parse_btn_config`. -/
structure ButtonKey where
  key : List UInt8
  klen : Nat
  mask : UInt8

def dispBtnA : UInt8 := 0x01
def dispBtnB : UInt8 := 0x02
def dispBtnX : UInt8 := 0x04
def dispBtnY : UInt8 := 0x08

def buttonMap : List ButtonKey :=
  [⟨text "BUTTONA=", 8, dispBtnA⟩, ⟨text "BUTTONB=", 8, dispBtnB⟩,
    ⟨text "BUTTONX=", 8, dispBtnX⟩, ⟨text "BUTTONY=", 8, dispBtnY⟩]

/-- The loop of `parse_btn_config` over the key table. -/
def buttonLine (buf : List UInt8) (p lineLen : Nat) (b : Bindings) :
    List ButtonKey → Option Bindings
  | [] => some b
  | k :: map =>
    if b.count < 4 then
      if lineLen ≤ k.klen then buttonLine buf p lineLen b map
      else do
        if ← hasPrefix buf p k.key then
          let slot ← b.slots[b.count]?
          let appname ← copyValue buf p k.klen lineLen slot.appname
          return ⟨b.slots.set b.count ⟨k.mask, appname⟩, b.count + 1⟩
        else buttonLine buf p lineLen b map
    else some b

/-- `parse_btn_config`. -/
def parseBtnConfig (buf : List UInt8) (b : Bindings) : Option Bindings :=
  eachLine buf (fun p n b => (buttonLine buf p n b buttonMap).map (·, false)) (buf.length + 1) 0 b

/-- A line of `shell_autorun_init`, which the loop is left at once it has found a name. -/
def autorunLine (buf : List UInt8) (p lineLen : Nat) (appname : List UInt8) :
    Option (List UInt8 × Bool) := do
  if 8 < lineLen then
    if ← hasPrefix buf p (text "AUTORUN=") then
      return (← copyValue buf p 8 lineLen appname, true)
    else return (appname, false)
  else return (appname, false)

/-- The scan of `shell_autorun_init` for the name of an app. -/
def autorunScan (buf appname : List UInt8) : Option (List UInt8) :=
  eachLine buf (autorunLine buf) (buf.length + 1) 0 appname

/-! ### The lines -/

/-- The values of a key, in order. -/
def valuesOf (key : List UInt8) (lines : List (List UInt8)) : List (List UInt8) :=
  (lines.filter key.isPrefixOf).map (·.drop key.length)

/-- The number that a value starts with. C defines it for numerals below `2 ^ 31` only, of which `int32`
is the number itself. -/
def number (v : List UInt8) : Int := int32 (value (v.takeWhile isDigit))

/-- The binding that a line asks for. -/
def buttonOf (line : List UInt8) : Option (UInt8 × List UInt8) :=
  (buttonMap.find? fun k => k.key.length < line.length && k.key.isPrefixOf line).map fun k =>
    (k.mask, line.drop k.key.length)

/-- A line that names an app to run. -/
def namesApp (line : List UInt8) : Bool :=
  (text "AUTORUN=").length < line.length && (text "AUTORUN=").isPrefixOf line

/-- The keys of all readers. -/
def keys : List (List UInt8) :=
  [text "SSID=", text "PASSWORD=", text "SSIDALT=", text "PASSWORDALT=", text "NODEID=",
    text "MAXNODES=", text "AUTORUN=", text "BUTTONA=", text "BUTTONB=", text "BUTTONX=",
    text "BUTTONY="]

/-- No line starts with two keys. -/
theorem key_unique {a b line : List UInt8} (first : a ∈ keys) (second : b ∈ keys)
    (starts_a : a.isPrefixOf line = true) (starts_b : b.isPrefixOf line = true) : a = b := by
  have apart : ∀ a ∈ keys, ∀ b ∈ keys, a.isPrefixOf b = true → a = b := by decide +kernel
  rw [List.isPrefixOf_iff_prefix] at starts_a starts_b
  rcases List.prefix_or_prefix_of_prefix starts_a starts_b with shorter | shorter
  · exact apart a first b second (List.isPrefixOf_iff_prefix.mpr shorter)
  · exact (apart b second a first (List.isPrefixOf_iff_prefix.mpr shorter)).symm

/-! ### A value and its buffer -/

section

variable {buf pre line dst v : List UInt8} {n klen : Nat}

theorem sizeSub_eq {a b : Nat} (le : b ≤ a) (small : a < 2 ^ 32) : sizeSub a b = a - b := by
  rw [sizeSub]
  omega

/-- A buffer with a value in it, and what the value has left of what was there. -/
def put (dst v : List UInt8) : List UInt8 :=
  v.take (dst.length - 1) ++ 0 :: dst.drop ((v.take (dst.length - 1)).length + 1)

theorem length_put (some_room : 0 < dst.length) : (put dst v).length = dst.length := by
  simp only [put, List.length_append, List.length_cons, List.length_drop, List.length_take]
  omega

theorem strAt_put (dst : List UInt8) (nul : 0 ∉ v) :
    strAt (put dst v) 0 = some (v.take (dst.length - 1)) :=
  strAt_append [] _ fun member => nul (List.mem_of_mem_take member)

/-- A value behind its key is copied. -/
theorem copyValue_put (stands : Stands buf n pre line) (small : n < 2 ^ 32)
    (keyed : klen ≤ line.length) (some_room : 0 < dst.length) (sized : dst.length < 2 ^ 32) :
    copyValue buf pre.length klen line.length dst = some (put dst (line.drop klen)) := by
  obtain ⟨c, post, rfl, -⟩ := stands.ends
  have short := stands.short
  generalize value : (line.drop klen).take (dst.length - 1) = w
  have length_w : w.length = min (dst.length - 1) (line.length - klen) := by
    rw [← value, List.length_take, List.length_drop]
  have vlen : (if dst.length ≤ line.length - klen then dst.length - 1 else line.length - klen) =
      w.length := by
    rw [length_w]
    split <;> omega
  obtain ⟨t, whole⟩ : ∃ t, line = line.take klen ++ w ++ t := by
    refine ⟨(line.drop klen).drop (dst.length - 1), ?_⟩
    rw [← value, List.append_assoc, List.take_append_drop, List.take_append_drop]
  have place : pre.length + klen = (pre ++ line.take klen).length := by
    rw [List.length_append, List.length_take, Nat.min_eq_left keyed]
  have bytes : pre ++ line ++ c :: post = (pre ++ line.take klen) ++ w ++ (t ++ c :: post) := by
    conv_lhs => rw [whole]
    simp
  have loaded : load (pre ++ line ++ c :: post) (pre.length + klen) w.length = some w := by
    rw [bytes, place]
    exact load_append ..
  -- The buffer is overwritten from its start on, and then once more behind the value.
  obtain ⟨old, b, rest, dst_eq, same⟩ : ∃ old b rest, dst = old ++ b :: rest ∧
      w.length = old.length := by
    have inside : w.length < dst.length := by omega
    refine ⟨dst.take w.length, dst.get ⟨w.length, inside⟩, dst.drop (w.length + 1), ?_, ?_⟩
    · rw [List.get_eq_getElem, List.getElem_cons_drop, List.take_append_drop]
    · rw [List.length_take, Nat.min_eq_left inside.le]
  have stored : store dst 0 w = some (w ++ b :: rest) := by
    rw [dst_eq]
    exact store_append [] (b :: rest) same
  have ended : store (w ++ b :: rest) w.length [0] = some (w ++ 0 :: rest) := by
    have one : [(0 : UInt8)].length = [b].length := rfl
    have stored := store_append w rest one
    simpa only [List.append_assoc, List.singleton_append] using stored
  have left : dst.drop (w.length + 1) = rest := by
    rw [dst_eq, same, ← List.length_singleton (a := b), ← List.length_append]
    simp
  rw [copyValue]
  simp only [sizeSub_eq keyed (by omega), sizeSub_eq some_room sized, vlen, loaded,
    Option.bind_eq_bind, Option.bind_some, stored, ended]
  rw [put, value, left]

theorem numberLoop_eq (shape : ∃ post, buf = pre ++ line ++ post) {fuel i : Nat} {v : Int}
    (enough : line.length - i < fuel) :
    numberLoop buf pre.length line.length fuel i v =
      some (accumulate v ((line.drop i).takeWhile isDigit)) := by
  obtain ⟨post, rfl⟩ := shape
  induction fuel generalizing i v with
  | zero => omega
  | succ fuel ih =>
    rw [numberLoop]
    by_cases inside : i < line.length
    · have here : (pre ++ line ++ post)[pre.length + i]? = some (line.get ⟨i, inside⟩) := by
        rw [List.append_assoc, List.getElem?_append_right (Nat.le_add_right ..),
          Nat.add_sub_cancel_left, List.getElem?_append_left inside, List.getElem?_eq_getElem inside]
        rfl
      have split : line.drop i = line.get ⟨i, inside⟩ :: line.drop (i + 1) :=
        List.drop_eq_getElem_cons inside
      rw [if_pos inside, here, split]
      simp only [Option.bind_eq_bind, Option.bind_some]
      by_cases more : isDigit (line.get ⟨i, inside⟩) = true
      · rw [if_pos more, ih (by omega), List.takeWhile_cons_of_pos more]
        rfl
      · rw [if_neg more, List.takeWhile_cons_of_neg more]
        rfl
    · rw [if_neg inside, List.drop_eq_nil_of_le (by omega)]
      rfl

/-- The number behind a key is read. -/
theorem numberLoop_number (stands : Stands buf n pre line) (klen : Nat) :
    numberLoop buf pre.length line.length (line.length + 1) klen 0 =
      some (number (line.drop klen)) := by
  obtain ⟨c, post, shape, -⟩ := stands.ends
  rw [numberLoop_eq ⟨_, shape⟩ (by omega), accumulate_value, number]

/-- A key is looked for at the start of a line. -/
theorem hasPrefix_line (stands : Stands buf n pre line) {key : List UInt8} (member : key ∈ keys) :
    hasPrefix buf pre.length key = some (key.isPrefixOf line) := by
  have plain : ∀ key ∈ keys, ∀ c ∈ key, c ≠ 0 ∧ isEol c = false := by decide +kernel
  obtain ⟨c, post, rfl, ends⟩ := stands.ends
  refine hasPrefix_append pre fun inside => ?_
  obtain ⟨nonzero, inner⟩ := plain key member c inside
  rcases ends with rfl | eol
  · exact nonzero rfl
  · rw [eol] at inner
    cases inner

end

/-! ### parse_config -/

/-- Buffers that a value fits into, if only its NUL. -/
structure Sized (c : Config) : Prop where
  ssid : 0 < c.ssid.length ∧ c.ssid.length < 2 ^ 32
  password : 0 < c.password.length ∧ c.password.length < 2 ^ 32
  ssidAlt : 0 < c.ssidAlt.length ∧ c.ssidAlt.length < 2 ^ 32
  passAlt : 0 < c.passAlt.length ∧ c.passAlt.length < 2 ^ 32

/-- A line sets what it starts with the key of. -/
def setKey {τ : Type} (set : τ → List UInt8 → τ) (key line : List UInt8) (t : τ) : τ :=
  if key.isPrefixOf line then set t (line.drop key.length) else t

/-- What a line does. -/
def configStep (line : List UInt8) (c : Config) : Config where
  ssid := setKey put (text "SSID=") line c.ssid
  password := setKey put (text "PASSWORD=") line c.password
  ssidAlt := setKey put (text "SSIDALT=") line c.ssidAlt
  passAlt := setKey put (text "PASSWORDALT=") line c.passAlt
  nodeid := setKey (fun _ => number) (text "NODEID=") line c.nodeid
  maxnodes := setKey (fun _ => number) (text "MAXNODES=") line c.maxnodes

/-- The key that a line starts with tells what all comparisons with it give. -/
theorem comparisons {i : Nat} {key line : List UInt8} (member : keys[i]? = some key)
    (own : key.isPrefixOf line = true) :
    keys.map (·.isPrefixOf line) = (List.replicate 11 false).set i true := by
  have inside : key ∈ keys := List.mem_of_getElem? member
  have places : ∀ i key, keys[i]? = some key →
      keys.map (· == key) = (List.replicate 11 false).set i true := by
    have all : ∀ i : Fin 11, keys.map (· == keys.get i) = (List.replicate 11 false).set i true := by
      decide +kernel
    intro i key found
    obtain ⟨bound, rfl⟩ := List.getElem?_eq_some_iff.mp found
    exact all ⟨i, bound⟩
  rw [← places i key member]
  refine List.map_congr_left fun k other => Bool.eq_iff_iff.mpr ?_
  rw [beq_iff_eq]
  exact ⟨fun starts => key_unique other inside starts own, fun same => same ▸ own⟩

theorem lengths : keys.map List.length = [5, 9, 8, 12, 7, 9, 8, 8, 8, 8, 8] := by decide +kernel

theorem length_setKey {key line dst : List UInt8} (some_room : 0 < dst.length) :
    (setKey put key line dst).length = dst.length := by
  rw [setKey]
  split
  · exact length_put some_room
  · rfl

theorem Sized.step {c : Config} (sized : Sized c) (line : List UInt8) :
    Sized (configStep line c) where
  ssid := by
    rw [configStep, length_setKey sized.ssid.1]
    exact sized.ssid
  password := by
    rw [configStep, length_setKey sized.password.1]
    exact sized.password
  ssidAlt := by
    rw [configStep, length_setKey sized.ssidAlt.1]
    exact sized.ssidAlt
  passAlt := by
    rw [configStep, length_setKey sized.passAlt.1]
    exact sized.passAlt

/-- The comparisons come in an order, but at most one of them succeeds. -/
theorem configLine_step {buf pre line : List UInt8} {n : Nat} (stands : Stands buf n pre line)
    (small : n < 2 ^ 32) {c : Config} (sized : Sized c) :
    configLine buf pre.length line.length c = some (configStep line c) := by
  have compared (key : List UInt8) (member : key ∈ keys) := hasPrefix_line stands member
  have copied {key dst : List UInt8} (own : key.isPrefixOf line = true)
      (sized : 0 < dst.length ∧ dst.length < 2 ^ 32) :=
    copyValue_put stands small (List.isPrefixOf_iff_prefix.mp own).length_le sized.1 sized.2
  have len := lengths
  simp only [keys, List.map_cons, List.map_nil, List.cons.injEq] at len
  rw [configLine, compared (text "SSIDALT=") (by decide +kernel),
    compared (text "SSID=") (by decide +kernel), compared (text "PASSWORDALT=") (by decide +kernel),
    compared (text "PASSWORD=") (by decide +kernel), compared (text "NODEID=") (by decide +kernel),
    compared (text "MAXNODES=") (by decide +kernel)]
  simp only [Option.bind_eq_bind, Option.bind_some]
  split_ifs with ssidAlt ssid passAlt password nodeid maxnodes
  · have only := comparisons (i := 2) rfl ssidAlt
    have put := copied ssidAlt sized.ssidAlt
    simp_all [keys, configStep, setKey, List.replicate]
  · have only := comparisons (i := 0) rfl ssid
    have put := copied ssid sized.ssid
    simp_all [keys, configStep, setKey, List.replicate]
  · have only := comparisons (i := 3) rfl passAlt
    have put := copied passAlt sized.passAlt
    simp_all [keys, configStep, setKey, List.replicate]
  · have only := comparisons (i := 1) rfl password
    have put := copied password sized.password
    simp_all [keys, configStep, setKey, List.replicate]
  · have only := comparisons (i := 4) rfl nodeid
    have read := numberLoop_number stands 7
    simp_all [keys, configStep, setKey, List.replicate]
  · have only := comparisons (i := 5) rfl maxnodes
    have read := numberLoop_number stands 9
    simp_all [keys, configStep, setKey, List.replicate]
  · simp_all [configStep, setKey]

theorem configStep_blank (c : Config) : configStep [] c = c := by
  have none : ∀ key ∈ keys, key.isPrefixOf ([] : List UInt8) = false := by decide +kernel
  simp only [keys, List.forall_mem_cons] at none
  simp [configStep, setKey, none]

/-- `parse_config` does with each line what the line says. -/
theorem parseConfig_eq {config rest : List UInt8} (nul : 0 ∉ config)
    (small : config.length < 2 ^ 32) {c : Config} (sized : Sized c) :
    parseConfig (config ++ 0 :: rest) c =
      some ((runs isEol config).foldl (fun c line => configStep line c) c) := by
  have reads (pre line : List UInt8) (c : Config)
      (stands : Stands (config ++ 0 :: rest) config.length pre line) (sized : Sized c) :
      (configLine (config ++ 0 :: rest) pre.length line.length c).map (·, false) =
        some (configStep line c, false) := by
    rw [configLine_step stands small sized]
    rfl
  have read := eachLine_text Sized (fun line c => (configStep line c, false))
    (fun p n c => (configLine (config ++ 0 :: rest) p n c).map (·, false)) rest reads
    (fun line c sized => sized.step line) (fun c => by rw [configStep_blank]) nul sized
  rw [stepLines_all fun _ _ => rfl] at read
  exact read

/-- A buffer after the text is read: the value of a key in it, as far as there is room, or what has
been there. -/
structure Stored (dst : List UInt8) (value : Option (List UInt8)) (dst' : List UInt8) : Prop where
  length : dst'.length = dst.length
  kept : value = none → dst' = dst
  string : ∀ v, value = some v → strAt dst' 0 = some (v.take (dst.length - 1))

/-- The last value stays. -/
theorem foldl_put {dst : List UInt8} (some_room : 0 < dst.length) {vs : List (List UInt8)}
    (nul : ∀ v ∈ vs, 0 ∉ v) : Stored dst vs.getLast? (vs.foldl put dst) := by
  induction vs using List.reverseRecOn with
  | nil => exact ⟨rfl, fun _ => rfl, fun v last => by cases last⟩
  | append_singleton vs v ih =>
    rw [List.forall_mem_append, List.forall_mem_singleton] at nul
    have before := (ih nul.1).length
    rw [List.foldl_append, List.foldl_cons, List.foldl_nil, List.getLast?_concat]
    refine ⟨?_, fun none => ?_, fun w last => ?_⟩
    · rw [length_put (before ▸ some_room), before]
    · cases none
    · cases last
      rw [strAt_put _ nul.2, before]

theorem foldl_last {α β : Type} (f : α → β) (b : β) (as : List α) :
    as.foldl (fun _ => f) b = (as.getLast?.map f).getD b := by
  induction as using List.reverseRecOn with
  | nil => rfl
  | append_singleton as a _ => simp

/-- A field that only the lines of a key set. -/
theorem foldl_field {τ : Type} (get : Config → τ) (set : τ → List UInt8 → τ) (key : List UInt8)
    (field : ∀ line c, get (configStep line c) = setKey set key line (get c))
    (lines : List (List UInt8)) (c : Config) :
    get (lines.foldl (fun c line => configStep line c) c) =
      (valuesOf key lines).foldl set (get c) := by
  induction lines generalizing c with
  | nil => rfl
  | cons line lines ih =>
    rw [List.foldl_cons, ih, field, setKey, valuesOf, valuesOf]
    by_cases own : key.isPrefixOf line = true
    · rw [if_pos own, List.filter_cons_of_pos own, List.map_cons, List.foldl_cons]
    · rw [if_neg own, List.filter_cons_of_neg own]

theorem values_nul {key config : List UInt8} (nul : 0 ∉ config) :
    ∀ v ∈ valuesOf key (runs isEol config), 0 ∉ v := by
  intro v member zero
  obtain ⟨line, of_text, rfl⟩ := List.mem_map.mp member
  exact nul (mem_of_mem_runs (List.mem_filter.mp of_text).1 (List.mem_of_mem_drop zero))

/-! ### parse_btn_config -/

/-- The bindings while the text is read. -/
structure Slots (b : Bindings) : Prop where
  slots : b.slots.length = 4
  names : ∀ slot ∈ b.slots, slot.appname.length = 16
  count : b.count ≤ 4

/-- What a line does. -/
def buttonStep (line : List UInt8) (b : Bindings) : Bindings :=
  if b.count < 4 then
    match buttonOf line with
    | none => b
    | some (mask, v) =>
      ⟨b.slots.modify b.count fun slot => ⟨mask, put slot.appname v⟩, b.count + 1⟩
  else b

theorem Slots.step {b : Bindings} (slots : Slots b) (line : List UInt8) :
    Slots (buttonStep line b) := by
  rw [buttonStep]
  split
  · next more =>
    split
    · exact slots
    · next mask v _ =>
      refine ⟨by rw [List.length_modify]; exact slots.slots, fun slot member => ?_, more⟩
      obtain ⟨i, found⟩ := List.mem_iff_getElem?.mp member
      rw [List.getElem?_modify] at found
      obtain ⟨old, held, rfl⟩ := Option.map_eq_some_iff.mp found
      have sized := slots.names old (List.mem_of_getElem? held)
      split
      · rw [length_put (by omega), sized]
      · exact sized
  · exact slots

theorem buttonLine_eq {buf pre line : List UInt8} {n : Nat} (stands : Stands buf n pre line)
    (small : n < 2 ^ 32) {b : Bindings} (slots : Slots b) (map : List ButtonKey)
    (known : ∀ k ∈ map, k.key ∈ keys ∧ k.klen = k.key.length) :
    buttonLine buf pre.length line.length b map =
      some (if b.count < 4 then
        ((map.find? fun k => k.key.length < line.length && k.key.isPrefixOf line).map fun k =>
          (⟨b.slots.modify b.count fun slot => ⟨k.mask, put slot.appname (line.drop k.key.length)⟩,
            b.count + 1⟩ : Bindings)).getD b
        else b) := by
  induction map with
  | nil => simp [buttonLine]
  | cons k map ih =>
    rw [List.forall_mem_cons] at known
    obtain ⟨⟨member, klen⟩, others⟩ := known
    rw [buttonLine]
    by_cases more : b.count < 4
    · rw [if_pos more] at ih ⊢
      rw [klen, hasPrefix_line stands member]
      by_cases short : line.length ≤ k.key.length
      · rw [if_pos short, ih others, if_pos more, List.find?_cons_of_neg (by simp [short])]
      · by_cases own : k.key.isPrefixOf line = true
        · obtain ⟨slot, held⟩ : ∃ slot, b.slots[b.count]? = some slot := by
            rw [← Option.isSome_iff_exists, List.getElem?_eq_getElem (by rw [slots.slots]; exact more)]
            rfl
          have sized := slots.names slot (List.mem_of_getElem? held)
          have room : 0 < slot.appname.length := by omega
          have copied := copyValue_put stands small (Nat.le_of_not_le short) room (by omega)
          rw [if_neg short, if_pos more, List.find?_cons_of_pos (by simp [own, Nat.lt_of_not_le short])]
          simp [own, held, copied, List.modify_eq_set_getElem?]
        · rw [if_neg short, if_pos more, List.find?_cons_of_neg (by simp [own])]
          simpa [own, more] using ih others
    · simp [more]

theorem parseBtnConfig_eq {config : List UInt8} (rest : List UInt8) (nul : 0 ∉ config)
    (small : config.length < 2 ^ 32) {b : Bindings} (slots : Slots b) :
    parseBtnConfig (config ++ 0 :: rest) b =
      some ((runs isEol config).foldl (fun b line => buttonStep line b) b) := by
  have known : ∀ k ∈ buttonMap, k.key ∈ keys ∧ k.klen = k.key.length := by decide +kernel
  have reads (pre line : List UInt8) (b : Bindings)
      (stands : Stands (config ++ 0 :: rest) config.length pre line) (slots : Slots b) :
      (buttonLine (config ++ 0 :: rest) pre.length line.length b buttonMap).map (·, false) =
        some (buttonStep line b, false) := by
    rw [buttonLine_eq stands small slots buttonMap known, buttonStep, buttonOf]
    cases buttonMap.find? fun k => k.key.length < line.length && k.key.isPrefixOf line with
    | none => rfl
    | some k => rfl
  have blank (b : Bindings) : (buttonStep [] b, false) = (b, false) := by
    have none : buttonOf [] = none := by decide +kernel
    rw [buttonStep, none, ite_self]
  have read := eachLine_text Slots (fun line b => (buttonStep line b, false))
    (fun p n b => (buttonLine (config ++ 0 :: rest) p n b buttonMap).map (·, false)) rest reads
    (fun line b slots => slots.step line) blank nul slots
  rw [stepLines_all fun _ _ => rfl] at read
  exact read

/-- A binding in use, with its name as a string. -/
def Binding.shown (slot : Binding) : UInt8 × Option (List UInt8) :=
  (slot.mask, strAt slot.appname 0)

def Bindings.shown (b : Bindings) : List (UInt8 × Option (List UInt8)) :=
  (b.slots.take b.count).map Binding.shown

/-- A binding as it is kept: its name cut off to fit. -/
def kept (binding : UInt8 × List UInt8) : UInt8 × Option (List UInt8) :=
  (binding.1, some (binding.2.take 15))

theorem Slots.length_shown {b : Bindings} (slots : Slots b) : b.shown.length = b.count := by
  rw [Bindings.shown, List.length_map, List.length_take, slots.slots, Nat.min_eq_left slots.count]

/-- A line adds its binding, while there is room. -/
theorem shown_step {b : Bindings} (slots : Slots b) {line : List UInt8} (nul : 0 ∉ line) :
    (buttonStep line b).shown = (b.shown ++ (buttonOf line).toList.map kept).take 4 := by
  have length := slots.length_shown
  have atMost := slots.count
  rw [buttonStep]
  by_cases more : b.count < 4
  · rw [if_pos more]
    cases found : buttonOf line with
    | none =>
      rw [Option.toList_none, List.map_nil, List.append_nil, List.take_of_length_le (by omega)]
    | some binding =>
      obtain ⟨mask, v⟩ := binding
      have clean : 0 ∉ v := by
        obtain ⟨k, -, same⟩ := Option.map_eq_some_iff.mp found
        cases same
        exact fun member => nul (List.mem_of_mem_drop member)
      have inside : b.count < b.slots.length := by
        rw [slots.slots]
        exact more
      have sized := slots.names _ (List.getElem_mem inside)
      have string := strAt_put b.slots[b.count].appname clean
      rw [sized] at string
      have unused : (b.slots.take b.count).length ≤ b.count := List.length_take_le ..
      rw [Option.toList_some, List.map_singleton, List.take_of_length_le (by
        rw [List.length_append, length, List.length_singleton]
        exact more), Bindings.shown, List.take_add_one, List.take_modify,
        List.modify_eq_self unused, List.getElem?_modify_eq, List.getElem?_eq_getElem inside,
        Option.map_eq_map, Option.map_some, Option.toList_some, List.map_append, List.map_singleton, Binding.shown,
        string]
      rfl
  · have full : b.shown.length = 4 := by omega
    rw [if_neg more, ← full, List.take_left]

theorem take_append_take {α : Type} (n : Nat) (l r : List α) :
    (l.take n ++ r).take n = (l ++ r).take n := by
  have left : n - (l.take n).length = n - l.length := by
    rw [List.length_take]
    omega
  rw [List.take_append, List.take_append, List.take_take, Nat.min_self, left]

/-- The first four bindings of the text are kept. -/
theorem shown_fold {b : Bindings} (slots : Slots b) {lines : List (List UInt8)}
    (nul : ∀ line ∈ lines, 0 ∉ line) :
    Slots (lines.foldl (fun b line => buttonStep line b) b) ∧
      (lines.foldl (fun b line => buttonStep line b) b).shown =
        (b.shown ++ (lines.filterMap buttonOf).map kept).take 4 := by
  induction lines generalizing b with
  | nil =>
    have length := slots.length_shown
    have atMost := slots.count
    refine ⟨slots, ?_⟩
    rw [List.foldl_nil, List.filterMap_nil, List.map_nil, List.append_nil,
      List.take_of_length_le (by omega)]
  | cons line lines ih =>
    rw [List.forall_mem_cons] at nul
    obtain ⟨inv, shown⟩ := ih (slots.step line) nul.2
    refine ⟨inv, ?_⟩
    have first : (line :: lines).filterMap buttonOf =
        (buttonOf line).toList ++ lines.filterMap buttonOf := by
      rw [List.filterMap_cons]
      cases buttonOf line with
      | none => rfl
      | some binding => rfl
    rw [List.foldl_cons, shown, shown_step slots nul.1, take_append_take, first, List.map_append,
      List.append_assoc]

/-! ### shell_autorun_init -/

/-- What a line does. -/
def autorunStep (line appname : List UInt8) : List UInt8 × Bool :=
  if namesApp line then (put appname (line.drop (text "AUTORUN=").length), true)
  else (appname, false)

theorem autorunScan_eq {config : List UInt8} (rest : List UInt8) (nul : 0 ∉ config)
    (small : config.length < 2 ^ 32) {appname : List UInt8} (sized : appname.length = 32) :
    autorunScan (config ++ 0 :: rest) appname =
      some (stepLines autorunStep (runs isEol config) appname) := by
  have eight : (text "AUTORUN=").length = 8 := by decide +kernel
  have reads (pre line appname : List UInt8)
      (stands : Stands (config ++ 0 :: rest) config.length pre line)
      (sized : appname.length = 32) :
      autorunLine (config ++ 0 :: rest) pre.length line.length appname =
        some (autorunStep line appname) := by
    rw [autorunLine, autorunStep, namesApp, hasPrefix_line stands (by decide +kernel), eight]
    by_cases more : 8 < line.length
    · have room : 0 < appname.length := by omega
      have copied := copyValue_put stands small more.le room (by omega)
      simp only [more, if_true, Option.bind_eq_bind, Option.bind_some, copied, decide_true,
        Bool.true_and]
      split <;> rfl
    · simp [more]
  have keeps (line appname : List UInt8) (sized : appname.length = 32) :
      (autorunStep line appname).1.length = 32 := by
    rw [autorunStep]
    split
    · rw [length_put (by omega), sized]
    · exact sized
  have blank (appname : List UInt8) : autorunStep [] appname = (appname, false) := by
    have none : namesApp [] = false := by decide +kernel
    rw [autorunStep, none]
    rfl
  exact eachLine_text (·.length = 32) autorunStep (autorunLine (config ++ 0 :: rest)) rest reads
    keeps blank nul sized

/-- The first line that names an app is the last one looked at. -/
theorem autorun_first (lines : List (List UInt8)) (appname : List UInt8) :
    stepLines autorunStep lines appname =
      ((lines.find? namesApp).map fun line =>
        put appname (line.drop (text "AUTORUN=").length)).getD appname := by
  induction lines with
  | nil => rfl
  | cons line lines ih =>
    rw [stepLines, autorunStep]
    by_cases names : namesApp line = true
    · rw [List.find?_cons_of_pos names, if_pos names]
      rfl
    · rw [List.find?_cons_of_neg names, if_neg names, if_neg Bool.false_ne_true, ih]

/-! ### The readers agree -/

/-- What `parse_config` makes of the lines: the last value of each key. -/
structure Configured (lines : List (List UInt8)) (c c' : Config) : Prop where
  ssid : Stored c.ssid (valuesOf (text "SSID=") lines).getLast? c'.ssid
  password : Stored c.password (valuesOf (text "PASSWORD=") lines).getLast? c'.password
  ssidAlt : Stored c.ssidAlt (valuesOf (text "SSIDALT=") lines).getLast? c'.ssidAlt
  passAlt : Stored c.passAlt (valuesOf (text "PASSWORDALT=") lines).getLast? c'.passAlt
  nodeid : c'.nodeid = ((valuesOf (text "NODEID=") lines).getLast?.map number).getD c.nodeid
  maxnodes : c'.maxnodes = ((valuesOf (text "MAXNODES=") lines).getLast?.map number).getD c.maxnodes

theorem configured {config : List UInt8} (nul : 0 ∉ config) {c : Config} (sized : Sized c) :
    Configured (runs isEol config) c
      ((runs isEol config).foldl (fun c line => configStep line c) c) where
  ssid := by
    rw [foldl_field Config.ssid put (text "SSID=") fun _ _ => rfl]
    exact foldl_put sized.ssid.1 (values_nul nul)
  password := by
    rw [foldl_field Config.password put (text "PASSWORD=") fun _ _ => rfl]
    exact foldl_put sized.password.1 (values_nul nul)
  ssidAlt := by
    rw [foldl_field Config.ssidAlt put (text "SSIDALT=") fun _ _ => rfl]
    exact foldl_put sized.ssidAlt.1 (values_nul nul)
  passAlt := by
    rw [foldl_field Config.passAlt put (text "PASSWORDALT=") fun _ _ => rfl]
    exact foldl_put sized.passAlt.1 (values_nul nul)
  nodeid := by
    rw [foldl_field Config.nodeid (fun _ => number) (text "NODEID=") fun _ _ => rfl]
    exact foldl_last ..
  maxnodes := by
    rw [foldl_field Config.maxnodes (fun _ => number) (text "MAXNODES=") fun _ _ => rfl]
    exact foldl_last ..

/-- What the readers make of a text that a NUL ends. Each of them ends, and reads nothing behind the
NUL: there may be no more bytes than that. -/
structure ReadersExact (config rest : List UInt8) : Prop where
  parse_config : ∀ c, Sized c → ∃ c', parseConfig (config ++ 0 :: rest) c = some c' ∧
    Configured (runs isEol config) c c'
  parse_btn_config : ∀ slots : List Binding, slots.length = 4 →
    (∀ slot ∈ slots, slot.appname.length = 16) →
    ∃ b, parseBtnConfig (config ++ 0 :: rest) ⟨slots, 0⟩ = some b ∧
      b.shown = (((runs isEol config).filterMap buttonOf).take 4).map kept
  autorun : ∀ appname, appname.length = 32 → appname.head? = some 0 →
    ∃ appname', autorunScan (config ++ 0 :: rest) appname = some appname' ∧
      strAt appname' 0 = some ((((runs isEol config).find? namesApp).map fun line =>
        (line.drop (text "AUTORUN=").length).take 31).getD [])
  keys_apart : ∀ a ∈ keys, ∀ b ∈ keys, ∀ line, a.isPrefixOf line = true →
    b.isPrefixOf line = true → a = b

/-- The readers extract their values from the lines of a text of at most 255 bytes, whatever ends the
lines: `parse_config` the last one of each key, `parse_btn_config` the first four,
`shell_autorun_init` the first one that names an app. No line belongs to two keys. -/
theorem config_readers_exact (config rest : List UInt8) (nul : 0 ∉ config)
    (short : config.length ≤ 255) : ReadersExact config rest where
  parse_config c sized :=
    ⟨_, parseConfig_eq nul (by omega) sized, configured nul sized⟩
  parse_btn_config slots four names := by
    have unused : Slots ⟨slots, 0⟩ := ⟨four, names, Nat.zero_le 4⟩
    have clean : ∀ line ∈ runs isEol config, 0 ∉ line := fun line member zero =>
      nul (mem_of_mem_runs member zero)
    refine ⟨_, parseBtnConfig_eq rest nul (by omega) unused, ?_⟩
    have shown := (shown_fold unused clean).2
    have none : (⟨slots, 0⟩ : Bindings).shown = [] := rfl
    rw [shown, none, List.nil_append, List.map_take]
  autorun appname sized empty := by
    refine ⟨_, autorunScan_eq rest nul (by omega) sized, ?_⟩
    rw [autorun_first]
    cases found : (runs isEol config).find? namesApp with
    | none =>
      obtain ⟨bytes, rfl⟩ : ∃ bytes, appname = 0 :: bytes := by
        cases appname with
        | nil => cases empty
        | cons c bytes => exact ⟨bytes, by cases empty; rfl⟩
      exact strAt_append [] bytes List.not_mem_nil
    | some line =>
      have clean : 0 ∉ line.drop (text "AUTORUN=").length := fun zero =>
        nul (mem_of_mem_runs (List.mem_of_find?_eq_some found) (List.mem_of_mem_drop zero))
      have string := strAt_put appname clean
      rwa [sized] at string
  keys_apart a first b second line starts_a starts_b :=
    key_unique first second starts_a starts_b

/-- Lines with all kinds of ends, and a value at the end of the text. -/
theorem config_readers_mixed :
    ReadersExact (text "\nAUTORUN=\rSSIDALT=b\r\nSSID=a\nBUTTONX=pi\n\nNODEID=2") [] :=
  config_readers_exact _ [] (by decide +kernel) (by decide +kernel)

end PicoOS.Apps
