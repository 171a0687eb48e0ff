import Mathlib
import PicoOS.Apps.Config
import PicoOS.Kernel.Messages

/-!
# The messages of cray-one

Each node sends its number and its colours as a text, `<nodeid>:<c0>,<c1>,...`, and
queues what it gets from the others. `cray_tx_thread` prints the text piece by piece
into a buffer, `mcast_recv` of the WiFi driver makes a string of a datagram again,
and `mcast_recv_cb` reads it.
-/
namespace PicoOS.Apps

open CString Decimal PicoOS.Kernel

/-! ### The sender -/

/-- `MSG_MAX`. -/
def msgMax : Nat := 64

/-- `MAXNODES_MAX`. -/
def maxnodesMax : Nat := 16

/-- `snprintf(buf + p, size, ...)`, where `out` is what the format gives: as much of it as there is
room for, and a NUL. -/
def snprintf (buf : List UInt8) (p size : Nat) (out : List UInt8) : Option (List UInt8) :=
  if size = 0 then some buf else store buf p (out.take (size - 1) ++ [0])

/-- `%d`. -/
def printInt (n : Int) : List UInt8 :=
  if n < 0 then text "-" ++ decimal n.natAbs else decimal n.natAbs

/-- A hexadecimal digit. -/
def hexDigit (d : UInt8) : UInt8 := if d < 10 then 0x30 + d else 0x41 + (d - 10)

/-- `%02X` of a byte. -/
def hex2 (c : UInt8) : List UInt8 := [hexDigit (c >>> 4), hexDigit (c &&& 0xF)]

/-- What the loop of `cray_tx_thread` prints for colour `i`. -/
def colorText (i : Nat) (c : UInt8) : List UInt8 := if i = 0 then hex2 c else text "," ++ hex2 c

/-- The loop that prints the colours: `msg` and `pos`. -/
def encodeLoop (maxnodes : Int) (colors : List UInt8) :
    Nat → Nat → List UInt8 → Nat → Option (List UInt8 × Nat)
  | 0, _, _, _ => none
  | fuel + 1, i, msg, pos =>
    if i < maxnodes ∧ i < maxnodesMax then do
      let c ← colors[i]?
      let out := colorText i c
      let msg ← snprintf msg pos (sizeSub msgMax pos) out
      encodeLoop maxnodes colors fuel (i + 1) msg (pos + out.length)
    else some (msg, pos)

/-- How `cray_tx_thread` builds its message in `msg`: the buffer and `mlen`. -/
def encode (nodeid maxnodes : Int) (colors msg : List UInt8) : Option (List UInt8 × Nat) := do
  let out := printInt nodeid ++ text ":"
  let msg ← snprintf msg 0 msgMax out
  encodeLoop maxnodes colors (maxnodesMax + 1) 0 msg out.length

/-- The datagram that `wifi_mcast_send` sends of it. -/
def datagram (sent : List UInt8 × Nat) : Option (List UInt8) := load sent.1 0 (sent.2 % 2 ^ 16)

/-! ### The receiver -/

/-- `WIFI_MCAST_MAX_PAYLOAD`. -/
def wifiMcastMaxPayload : Nat := 128

/-- `mcast_recv` copies the payload of a datagram to `buf` and puts a NUL behind it. -/
def mcastRecv (payload buf : List UInt8) : Option (List UInt8) := do
  let len := if payload.length < wifiMcastMaxPayload then payload.length else wifiMcastMaxPayload
  let buf ← store buf 0 (payload.take len)
  store buf len [0]

/-- `rx_msg_t`. -/
structure RxMsg where
  sender : Int
  numColors : Int
  colors : List UInt8

/-- An `int` in memory. -/
def intBytes (n : Int) : List UInt8 :=
  (List.range 4).map fun i => .ofNat ((n % 2 ^ 32).toNat / 256 ^ i)

/-- An `rx_msg_t` in memory. -/
def RxMsg.bytes (m : RxMsg) : List UInt8 := intBytes m.sender ++ intBytes m.numColors ++ m.colors

/-- What `mcast_recv_cb` reads and writes of the app: `g_nodeid`, `g_maxnodes`, `g_rx_count`,
`g_net_error` and `g_rx_mq`. -/
structure CrayState where
  nodeid : Int
  maxnodes : Int
  rxCount : UInt32
  netError : Bool
  rxMq : Mqueue

/-- `mqueue_try_send`. -/
def mqueueTrySend (q : Mqueue) (msg : List UInt8) : Mqueue × Bool :=
  if mqMaxMsg ≤ q.count then (q, false) else (mqueuePut q msg, true)

/-- One digit of a colour; other characters count as a zero. -/
def hexStep (v : UInt32) (c : UInt8) : UInt32 :=
  let v := v <<< 4
  if 0x30 ≤ c ∧ c ≤ 0x39 then v ||| (c - 0x30).toUInt32
  else if 0x41 ≤ c ∧ c ≤ 0x46 then v ||| (c - 0x41 + 10).toUInt32
  else if 0x61 ≤ c ∧ c ≤ 0x66 then v ||| (c - 0x61 + 10).toUInt32
  else v

/-- The loop over the characters of a colour. -/
def hexLoop (msg : List UInt8) : Nat → Nat → UInt32 → Option (UInt32 × Nat)
  | 0, _, _ => none
  | fuel + 1, q, v => do
    let c ← msg[q]?
    if c ≠ 0 ∧ c ≠ 0x2C then hexLoop msg fuel (q + 1) (hexStep v c) else some (v, q)

/-- The loop over the colours, with those that are read already. -/
def colorsLoop (msg : List UInt8) : Nat → Nat → List UInt8 → Option (List UInt8)
  | 0, _, _ => none
  | fuel + 1, q, rxColors => do
    let c ← msg[q]?
    if c ≠ 0 ∧ rxColors.length < maxnodesMax then
      let (v, q) ← hexLoop msg (msg.length + 1) q 0
      let c ← msg[q]?
      colorsLoop msg fuel (if c = 0x2C then q + 1 else q) (rxColors ++ [v.toUInt8])
    else some rxColors

/-- `mcast_recv_cb` once it has read a sender and its colours; `m` is the message on the stack, of which
only the used colours are written. -/
def rxUpdate (s : CrayState) (sender : Int) (rxColors m : List UInt8) : CrayState :=
  if rxColors.length = 0 then { s with netError := true }
  else if sender = s.nodeid ∨ sender < 0 ∨ s.maxnodes ≤ sender then
    if sender ≠ s.nodeid then { s with netError := true } else s
  else
    let update : RxMsg := ⟨sender, rxColors.length, Memory.overlay m 0 rxColors⟩
    let sent := mqueueTrySend s.rxMq update.bytes
    { s with
      rxCount := s.rxCount + 1
      rxMq := sent.1
      netError := s.netError || !sent.2 }

/-- A character of the sender: only digits count. -/
def senderStep (v : Int) (c : UInt8) : Option Int := if isDigit c then checkedStep v c else some v

/-- `mcast_recv_cb`. There is no state after it where the sender overflows its `int`: what happens
then is undefined. -/
def mcastRecvCb (s : CrayState) (msg m : List UInt8) : Option CrayState := do
  let colon ← scan msg (fun c => c != 0 && c != 0x3A) 0
  let c ← msg[colon]?
  if c ≠ 0x3A then return { s with netError := true }
  let field ← load msg 0 colon
  let sender ← field.foldlM senderStep 0
  let rxColors ← colorsLoop msg (maxnodesMax + 1) (colon + 1) []
  return rxUpdate s sender rxColors m

/-- A datagram arrives: `mcast_recv`, with the buffer of its string, and `mcast_recv_cb`. -/
def receive (s : CrayState) (payload buf m : List UInt8) : Option CrayState := do
  mcastRecvCb s (← mcastRecv payload buf) m

/-! ### What is sent -/

/-- What the loop prints from colour `i` on. -/
def colorsText : Nat → List UInt8 → List UInt8
  | _, [] => []
  | i, c :: colors => colorText i c ++ colorsText (i + 1) colors

/-- The message of a node. -/
def wire (nodeid : Nat) (colors : List UInt8) : List UInt8 :=
  decimal nodeid ++ text ":" ++ colorsText 0 colors

theorem text_colon : text ":" = [0x3A] := by decide +kernel

theorem text_comma : text "," = [0x2C] := by decide +kernel

theorem length_colorText (i : Nat) (c : UInt8) : (colorText i c).length ≤ 3 := by
  rw [colorText]
  split
  · exact Nat.le_succ 2
  · rw [text_comma]
    exact le_refl 3

/-- With room for it, a piece is printed whole. -/
theorem snprintf_append (pre out rest : List UInt8) (fits : out.length < rest.length) :
    ∃ rest', snprintf (pre ++ rest) pre.length rest.length out = some (pre ++ out ++ rest') ∧
      out.length + rest'.length = rest.length := by
  have whole : out.take (rest.length - 1) = out := List.take_of_length_le (by omega)
  have old : (out ++ [0]).length = (rest.take (out.length + 1)).length := by
    rw [List.length_append, List.length_singleton, List.length_take]
    omega
  have stored := store_append pre (rest.drop (out.length + 1)) old
  rw [List.append_assoc pre, List.take_append_drop] at stored
  refine ⟨[0] ++ rest.drop (out.length + 1), ?_, ?_⟩
  · rw [snprintf, if_neg (by omega), whole, stored, List.append_assoc pre, List.append_assoc pre,
      List.append_assoc out]
  · rw [List.length_append, List.length_singleton, List.length_drop]
    omega

/-- The loop prints the colours that are left behind what stands in the buffer. -/
theorem encodeLoop_text {n : Nat} {colors : List UInt8} (unused : List UInt8)
    (count : colors.length = n) (atMost : n ≤ maxnodesMax) {fuel i : Nat}
    (pre rest : List UInt8) (upto : i ≤ n)
    (enough : n - i < fuel) (sized : pre.length + rest.length = msgMax)
    (fits : pre.length + 3 * (n - i) < msgMax) :
    ∃ rest', encodeLoop n (colors ++ unused) fuel i (pre ++ rest) pre.length =
      some (pre ++ colorsText i (colors.drop i) ++ rest',
        (pre ++ colorsText i (colors.drop i)).length) ∧
      (pre ++ colorsText i (colors.drop i)).length < msgMax := by
  induction fuel generalizing i pre rest with
  | zero => omega
  | succ fuel ih =>
    rw [encodeLoop]
    by_cases more : i < n
    · -- one colour is printed, and the rest of the buffer is left for the next ones
      have inside : i < colors.length := by omega
      have here : (colors ++ unused)[i]? = some colors[i] := by
        rw [List.getElem?_append_left inside, List.getElem?_eq_getElem inside]
      have size : sizeSub msgMax pre.length = rest.length := by
        rw [sizeSub_eq (by omega) (by decide)]
        omega
      have piece := length_colorText i colors[i]
      obtain ⟨rest', printed, left⟩ := snprintf_append pre (colorText i colors[i]) rest (by omega)
      obtain ⟨rest'', ran, short⟩ := ih (pre ++ colorText i colors[i]) rest' more (by omega)
        (by rw [List.length_append]; omega) (by rw [List.length_append]; omega)
      have split : colors.drop i = colors[i] :: colors.drop (i + 1) := List.drop_eq_getElem_cons inside
      rw [if_pos ⟨by omega, by omega⟩, here, split, colorsText]
      simp only [Option.bind_eq_bind, Option.bind_some, size, printed]
      rw [← List.append_assoc]
      rw [List.length_append] at ran
      exact ⟨rest'', ran, short⟩
    · obtain rfl : i = n := by omega
      rw [if_neg (fun both => more (by omega)), ← count, List.drop_length, colorsText,
        List.append_nil]
      exact ⟨rest, rfl, by omega⟩

/-- The message is built whole. -/
theorem encode_wire {n id : Nat} {colors msg : List UInt8} (unused : List UInt8)
    (count : colors.length = n) (atMost : n ≤ maxnodesMax) (below : id < n)
    (sized : msg.length = msgMax) :
    ∃ sent, encode id n (colors ++ unused) msg = some sent ∧ sent.2 < msgMax ∧
      datagram sent = some (wire id colors) := by
  have sixteen : maxnodesMax = 16 := rfl
  have sixty_four : msgMax = 64 := rfl
  have short := length_decimal (n := id) (by omega)
  have printed : printInt id = decimal id := by
    rw [printInt, if_neg (by omega), Int.natAbs_natCast]
  have out_len : (decimal id ++ text ":").length = (decimal id).length + 1 := by
    rw [text_colon, List.length_append, List.length_singleton]
  obtain ⟨rest, first, left⟩ := snprintf_append [] (decimal id ++ text ":") msg (by omega)
  rw [List.nil_append, List.nil_append, List.length_nil, sized] at first
  have enough : n - 0 < maxnodesMax + 1 := by omega
  obtain ⟨rest', ran, fits⟩ := encodeLoop_text unused count atMost (decimal id ++ text ":") rest
    (Nat.zero_le n) enough (by omega) (by omega)
  rw [List.drop_zero, ← wire] at ran fits
  refine ⟨(wire id colors ++ rest', (wire id colors).length), ?_, fits, ?_⟩
  · rw [encode, printed]
    simp only [Option.bind_eq_bind, Option.bind_some, first]
    exact ran
  · -- the length goes through a `uint16_t`
    have mlen : (wire id colors).length % 2 ^ 16 = (wire id colors).length :=
      Nat.mod_eq_of_lt (by omega)
    rw [datagram, mlen]
    exact load_append [] (wire id colors) rest'

/-! ### What is read -/

/-- The colours in a text, at most `n`: what stands between the commas. -/
def colorsOf : Nat → List UInt8 → List UInt8
  | 0, _ => []
  | n + 1, m =>
    if m = [] then []
    else ((m.takeWhile (· ≠ 0x2C)).foldl hexStep 0).toUInt8 ::
      colorsOf n ((m.dropWhile (· ≠ 0x2C)).drop 1)

theorem hexLoop_append (pre : List UInt8) {w : List UInt8} (post : List UInt8) {c : UInt8}
    (inside : ∀ b ∈ w, b ≠ 0 ∧ b ≠ 0x2C) (ends : c = 0 ∨ c = 0x2C) {fuel : Nat} (v : UInt32)
    (enough : w.length < fuel) :
    hexLoop (pre ++ w ++ c :: post) fuel pre.length v =
      some (w.foldl hexStep v, (pre ++ w).length) := by
  induction w generalizing pre fuel v with
  | nil =>
    obtain ⟨fuel, rfl⟩ := Nat.exists_eq_add_of_lt enough
    have stop : ¬ (c ≠ 0 ∧ c ≠ 0x2C) := fun inner => ends.elim inner.1 inner.2
    rw [List.append_nil, hexLoop, at_append]
    simp only [Option.bind_eq_bind, Option.bind_some, if_neg stop, List.foldl_nil]
  | cons b w ih =>
    obtain ⟨fuel, rfl⟩ : ∃ n, fuel = n + 1 := ⟨fuel - 1, by omega⟩
    rw [List.forall_mem_cons] at inside
    have shift : pre ++ b :: w ++ c :: post = (pre ++ [b]) ++ w ++ c :: post := by simp
    -- the loop goes on as behind a beginning that is one longer
    have next := ih (pre ++ [b]) inside.2 (hexStep v b) (Nat.lt_of_succ_lt_succ enough)
    rw [← shift] at next
    have here : (pre ++ b :: w ++ c :: post)[pre.length]? = some b := by
      rw [List.append_assoc, List.cons_append]
      exact at_append pre b _
    rw [List.length_append, List.length_singleton] at next
    rw [hexLoop, here]
    simp only [Option.bind_eq_bind, Option.bind_some, if_pos inside.1, next, List.foldl_cons]
    simp

/-- The colour in front of a comma. -/
theorem colorsOf_comma (n : Nat) {w : List UInt8} (clean : 0x2C ∉ w) (t : List UInt8) :
    colorsOf (n + 1) (w ++ 0x2C :: t) = (w.foldl hexStep 0).toUInt8 :: colorsOf n t := by
  obtain ⟨word, behind⟩ := cut_before clean t
  rw [colorsOf, if_neg (by simp), word, behind, List.drop_one, List.tail_cons]

/-- The last colour. -/
theorem colorsOf_last (n : Nat) {w : List UInt8} (held : w ≠ []) (clean : 0x2C ∉ w) :
    colorsOf (n + 1) w = [(w.foldl hexStep 0).toUInt8] := by
  obtain ⟨word, behind⟩ := cut_nowhere clean
  rw [colorsOf, if_neg held, word, behind]
  cases n <;> rfl

/-- One round of the loop reads the colour up to a comma, which is skipped, or to the NUL. -/
theorem colorsLoop_round (pre : List UInt8) {w : List UInt8} (post : List UInt8) {c : UInt8}
    (inside : ∀ b ∈ w, b ≠ 0 ∧ b ≠ 0x2C) (ends : c = 0 ∨ c = 0x2C) (held : w ≠ [] ∨ c = 0x2C)
    {rx : List UInt8} (more : rx.length < maxnodesMax) (fuel : Nat) :
    colorsLoop (pre ++ w ++ c :: post) (fuel + 1) pre.length rx =
      colorsLoop (pre ++ w ++ c :: post) fuel
        (if c = 0x2C then (pre ++ w).length + 1 else (pre ++ w).length)
        (rx ++ [(w.foldl hexStep 0).toUInt8]) := by
  obtain ⟨b, here, nonzero⟩ : ∃ b, (pre ++ w ++ c :: post)[pre.length]? = some b ∧ b ≠ 0 := by
    cases w with
    | nil =>
      rw [List.append_nil]
      exact ⟨c, at_append pre c post, by rw [held.resolve_left (by simp)]; decide⟩
    | cons b w =>
      rw [List.append_assoc, List.cons_append]
      exact ⟨b, at_append pre b _, (inside b List.mem_cons_self).1⟩
  have fits : w.length < (pre ++ w ++ c :: post).length + 1 := by
    simp only [List.length_append]
    omega
  have read := hexLoop_append pre post inside ends 0 fits
  rw [colorsLoop]
  simp only [here, Option.bind_eq_bind, Option.bind_some, if_pos (And.intro nonzero more), read,
    at_append (pre ++ w) c post]

/-- The loop reads the colours that the string has, as long as there is room for them. -/
theorem colorsLoop_append (pre : List UInt8) {m : List UInt8} (rest : List UInt8) (nul : 0 ∉ m)
    {rx : List UInt8} (held : rx.length ≤ maxnodesMax) {fuel : Nat}
    (enough : maxnodesMax - rx.length < fuel) :
    colorsLoop (pre ++ m ++ 0 :: rest) fuel pre.length rx =
      some (rx ++ colorsOf (maxnodesMax - rx.length) m) := by
  induction fuel generalizing pre m rx with
  | zero => omega
  | succ fuel ih =>
    by_cases full : rx.length < maxnodesMax
    · obtain ⟨room, left⟩ : ∃ room, maxnodesMax - rx.length = room + 1 :=
        ⟨maxnodesMax - rx.length - 1, by omega⟩
      -- What is left of the room once a colour has been read.
      have after (v : UInt8) : (rx ++ [v]).length ≤ maxnodesMax ∧
          maxnodesMax - (rx ++ [v]).length = room := by
        rw [List.length_append, List.length_singleton]
        omega
      by_cases comma : 0x2C ∈ m
      · obtain ⟨w, t, rfl, clean⟩ := List.eq_append_cons_of_mem comma
        rw [List.mem_append, List.mem_cons, not_or, not_or] at nul
        have inside : ∀ b ∈ w, b ≠ 0 ∧ b ≠ 0x2C := fun b member =>
          ⟨fun zero => nul.1 (zero ▸ member), fun same => clean (same ▸ member)⟩
        obtain ⟨fits, remaining⟩ := after (w.foldl hexStep 0).toUInt8
        have next := ih (pre ++ w ++ [0x2C]) nul.2.2 fits (by omega)
        have line : pre ++ (w ++ 0x2C :: t) ++ 0 :: rest = pre ++ w ++ 0x2C :: (t ++ 0 :: rest) := by
          simp
        have same : pre ++ w ++ [0x2C] ++ t ++ 0 :: rest =
            pre ++ w ++ 0x2C :: (t ++ 0 :: rest) := by simp
        have place : (pre ++ w ++ [0x2C]).length = (pre ++ w).length + 1 := by
          rw [List.length_append, List.length_singleton]
        rw [same, place, remaining] at next
        rw [line, colorsLoop_round pre _ inside (.inr rfl) (.inr rfl) full, if_pos rfl, next, left,
          colorsOf_comma room clean, List.append_assoc, List.singleton_append]
      · by_cases some_word : m = []
        · subst some_word
          rw [List.append_nil, colorsLoop, at_append, left, colorsOf]
          simp
        · have inside : ∀ b ∈ m, b ≠ 0 ∧ b ≠ 0x2C := fun b member =>
            ⟨fun zero => nul (zero ▸ member), fun same => comma (same ▸ member)⟩
          obtain ⟨fits, remaining⟩ := after (m.foldl hexStep 0).toUInt8
          have next := ih (pre ++ m) List.not_mem_nil fits (by omega)
          rw [List.append_nil, remaining] at next
          have nothing : colorsOf room [] = [] := by cases room <;> rfl
          rw [colorsLoop_round pre _ inside (.inl rfl) (.inl some_word) full, if_neg (by decide),
            next, left, colorsOf_last room some_word comma, nothing, List.append_nil]
    · have none_left : maxnodesMax - rx.length = 0 := by omega
      obtain ⟨c, here⟩ : ∃ c, (pre ++ m ++ 0 :: rest)[pre.length]? = some c := by
        rw [← Option.isSome_iff_exists, List.getElem?_eq_getElem (by simp)]
        rfl
      rw [colorsLoop, none_left, colorsOf, here]
      simp [full]

/-- A printed colour reads back. -/
theorem hex2_reads (c : UInt8) : ((hex2 c).foldl hexStep 0).toUInt8 = c := by
  have all : ∀ n : Fin 256, ((hex2 (.ofNat n)).foldl hexStep 0).toUInt8 = .ofNat n := by
    decide +kernel
  have own := all ⟨c.toNat, c.toNat_lt⟩
  rwa [UInt8.ofNat_toNat] at own

theorem hex2_plain (c : UInt8) : 0 ∉ hex2 c ∧ 0x2C ∉ hex2 c := by
  have all : ∀ n : Fin 256, 0 ∉ hex2 (.ofNat n) ∧ 0x2C ∉ hex2 (.ofNat n) := by decide +kernel
  have own := all ⟨c.toNat, c.toNat_lt⟩
  rwa [UInt8.ofNat_toNat] at own

theorem colorsText_later (i : Nat) (colors : List UInt8) :
    colorsText (i + 1) colors = colors.flatMap fun c => 0x2C :: hex2 c := by
  induction colors generalizing i with
  | nil => rfl
  | cons c colors ih =>
    rw [colorsText, ih, colorText, if_neg (Nat.succ_ne_zero i), text_comma, List.flatMap_cons]
    rfl

/-- Printed colours are read, as many as there are. -/
theorem colorsOf_text {n : Nat} {colors : List UInt8} (atMost : colors.length ≤ n) :
    colorsOf n (colorsText 0 colors) = colors := by
  -- Behind the first colour each one has its comma in front.
  have later : ∀ (colors : List UInt8) (n : Nat) (c : UInt8), colors.length < n →
      colorsOf n (hex2 c ++ colors.flatMap fun c => 0x2C :: hex2 c) = c :: colors := by
    intro colors
    induction colors with
    | nil =>
      intro n c enough
      obtain ⟨n, rfl⟩ : ∃ k, n = k + 1 := ⟨n - 1, by rw [List.length_nil] at enough; omega⟩
      rw [List.flatMap_nil, List.append_nil, colorsOf_last n (by simp [hex2]) (hex2_plain c).2,
        hex2_reads]
    | cons d colors ih =>
      intro n c enough
      obtain ⟨n, rfl⟩ : ∃ k, n = k + 1 := ⟨n - 1, by omega⟩
      have next := ih n d (by rw [List.length_cons] at enough; omega)
      rw [List.flatMap_cons, List.cons_append, colorsOf_comma n (hex2_plain c).2, hex2_reads, next]
  cases colors with
  | nil => cases n <;> rfl
  | cons c colors =>
    rw [colorsText, colorsText_later, colorText, if_pos rfl]
    exact later colors n c atMost

/-! ### What is received -/

/-- A datagram becomes a string, cut to `WIFI_MCAST_MAX_PAYLOAD` bytes. -/
theorem mcastRecv_take (payload : List UInt8) {buf : List UInt8}
    (sized : buf.length = wifiMcastMaxPayload + 1) :
    ∃ rest, mcastRecv payload buf = some (payload.take wifiMcastMaxPayload ++ 0 :: rest) := by
  have len : (if payload.length < wifiMcastMaxPayload then payload.length
      else wifiMcastMaxPayload) = (payload.take wifiMcastMaxPayload).length := by
    rw [List.length_take]
    split <;> omega
  have cut : payload.take (payload.take wifiMcastMaxPayload).length =
      payload.take wifiMcastMaxPayload := by
    rw [List.length_take, List.take_eq_take_min]
    simp
  have atMost : (payload.take wifiMcastMaxPayload).length ≤ wifiMcastMaxPayload :=
    List.length_take_le ..
  rw [mcastRecv]
  simp only [len, cut]
  generalize payload.take wifiMcastMaxPayload = bytes at atMost ⊢
  -- the copy, and the terminator behind it
  have inside : bytes.length < buf.length := by omega
  have old : bytes.length = (buf.take bytes.length).length := by
    rw [List.length_take]
    omega
  have copied := store_append [] (buf.drop bytes.length) old
  rw [List.nil_append, List.nil_append, List.take_append_drop, List.length_nil] at copied
  have one : [(0 : UInt8)].length = [buf[bytes.length]].length := rfl
  have ended := store_append bytes (buf.drop (bytes.length + 1)) one
  rw [List.append_assoc, List.singleton_append, List.getElem_cons_drop] at ended
  refine ⟨buf.drop (bytes.length + 1), ?_⟩
  simp only [copied, Option.bind_eq_bind, Option.bind_some, ended]
  simp

theorem mcastRecv_string {payload buf : List UInt8} (atMost : payload.length ≤ wifiMcastMaxPayload)
    (sized : buf.length = wifiMcastMaxPayload + 1) :
    ∃ rest, mcastRecv payload buf = some (payload ++ 0 :: rest) := by
  have cut := mcastRecv_take payload sized
  rwa [List.take_of_length_le atMost] at cut

theorem foldlM_sender (field : List UInt8) :
    field.foldlM senderStep 0 =
      if value (field.filter isDigit) < 2 ^ 31 then some (value (field.filter isDigit) : Int)
      else none := by
  rw [← checked_value, checked, List.foldlM_filter]
  rfl

/-- What stands before the colon or the terminator. -/
theorem before_colon {str : List UInt8} (nul : 0 ∉ str) (none : 0x3A ∉ str) :
    ∀ c ∈ str, (fun c : UInt8 => c != 0 && c != 0x3A) c = true := by
  intro c member
  have nonzero : c ≠ 0 := fun zero => nul (zero ▸ member)
  have other : c ≠ 0x3A := fun colon => none (colon ▸ member)
  simp [nonzero, other]

/-- A string without a colon is refused. -/
theorem mcastRecvCb_plain (s : CrayState) {str : List UInt8} (rest m : List UInt8) (nul : 0 ∉ str)
    (none : 0x3A ∉ str) :
    mcastRecvCb s (str ++ 0 :: rest) m = some { s with netError := true } := by
  have found := scan_append [] rest (before_colon nul none)
    (show (fun c : UInt8 => c != 0 && c != 0x3A) 0 = false from rfl)
  rw [List.nil_append, List.length_nil, Nat.zero_add] at found
  rw [mcastRecvCb]
  simp only [found, Option.bind_eq_bind, Option.bind_some, at_append str 0 rest]
  rfl

/-- What stands in front of the first colon is the sender, if that is an `int`, and what stands behind
it its colours. -/
theorem mcastRecvCb_colon (s : CrayState) {field body : List UInt8} (rest m : List UInt8)
    (nul : 0 ∉ field) (none : 0x3A ∉ field) (nul' : 0 ∉ body) :
    mcastRecvCb s (field ++ 0x3A :: body ++ 0 :: rest) m =
      if value (field.filter isDigit) < 2 ^ 31 then
        some (rxUpdate s (value (field.filter isDigit)) (colorsOf maxnodesMax body) m)
      else .none := by
  have found := scan_append [] (body ++ 0 :: rest) (before_colon nul none)
    (show (fun c : UInt8 => c != 0 && c != 0x3A) 0x3A = false from rfl)
  rw [List.nil_append, List.length_nil, Nat.zero_add] at found
  have shape : field ++ 0x3A :: body ++ 0 :: rest = field ++ 0x3A :: (body ++ 0 :: rest) := by simp
  have loaded := load_append [] field (0x3A :: (body ++ 0 :: rest))
  rw [List.nil_append, List.length_nil] at loaded
  have no_colors : ([] : List UInt8).length ≤ maxnodesMax := Nat.zero_le _
  have enough : maxnodesMax - ([] : List UInt8).length < maxnodesMax + 1 := Nat.lt_succ_self _
  have read := colorsLoop_append (field ++ [0x3A]) rest nul' no_colors enough
  have line : field ++ [0x3A] ++ body ++ 0 :: rest = field ++ 0x3A :: (body ++ 0 :: rest) := by simp
  rw [line, List.length_append, List.length_singleton, List.nil_append, List.length_nil,
    Nat.sub_zero] at read
  rw [shape, mcastRecvCb]
  simp only [found, Option.bind_eq_bind, Option.bind_some, at_append field 0x3A, loaded,
    foldlM_sender]
  -- past the largest `int` there is no state after it
  by_cases small : value (field.filter isDigit) < 2 ^ 31
  · simp only [if_pos small, Option.bind_some, read]
    rfl
  · simp only [if_neg small, Option.bind_none]
    rfl

theorem length_intBytes (n : Int) : (intBytes n).length = 4 := by
  rw [intBytes, List.length_map, List.length_range]

theorem length_bytes {u : RxMsg} (sized : u.colors.length = maxnodesMax) : u.bytes.length = 24 := by
  rw [RxMsg.bytes, List.length_append, List.length_append, length_intBytes, length_intBytes, sized]
  rfl

theorem int32_natCast {n : Nat} (small : n < 2 ^ 31) : int32 n = n :=
  int32_of_range (by omega) (by omega)

theorem decimal_plain (n : Nat) : 0 ∉ decimal n ∧ 0x3A ∉ decimal n := by
  constructor
  · intro member
    exact absurd (decimal_digits n 0 member) (by decide)
  · intro member
    exact absurd (decimal_digits n 0x3A member) (by decide)

theorem colorsText_nul (i : Nat) (colors : List UInt8) : 0 ∉ colorsText i colors := by
  induction colors generalizing i with
  | nil => exact List.not_mem_nil
  | cons c colors ih =>
    have plain : 0 ∉ colorText i c := by
      rw [colorText]
      split
      · exact (hex2_plain c).1
      · rw [text_comma, List.singleton_append, List.mem_cons, not_or]
        exact ⟨by decide, (hex2_plain c).1⟩
    rw [colorsText, List.mem_append, not_or]
    exact ⟨plain, ih (i + 1)⟩

theorem length_wire {n id : Nat} {colors : List UInt8} (count : colors.length = n)
    (atMost : n ≤ maxnodesMax) (below : id < n) :
    (wire id colors).length ≤ wifiMcastMaxPayload := by
  obtain ⟨sent, built, short, read⟩ := encode_wire [] count atMost below
    (List.length_replicate (n := msgMax) (a := (0 : UInt8)))
  rw [datagram, load] at read
  split at read
  · have bytes := congrArg List.length (Option.some.inj read)
    rw [List.length_take, List.length_drop] at bytes
    have sixty_four : msgMax = 64 := rfl
    have payload : wifiMcastMaxPayload = 128 := rfl
    omega
  · cases read

/-- A message that is accepted while the queue has room. -/
theorem rxUpdate_queues {s : CrayState} {sender : Int} {rxColors : List UInt8} (m : List UInt8)
    (held : rxColors ≠ []) (other : sender ≠ s.nodeid) (low : 0 ≤ sender)
    (high : sender < s.maxnodes) (free : s.rxMq.count < mqMaxMsg) :
    rxUpdate s sender rxColors m =
      { s with
        rxCount := s.rxCount + 1
        rxMq := mqueuePut s.rxMq (RxMsg.bytes ⟨sender, rxColors.length, Memory.overlay m 0 rxColors⟩)
        netError := s.netError } := by
  have some_color : rxColors.length ≠ 0 := fun zero => held (List.length_eq_zero_iff.mp zero)
  have accepted : ¬ (sender = s.nodeid ∨ sender < 0 ∨ s.maxnodes ≤ sender) := by omega
  have room : ¬ mqMaxMsg ≤ s.rxMq.count := by omega
  simp only [rxUpdate, if_neg some_color, if_neg accepted, mqueueTrySend, if_neg room,
    Bool.not_true, Bool.or_false]

/-- Another node queues what a message says. -/
theorem receive_wire {n id : Nat} {colors : List UInt8} (count : colors.length = n)
    (atMost : n ≤ maxnodesMax) (below : id < n) {s : CrayState} (nodes : s.maxnodes = n)
    (other : s.nodeid ≠ id) (ok : s.rxMq.Ok) (free : s.rxMq.count < mqMaxMsg)
    (size : s.rxMq.msgSize = 24) {buf m : List UInt8}
    (string : buf.length = wifiMcastMaxPayload + 1) (stack : m.length = maxnodesMax) :
    ∃ s' update, receive s (wire id colors) buf m = some s' ∧
      s'.rxMq.contents = s.rxMq.contents ++ [RxMsg.bytes update] ∧ s'.netError = s.netError ∧
      update.sender = id ∧ update.numColors = n ∧ update.colors.take n = colors := by
  have sixteen : maxnodesMax = 16 := rfl
  obtain ⟨rest, arrived⟩ := mcastRecv_string (length_wire count atMost below) string
  have line : wire id colors = decimal id ++ 0x3A :: colorsText 0 colors := by
    rw [wire, text_colon]
    simp
  obtain ⟨nul, none⟩ := decimal_plain id
  have read := mcastRecvCb_colon s rest m nul none (colorsText_nul 0 colors)
  rw [← line, List.filter_eq_self.mpr (decimal_digits id), value_decimal, if_pos (by omega),
    colorsOf_text (by omega)] at read
  have held : colors ≠ [] := by
    rintro rfl
    rw [List.length_nil] at count
    omega
  rw [rxUpdate_queues m held (Ne.symm other) (Int.natCast_nonneg id) (by omega) free] at read
  -- the colours lie over what the stack has held
  have overlaid : Memory.overlay m 0 colors = colors ++ m.drop colors.length := by
    rw [Memory.overlay, List.take_zero, List.nil_append, Nat.zero_add]
  have sized : (Memory.overlay m 0 colors).length = maxnodesMax := by
    rw [overlaid, List.length_append, List.length_drop]
    omega
  have received : receive s (wire id colors) buf m = mcastRecvCb s (wire id colors ++ 0 :: rest) m := by
    rw [receive, arrived]
    rfl
  have ran := received.trans read
  refine ⟨_, ⟨id, colors.length, Memory.overlay m 0 colors⟩, ran, ?_, rfl, rfl, ?_, ?_⟩
  · have queued := (ok.put free (RxMsg.bytes ⟨id, colors.length, Memory.overlay m 0 colors⟩)).2
    rwa [size, List.take_of_length_le (length_bytes sized).le] at queued
  · exact congrArg Nat.cast count
  · rw [overlaid, ← count, List.take_left]

/-- The message of a node fits into its buffer, and every other node queues the number of the sender,
how many colours it has sent, and the colours. -/
theorem message_round_trip (n id : Nat) (colors unused msg : List UInt8)
    (count : colors.length = n) (atMost : n ≤ maxnodesMax) (below : id < n)
    (sized : msg.length = msgMax) :
    ∃ sent payload, encode id n (colors ++ unused) msg = some sent ∧ sent.2 < msgMax ∧
      datagram sent = some payload ∧
      payload = decimal id ++ text ":" ++ colorsText 0 colors ∧
      ∀ (s : CrayState) (buf m : List UInt8), s.maxnodes = n → s.nodeid ≠ id → s.rxMq.Ok →
        s.rxMq.count < mqMaxMsg → s.rxMq.msgSize = 24 → buf.length = wifiMcastMaxPayload + 1 →
        m.length = maxnodesMax →
        ∃ s' update, receive s payload buf m = some s' ∧
          s'.rxMq.contents = s.rxMq.contents ++ [RxMsg.bytes update] ∧
          s'.netError = s.netError ∧ update.sender = id ∧ update.numColors = n ∧
          update.colors.take n = colors := by
  obtain ⟨sent, built, short, read⟩ := encode_wire unused count atMost below sized
  exact ⟨sent, wire id colors, built, short, read, rfl,
    fun s buf m nodes other ok free size string stack =>
      receive_wire count atMost below nodes other ok free size string stack⟩

/-- Node 0 of two, with an empty queue. -/
def nodeZero : CrayState := ⟨0, 2, 0, false, mqueueInit 24⟩

theorem nodeZero_ok : nodeZero.rxMq.Ok := ⟨by decide, by decide, by decide⟩

theorem message_round_trip_two :
    ∃ sent payload, encode (1 : Nat) (2 : Nat) ([0xE0, 0x03] ++ List.replicate 14 0)
        (List.replicate 64 0xAA) = some sent ∧ datagram sent = some payload ∧
      ∃ s' update, receive nodeZero payload (List.replicate 129 0xAA) (List.replicate 16 0xAA) =
          some s' ∧
        s'.rxMq.contents = nodeZero.rxMq.contents ++ [RxMsg.bytes update] ∧
        update.sender = 1 ∧ update.numColors = 2 ∧ update.colors.take 2 = [0xE0, 0x03] := by
  obtain ⟨sent, payload, built, -, read, -, others⟩ := message_round_trip 2 1 [0xE0, 0x03]
    (List.replicate 14 0) (List.replicate 64 0xAA) rfl (by decide) (by decide) rfl
  obtain ⟨s', update, ran, queued, -, sender, number, colors⟩ := others nodeZero
    (List.replicate 129 0xAA) (List.replicate 16 0xAA) rfl (by decide) nodeZero_ok (by decide) rfl
    rfl rfl
  exact ⟨sent, payload, built, read, s', update, ran, queued, sender, number, colors⟩

end PicoOS.Apps
