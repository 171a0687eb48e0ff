import PicoOS.Apps.Grid
import PicoOS.Apps.Message

/-!
# The cluster of cray-one

Every node picks colours, sends them to the others and paints what it gets from
them. Datagrams are lost, repeated and come in any order; the threads of a node
run on two cores, and the callback interrupts them. A node draws no picture that
mixes two messages of another node, or has a colour that this one has not sent; its
panel shows such a picture, or the upper part of the next one.
-/
namespace PicoOS.Apps.Cluster

open PicoOS.Display
open PicoOS.Kernel (mqueueGet mqueueInit flagsSatisfied mqMaxMsg)

/-! ### Colours -/

def colorPalette : List UInt8 :=
  [rgb332 255 0 0, rgb332 219 0 0, rgb332 182 0 0, rgb332 255 73 0,
   rgb332 255 0 85, rgb332 255 73 85, rgb332 219 36 0, rgb332 255 36 85,
   rgb332 255 128 0, rgb332 255 146 0, rgb332 219 109 0, rgb332 255 182 0,
   rgb332 255 109 85, rgb332 219 73 0, rgb332 182 91 0, rgb332 255 128 85,
   rgb332 255 219 0, rgb332 255 255 0, rgb332 219 219 0, rgb332 182 182 0,
   rgb332 255 255 85, rgb332 219 182 0, rgb332 255 219 85, rgb332 128 255 0,
   rgb332 0 255 0, rgb332 0 219 0, rgb332 0 182 0, rgb332 0 146 0,
   rgb332 73 255 0, rgb332 36 255 85, rgb332 0 255 85, rgb332 0 219 85,
   rgb332 0 255 255, rgb332 0 219 219, rgb332 0 255 170, rgb332 0 219 170,
   rgb332 73 255 255, rgb332 0 182 255, rgb332 0 146 219, rgb332 0 182 170,
   rgb332 0 0 255, rgb332 0 0 170, rgb332 73 73 255, rgb332 0 73 255,
   rgb332 36 36 255, rgb332 109 109 255, rgb332 0 36 170, rgb332 73 146 255,
   rgb332 128 0 255, rgb332 182 0 255, rgb332 146 0 219, rgb332 91 0 219,
   rgb332 164 73 255, rgb332 73 0 182, rgb332 219 73 255, rgb332 109 36 255,
   rgb332 255 0 255, rgb332 219 0 219, rgb332 255 0 170, rgb332 219 0 170,
   rgb332 255 73 255, rgb332 255 109 255, rgb332 255 73 170, rgb332 219 73 182]

/-- `rng_next`. -/
def rngNext (rngState : UInt32) : UInt32 := rngState * 1664525 + 1013904223

/-- `color_palette[rng_next() % PALETTE_SIZE]`. -/
def pickColor (rngState : UInt32) : UInt32 × UInt8 :=
  let r := rngNext rngState
  (r, colorPalette.getD (r % 64).toNat 0)

/-- The loop that picks a first colour for each slot. -/
def pickColors (maxnodes : Nat) (rngState : UInt32) (colors : List UInt8) : UInt32 × List UInt8 :=
  (List.range maxnodes).foldl
    (fun s i =>
      let (rngState, c) := pickColor s.1
      (rngState, s.2.set i c))
    (rngState, colors)

/-! ### Messages -/

/-- The `int` in four bytes. -/
def loadInt (bytes : List UInt8) : Int :=
  Decimal.int32 (bytes.foldr (fun b v => b.toNat + 256 * v) 0 : Nat)

/-- The `rx_msg_t` in the bytes that `mqueue_try_recv` stores. -/
def rxMsg (bytes : List UInt8) : RxMsg where
  sender := loadInt (bytes.take 4)
  numColors := loadInt ((bytes.drop 4).take 4)
  colors := bytes.drop 8

/-! ### Nodes -/

/-- Bytes of the stack, as they happen to be. -/
abbrev Mem (n : Nat) := { bytes : List UInt8 // bytes.length = n }

inductive TxPc where
  | check
  /-- About to pick colour `i`. -/
  | choosing (i : Nat)
  | setDirty
  | sending
  | sleeping
  /-- The loop has ended. -/
  | stopping
  | setFlag
  | done

inductive DispPc where
  | check
  | testDirty
  | clearDirty
  | receiving
  /-- In `paint_node_blocks`, with the message or the own colours. -/
  | painting (rx : Option RxMsg) (b i : Nat)
  /-- In `display_flush_fb`, before and in its loop. -/
  | flushing
  | sendingRow (y : Nat)
  | sleeping
  | setFlag
  | done

/-- A node of the cluster: `cray` is what the callback uses. -/
structure Node where
  cray : CrayState
  rngState : UInt32
  myColors : List UInt8
  myColorsDirty : Bool
  crayRunning : Bool
  crayDone : UInt32
  /-- `g_sock` is open. -/
  sock : Bool
  display : Display.State
  tx : TxPc
  disp : DispPc

/-- The cluster, with the datagrams that were ever sent and the colours that each node has sent. -/
structure State (n : Nat) where
  node : Fin n → Node
  network : List (List UInt8)
  announced : Fin n → List (List UInt8)

/-- The size of the cluster is checked by `cray_one`. -/
structure Config where
  screen : Screen
  maxnodes : Nat
  pos : 0 < maxnodes
  atMost : maxnodes ≤ maxnodesMax

inductive Event (n : Nat) where
  /-- A step of `cray_tx_thread`: whether WiFi is up, whether the send fails, and its buffer. -/
  | tx (i : Fin n) (up err : Bool) (msg : Mem msgMax)
  | disp (i : Fin n)
  /-- The callback of a node gets a datagram that was sent at some time. -/
  | deliver (i : Fin n) (k : Nat) (buf : Mem (wifiMcastMaxPayload + 1)) (m : Mem maxnodesMax)
  /-- A step of `cray_one` after it has started the threads. -/
  | main (i : Fin n)

section
variable (c : Config) (x : Node)

/-- A step of `cray_tx_thread`, but for the send. -/
def txStep (up : Bool) : Node :=
  match x.tx with
  | .check =>
    if x.crayRunning && up then
      { x with cray := { x.cray with netError := false }, tx := .choosing 0 }
    else
      { x with tx := .stopping }
  | .choosing i =>
    if i < c.maxnodes ∧ i < maxnodesMax then
      let (rngState, color) := pickColor x.rngState
      { x with
        rngState := rngState
        myColors := x.myColors.set i color
        tx := .choosing (i + 1) }
    else
      { x with tx := .setDirty }
  | .setDirty => { x with myColorsDirty := true, tx := .sending }
  | .sending => { x with tx := .sleeping }
  | .sleeping => { x with tx := .check }
  | .stopping => { x with crayRunning := false, tx := .setFlag }
  | .setFlag => { x with crayDone := x.crayDone ||| 1, tx := .done }
  | .done => x

/-- A call of `dev_ioctl` on the display; it always returns. -/
def Node.draw (call : Call) : Node :=
  match x.display.call c.screen.toGeometry call with
  | some d => { x with display := d }
  | none => x

/-- A step of `cray_disp_thread`. -/
def dispStep : Node :=
  match x.disp with
  | .check => { x with disp := if x.crayRunning then .testDirty else .setFlag }
  | .testDirty => { x with disp := if x.myColorsDirty then .clearDirty else .receiving }
  | .clearDirty =>
    { x with myColorsDirty := false, disp := .painting none x.cray.nodeid.toNat 0 }
  | .receiving =>
    if x.cray.rxMq.count = 0 then
      { x with disp := .sleeping }
    else
      let (rxMq, bytes) := mqueueGet x.cray.rxMq
      let rx := rxMsg bytes
      { x with
        cray := { x.cray with rxMq := rxMq }
        disp := .painting (some rx) rx.sender.toNat 0 }
  | .painting rx b i =>
    if b < gridTotal then
      let color := match rx with
        | none => x.myColors.getD (i % c.maxnodes) 0
        | some rx => rx.colors.getD (i % rx.numColors.toNat) 0
      { x.draw c (drawBlock c.screen b color) with disp := .painting rx (b + c.maxnodes) (i + 1) }
    else
      { x with disp := .flushing }
  | .flushing =>
    if x.display.dirtyMin > x.display.dirtyMax then
      { x with disp := .sleeping }
    else
      { x with
        display := flushWindow c.screen.toGeometry x.display
        disp := .sendingRow x.display.dirtyMin }
  | .sendingRow y =>
    if y ≤ x.display.dirtyMax then
      { x with display := flushRow c.screen.toGeometry y x.display, disp := .sendingRow (y + 1) }
    else
      { x with display := x.display.dirtyReset c.screen.toGeometry, disp := .sleeping }
  | .sleeping => { x with disp := .check }
  | .setFlag => { x with crayDone := x.crayDone ||| 2, disp := .done }
  | .done => x

/-- `cray_one` waits for both threads and closes the socket. -/
def mainStep : Node :=
  if flagsSatisfied x.crayDone 3 true then { x with sock := false } else x

end

section
variable (c : Config) (s : State c.maxnodes)

/-- What `wifi_mcast_send` sends in this step. -/
def sends (i : Fin c.maxnodes) (err : Bool) (msg : Mem msgMax) : Option (List UInt8) :=
  match (s.node i).tx, err with
  | .sending, false => do
    datagram (← encode (s.node i).cray.nodeid c.maxnodes (s.node i).myColors msg)
  | _, _ => none

def step : Event c.maxnodes → State c.maxnodes
  | .tx i up err msg =>
    let s' := { s with node := Function.update s.node i (txStep c (s.node i) up) }
    match sends c s i err msg with
    | some payload =>
      { s' with
        network := s.network ++ [payload]
        announced := Function.update s.announced i
          (s.announced i ++ [(s.node i).myColors.take c.maxnodes]) }
    | none => s'
  | .disp i => { s with node := Function.update s.node i (dispStep c (s.node i)) }
  | .deliver i k buf m =>
    match s.network[k]? with
    | some payload =>
      let x := s.node i
      if x.sock then
        match receive x.cray payload buf m with
        | some cray => { s with node := Function.update s.node i { x with cray := cray } }
        | none => s
      else
        s
    | none => s
  | .main i => { s with node := Function.update s.node i (mainStep (s.node i)) }

end

/-- What a node starts from: the calls to its display before the app, what a first `display_open`
leaves in the panel, the seed and the old colours. -/
structure Boot where
  panel : Panel
  before : List Call
  gram : Nat → Nat → UInt16
  seed : UInt32
  old : Mem maxnodesMax

/-- A node after `cray_one` has drawn the grid and started the threads. -/
def Boot.node (c : Config) (boot : Boot) (i : Fin c.maxnodes) : Node :=
  let picked := pickColors c.maxnodes boot.seed boot.old
  let g := c.screen.toGeometry
  { cray := ⟨i, c.maxnodes, 0, false, mqueueInit 24⟩
    rngState := picked.1
    myColors := picked.2
    myColorsDirty := false
    crayRunning := true
    crayDone := 0
    sock := true
    display := ((powerOn g boot.panel).calls g
      (boot.before ++ drawInitialGrid c.screen boot.gram c.maxnodes i picked.2)).getD
        (powerOn g boot.panel)
    tx := .check
    disp := .check }

def start (c : Config) (boot : Fin c.maxnodes → Boot) : State c.maxnodes where
  node i := (boot i).node c i
  network := []
  announced _ := []

/-! ### What holds in every state -/

/-- The blocks of a node have these colours. -/
def Wears (maxnodes nodeid : Nat) (vector : List UInt8) (cells : Nat → UInt8) : Prop :=
  ∀ b < gridTotal, b % maxnodes = nodeid → cells b = vector.getD (b / maxnodes % maxnodes) 0

/-- The blocks of each other node are black, or have colours that it has sent. -/
def Peers {n : Nat} (announced : Fin n → List (List UInt8)) (i : Fin n) (cells : Nat → UInt8) :
    Prop :=
  ∀ j ≠ i, ∃ v, (v = List.replicate n colorBlack ∨ v ∈ announced j) ∧ Wears n j v cells

/-- A message with colours that another node has sent. -/
def FromPeer {n : Nat} (announced : Fin n → List (List UInt8)) (i : Fin n) (rx : RxMsg) : Prop :=
  ∃ j ≠ i, ∃ v ∈ announced j, rx.sender = (j : Nat) ∧ rx.numColors = n ∧ rx.colors.take n = v

/-- The own colours are being picked. -/
def TxPc.picks : TxPc → Bool
  | .choosing _ | .setDirty => true
  | _ => false

/-- The own blocks may be out of date, and will be painted again. -/
def Node.stale (x : Node) : Bool := x.myColorsDirty || x.tx.picks

/-- What is drawn is shown. -/
def DispPc.still : DispPc → Bool
  | .painting .. | .flushing | .sendingRow _ => false
  | _ => true

structure CrayOk {n : Nat} (announced : Fin n → List (List UInt8)) (i : Fin n) (s : CrayState) :
    Prop where
  nodeid : s.nodeid = (i : Nat)
  maxnodes : s.maxnodes = n
  queue : s.rxMq.Ok
  size : s.rxMq.msgSize = 24
  messages : ∀ bytes ∈ s.rxMq.contents, FromPeer announced i (rxMsg bytes)

/-- What a node has drawn and shows. -/
inductive Looks (c : Config) (announced : Fin c.maxnodes → List (List UInt8)) (i : Fin c.maxnodes)
    (x : Node) : Prop where
  | still (cells : Nat → UInt8) (at_ : x.disp.still = true)
      (painted : Painted c.screen cells x.display) (shown : Shown c.screen cells x.display)
      (peers : Peers announced i cells)
      (own : x.stale = true ∨ Wears c.maxnodes i x.myColors cells)
  | own (front cells : Nat → UInt8) (k : Nat)
      (at_ : x.disp = .painting none (i + c.maxnodes * k) k)
      (shown : Shown c.screen front x.display) (peers : Peers announced i front)
      (painted : Painted c.screen cells x.display)
      (others : ∀ b, b % c.maxnodes ≠ i → cells b = front b)
      (own : x.stale = true ∨ ∀ b < gridTotal, b % c.maxnodes = i → b / c.maxnodes < k →
        cells b = x.myColors.getD (b / c.maxnodes % c.maxnodes) 0)
  | peer (front : Nat → UInt8) (rx : RxMsg) (j : Fin c.maxnodes) (other : j ≠ i)
      (number : rx.numColors = c.maxnodes) (sent : rx.colors.take c.maxnodes ∈ announced j) (k : Nat)
      (at_ : x.disp = .painting (some rx) (j + c.maxnodes * k) k)
      (shown : Shown c.screen front x.display) (peers : Peers announced i front)
      (painted : Painted c.screen
        (repaint c.maxnodes j (fun k => rx.colors.getD (k % c.maxnodes) 0) k front) x.display)
      (own : x.stale = true ∨ Wears c.maxnodes i x.myColors front)
  | flushing (front cells : Nat → UInt8) (at_ : x.disp = .flushing)
      (shown : Shown c.screen front x.display) (peers : Peers announced i front)
      (painted : Painted c.screen cells x.display) (drawn : Peers announced i cells)
      (own : x.stale = true ∨ Wears c.maxnodes i x.myColors cells)
  | sendingRow (front cells : Nat → UInt8) (y : Nat) (at_ : x.disp = .sendingRow y)
      (sending : Sending c.screen.toGeometry y x.display)
      (shown : ShownTo c.screen cells front y x.display) (peers : Peers announced i front)
      (painted : Painted c.screen cells x.display) (drawn : Peers announced i cells)
      (own : x.stale = true ∨ Wears c.maxnodes i x.myColors cells)

def TxPc.flag : TxPc → UInt32
  | .done => 1
  | _ => 0

def DispPc.flag : DispPc → UInt32
  | .done => 2
  | _ => 0

structure NodeOk (c : Config) (announced : Fin c.maxnodes → List (List UInt8)) (i : Fin c.maxnodes)
    (x : Node) : Prop where
  cray : CrayOk announced i x.cray
  colors : x.myColors.length = maxnodesMax
  palette : ∀ color ∈ x.myColors.take c.maxnodes, color ∈ colorPalette
  ready : Ready c.screen.toGeometry x.display
  initialized : x.display.initialized = true
  looks : Looks c announced i x
  flags : x.crayDone = x.tx.flag ||| x.disp.flag
  closed : x.sock = false → x.tx = .done ∧ x.disp = .done

structure Inv (c : Config) (s : State c.maxnodes) : Prop where
  network : ∀ payload ∈ s.network, ∃ j, ∃ v ∈ s.announced j, payload = wire (j : Nat) v
  announced : ∀ j, ∀ v ∈ s.announced j, v.length = c.maxnodes ∧ ∀ color ∈ v, color ∈ colorPalette
  node : ∀ i, NodeOk c s.announced i (s.node i)

/-! ### Messages that arrive -/

theorem loadInt_intBytes {n : Nat} (small : n < 2 ^ 31) : loadInt (intBytes n) = n := by
  have bytes : (intBytes n).foldr (fun b v => b.toNat + 256 * v) 0 = n := by
    have whole : ((n : Int) % 2 ^ 32).toNat = n := by omega
    simp only [intBytes, whole, List.range, List.range.loop, List.map_cons, List.map_nil,
      List.foldr_cons, List.foldr_nil, UInt8.toNat_ofNat']
    omega
  rw [loadInt, bytes]
  exact int32_natCast small

/-- A message is read as it was queued. -/
theorem rxMsg_bytes {sender number : Nat} (colors : List UInt8) (small : sender < 2 ^ 31)
    (small' : number < 2 ^ 31) :
    rxMsg (RxMsg.bytes ⟨sender, number, colors⟩) = ⟨sender, number, colors⟩ := by
  have first : (RxMsg.bytes ⟨sender, number, colors⟩).take 4 = intBytes sender := by
    rw [RxMsg.bytes, List.append_assoc, ← length_intBytes (sender : Int), List.take_left]
  have behind : (RxMsg.bytes ⟨sender, number, colors⟩).drop 4 = intBytes number ++ colors := by
    rw [RxMsg.bytes, List.append_assoc, ← length_intBytes (sender : Int), List.drop_left]
  have second : ((RxMsg.bytes ⟨sender, number, colors⟩).drop 4).take 4 = intBytes number := by
    rw [behind, ← length_intBytes (number : Int), List.take_left]
  have last : (RxMsg.bytes ⟨sender, number, colors⟩).drop 8 = colors := by
    have skip : (RxMsg.bytes ⟨sender, number, colors⟩).drop 8 =
        ((RxMsg.bytes ⟨sender, number, colors⟩).drop 4).drop 4 := by
      rw [List.drop_drop]
    rw [skip, behind, ← length_intBytes (number : Int), List.drop_left]
  rw [rxMsg, first, second, last, loadInt_intBytes small, loadInt_intBytes small']

/-- The callback reads the sender and the colours of a message. -/
theorem receive_reads (s : CrayState) {n id : Nat} {colors buf m : List UInt8}
    (count : colors.length = n) (atMost : n ≤ maxnodesMax) (below : id < n)
    (string : buf.length = wifiMcastMaxPayload + 1) :
    receive s (wire id colors) buf m = some (rxUpdate s id colors m) := by
  have sixteen : maxnodesMax = 16 := rfl
  obtain ⟨rest, arrived⟩ := mcastRecv_string (length_wire count atMost below) string
  have text : wire id colors = Decimal.decimal id ++ 0x3A :: colorsText 0 colors := by
    rw [wire, text_colon]
    simp
  obtain ⟨nul, none⟩ := decimal_plain id
  have read := mcastRecvCb_colon s rest m nul none (colorsText_nul 0 colors)
  rw [← text, List.filter_eq_self.mpr (Decimal.decimal_digits id), Decimal.value_decimal,
    if_pos (by omega), colorsOf_text (by omega)] at read
  rw [receive, arrived]
  exact read

section
variable {n : Nat} {announced announced' : Fin n → List (List UInt8)} {i : Fin n}

theorem FromPeer.mono (grows : ∀ j, ∀ v ∈ announced j, v ∈ announced' j) {rx : RxMsg}
    (h : FromPeer announced i rx) : FromPeer announced' i rx := by
  obtain ⟨j, other, v, sent, read⟩ := h
  exact ⟨j, other, v, grows j v sent, read⟩

theorem Peers.mono (grows : ∀ j, ∀ v ∈ announced j, v ∈ announced' j) {cells : Nat → UInt8}
    (h : Peers announced i cells) : Peers announced' i cells := by
  intro j other
  obtain ⟨v, black | sent, wears⟩ := h j other
  · exact ⟨v, .inl black, wears⟩
  · exact ⟨v, .inr (grows j v sent), wears⟩

/-- The callback queues what another node has sent, or nothing. -/
theorem CrayOk.receive {s : CrayState} (ok : CrayOk announced i s) (atMost : n ≤ maxnodesMax)
    {j : Fin n} {v : List UInt8} (sent : v ∈ announced j) (count : v.length = n)
    (m : Mem maxnodesMax) : CrayOk announced i (rxUpdate s (j : Nat) v m) := by
  have sixteen : maxnodesMax = 16 := rfl
  have below := j.isLt
  have held : v ≠ [] := by
    rintro rfl
    rw [List.length_nil] at count
    omega
  by_cases own : j = i
  · -- Its own message comes back.
    subst own
    have ignored : rxUpdate s (j : Nat) v m = s := by
      rw [rxUpdate, if_neg (by rwa [List.length_eq_zero_iff]), if_pos (.inl ok.nodeid.symm),
        if_neg (not_not.mpr ok.nodeid.symm)]
    rwa [ignored]
  have other : ((j : Nat) : Int) ≠ s.nodeid := by
    rw [ok.nodeid]
    exact fun same => own (Fin.ext (Int.ofNat.inj same))
  have accepted : ¬ (((j : Nat) : Int) = s.nodeid ∨ ((j : Nat) : Int) < 0 ∨
      s.maxnodes ≤ ((j : Nat) : Int)) := by
    have := ok.maxnodes
    omega
  by_cases room : s.rxMq.count < mqMaxMsg
  · rw [rxUpdate_queues m.1 held other (Int.natCast_nonneg _) (by have := ok.maxnodes; omega) room]
    have overlaid : Memory.overlay m.1 0 v = v ++ m.1.drop v.length := by
      rw [Memory.overlay, List.take_zero, List.nil_append, Nat.zero_add]
    have sized : (Memory.overlay m.1 0 v).length = maxnodesMax := by
      rw [overlaid, List.length_append, List.length_drop, m.2]
      omega
    obtain ⟨queue, queued⟩ := ok.queue.put room
      (RxMsg.bytes ⟨(j : Nat), v.length, Memory.overlay m.1 0 v⟩)
    rw [ok.size, List.take_of_length_le (length_bytes sized).le] at queued
    refine ⟨ok.nodeid, ok.maxnodes, queue, ok.size, fun bytes member => ?_⟩
    rw [queued, List.mem_append, List.mem_singleton] at member
    rcases member with earlier | rfl
    · exact ok.messages bytes earlier
    · rw [rxMsg_bytes _ (by omega) (by omega), overlaid]
      exact ⟨j, own, v, sent, rfl, by rw [count], List.take_left' count⟩
  · have full : mqMaxMsg ≤ s.rxMq.count := Nat.le_of_not_lt room
    rw [rxUpdate, if_neg (by rwa [List.length_eq_zero_iff]), if_neg accepted]
    simp only [mqueueTrySend, if_pos full]
    exact ⟨ok.nodeid, ok.maxnodes, ok.queue, ok.size, ok.messages⟩

end

/-! ### Steps of a node -/

section
variable {c : Config} {announced announced' : Fin c.maxnodes → List (List UInt8)}
  {i : Fin c.maxnodes} {x x' : Node}

/-- A step that draws nothing, where the own colours change only while they are picked. -/
theorem Looks.keep (looks : Looks c announced i x) (grows : ∀ j, ∀ v ∈ announced j, v ∈ announced' j)
    (disp : x'.disp = x.disp) (display : x'.display = x.display)
    (colors : x'.stale = true ∨ (x.stale = false ∧ x'.myColors = x.myColors)) :
    Looks c announced' i x' := by
  -- what is said of the own colours is said only while they are not stale
  have keeps {P : List UInt8 → Prop} (own : x.stale = true ∨ P x.myColors) :
      x'.stale = true ∨ P x'.myColors := by
    rcases colors with stale | ⟨fresh, same⟩
    · exact .inl stale
    · rw [fresh] at own
      rw [same]
      exact .inr (own.resolve_left Bool.false_ne_true)
  cases looks with
  | still cells at_ painted shown peers own =>
    rw [← disp] at at_
    rw [← display] at painted shown
    exact .still cells at_ painted shown (peers.mono grows)
      (keeps (P := fun colors => Wears c.maxnodes i colors cells) own)
  | own front cells k at_ shown peers painted others own =>
    rw [← disp] at at_
    rw [← display] at painted shown
    exact .own front cells k at_ shown (peers.mono grows) painted others
      (keeps (P := fun colors => ∀ b < gridTotal, b % c.maxnodes = i → b / c.maxnodes < k →
        cells b = colors.getD (b / c.maxnodes % c.maxnodes) 0) own)
  | peer front rx j other number sent k at_ shown peers painted own =>
    rw [← disp] at at_
    rw [← display] at painted shown
    exact .peer front rx j other number (grows j _ sent) k at_ shown (peers.mono grows) painted
      (keeps (P := fun colors => Wears c.maxnodes i colors front) own)
  | flushing front cells at_ shown peers painted drawn own =>
    rw [← disp] at at_
    rw [← display] at painted shown
    exact .flushing front cells at_ shown (peers.mono grows) painted (drawn.mono grows)
      (keeps (P := fun colors => Wears c.maxnodes i colors cells) own)
  | sendingRow front cells y at_ sending shown peers painted drawn own =>
    rw [← disp] at at_
    rw [← display] at sending painted shown
    exact .sendingRow front cells y at_ sending shown (peers.mono grows) painted (drawn.mono grows)
      (keeps (P := fun colors => Wears c.maxnodes i colors cells) own)

theorem CrayOk.mono {s : CrayState} (ok : CrayOk announced i s)
    (grows : ∀ j, ∀ v ∈ announced j, v ∈ announced' j) : CrayOk announced' i s :=
  ⟨ok.nodeid, ok.maxnodes, ok.queue, ok.size, fun bytes member => (ok.messages bytes member).mono grows⟩

theorem NodeOk.mono (ok : NodeOk c announced i x)
    (grows : ∀ j, ∀ v ∈ announced j, v ∈ announced' j) : NodeOk c announced' i x :=
  ⟨ok.cray.mono grows, ok.colors, ok.palette, ok.ready, ok.initialized,
    ok.looks.keep grows rfl rfl (by cases stale : x.stale <;> simp), ok.flags, ok.closed⟩

theorem pickColor_palette (rngState : UInt32) : (pickColor rngState).2 ∈ colorPalette := by
  have length : colorPalette.length = 64 := by simp [colorPalette]
  have inside : (rngNext rngState % 64).toNat < colorPalette.length := by
    rw [length, UInt32.toNat_mod, show (64 : UInt32).toNat = 64 from rfl]
    exact Nat.mod_lt _ (by decide)
  rw [pickColor, List.getD_eq_getElem _ _ inside]
  exact List.getElem_mem inside

/-- A colour that is picked keeps the slots filled from the palette. -/
theorem set_palette {colors : List UInt8} {n k : Nat} {color : UInt8}
    (palette : ∀ d ∈ colors.take n, d ∈ colorPalette) (picked : color ∈ colorPalette) :
    ∀ d ∈ (colors.set k color).take n, d ∈ colorPalette := by
  intro d member
  rw [List.take_set] at member
  rcases List.mem_or_eq_of_mem_set member with old | rfl
  · exact palette d old
  · exact picked

theorem txStep_ok (ok : NodeOk c announced i x) (up : Bool) :
    NodeOk c announced i (txStep c x up) := by
  have grows : ∀ j, ∀ v ∈ announced j, v ∈ announced j := fun _ _ member => member
  -- A thread that goes on has not ended, so that the socket is open.
  have opened {tx : TxPc} (at_ : x.tx = tx) (going : tx ≠ .done) {P : Prop} (shut : x.sock = false) :
      P := absurd (at_.symm.trans (ok.closed shut).1) going
  unfold txStep
  cases at_ : x.tx with
  | check =>
    have flags := ok.flags
    rw [at_] at flags
    dsimp only
    split
    next =>
      exact ⟨⟨ok.cray.nodeid, ok.cray.maxnodes, ok.cray.queue, ok.cray.size, ok.cray.messages⟩,
        ok.colors, ok.palette, ok.ready, ok.initialized,
        ok.looks.keep grows rfl rfl (.inl (by simp [Node.stale, TxPc.picks])), flags,
        opened at_ nofun⟩
    next =>
      exact ⟨ok.cray, ok.colors, ok.palette, ok.ready, ok.initialized,
        ok.looks.keep grows rfl rfl (by simp [Node.stale, at_, TxPc.picks]), flags,
        opened at_ nofun⟩
  | choosing k =>
    have flags := ok.flags
    rw [at_] at flags
    dsimp only
    split
    next =>
      exact ⟨ok.cray, by rw [List.length_set, ok.colors],
        set_palette ok.palette (pickColor_palette x.rngState), ok.ready, ok.initialized,
        ok.looks.keep grows rfl rfl (.inl (by simp [Node.stale, TxPc.picks])), flags,
        opened at_ nofun⟩
    next =>
      exact ⟨ok.cray, ok.colors, ok.palette, ok.ready, ok.initialized,
        ok.looks.keep grows rfl rfl (.inl (by simp [Node.stale, TxPc.picks])), flags,
        opened at_ nofun⟩
  | setDirty =>
    have flags := ok.flags
    rw [at_] at flags
    exact ⟨ok.cray, ok.colors, ok.palette, ok.ready, ok.initialized,
      ok.looks.keep grows rfl rfl (.inl (by simp [Node.stale])), flags, opened at_ nofun⟩
  | sending | sleeping | stopping =>
    have flags := ok.flags
    rw [at_] at flags
    exact ⟨ok.cray, ok.colors, ok.palette, ok.ready, ok.initialized,
      ok.looks.keep grows rfl rfl (by simp [Node.stale, at_, TxPc.picks]), flags,
      opened at_ nofun⟩
  | setFlag =>
    have flags := ok.flags
    rw [at_] at flags
    refine ⟨ok.cray, ok.colors, ok.palette, ok.ready, ok.initialized,
      ok.looks.keep grows rfl rfl (by simp [Node.stale, at_, TxPc.picks]), ?_,
      opened at_ nofun⟩
    change x.crayDone ||| 1 = 1 ||| x.disp.flag
    rw [flags, show TxPc.setFlag.flag = 0 from rfl, UInt32.zero_or, UInt32.or_comm]
  | done => exact ok

theorem shown_congr {g : Screen} {cells : Nat → UInt8} {s t : Display.State}
    (shown : Shown g cells s) (panel : t.panel = s.panel) : Shown g cells t := by
  intro y lower x inside
  rw [panel]
  exact shown y lower x inside

/-- Colours beyond the first `maxnodes` are not looked at. -/
theorem getD_take (vector : List UInt8) (k : Nat) :
    (vector.take c.maxnodes).getD (k % c.maxnodes) 0 = vector.getD (k % c.maxnodes) 0 := by
  have inside := Nat.mod_lt k c.pos
  rw [List.getD_eq_getElem?_getD, List.getD_eq_getElem?_getD, List.getElem?_take_of_lt inside]

/-- The block that a turn of the loop paints. -/
theorem turn_block {j : Nat} (below : j < c.maxnodes) (k : Nat) :
    (j + c.maxnodes * k) % c.maxnodes = j ∧ (j + c.maxnodes * k) / c.maxnodes = k := by
  constructor
  · rw [Nat.add_mul_mod_self_left, Nat.mod_eq_of_lt below]
  · rw [Nat.add_mul_div_left _ _ c.pos, Nat.div_eq_of_lt below, Nat.zero_add]

/-- The blocks of a node that have been painted all over. -/
theorem recolor_peers {front : Nat → UInt8} (peers : Peers announced i front) {j : Fin c.maxnodes}
    {rx : RxMsg} (sent : rx.colors.take c.maxnodes ∈ announced j) :
    Peers announced i
      (recolor c.maxnodes j (fun k => rx.colors.getD (k % c.maxnodes) 0) front) := by
  intro l other
  by_cases same : l = j
  · subst same
    refine ⟨_, .inr sent, fun b block owner => ?_⟩
    simp only [recolor, if_pos owner, getD_take]
  · obtain ⟨v, from_, wears⟩ := peers l other
    refine ⟨v, from_, fun b block owner => ?_⟩
    have elsewhere : ¬ b % c.maxnodes = j := fun eq => same (Fin.ext (owner.symm.trans eq))
    rw [recolor, if_neg elsewhere, wears b block owner]

/-- Blocks that another node owns keep their colours. -/
theorem recolor_own {front : Nat → UInt8} {j : Fin c.maxnodes} (other : j ≠ i)
    {colors : Nat → UInt8} {vector : List UInt8} (own : Wears c.maxnodes i vector front) :
    Wears c.maxnodes i vector (recolor c.maxnodes j colors front) := by
  intro b block owner
  have elsewhere : ¬ b % c.maxnodes = j := fun eq => other (Fin.ext (eq.symm.trans owner))
  rw [recolor, if_neg elsewhere, own b block owner]

/-- A turn of the loop that paints the own blocks. -/
theorem paint_own (ok : NodeOk c announced i x) {front cells : Nat → UInt8} {k : Nat}
    (at_ : x.disp = .painting none (i + c.maxnodes * k) k)
    (shown : Shown c.screen front x.display) (peers : Peers announced i front)
    (painted : Painted c.screen cells x.display)
    (others : ∀ b, b % c.maxnodes ≠ i → cells b = front b)
    (own : x.stale = true ∨ ∀ b < gridTotal, b % c.maxnodes = i → b / c.maxnodes < k →
      cells b = x.myColors.getD (b / c.maxnodes % c.maxnodes) 0) :
    NodeOk c announced i (dispStep c x) := by
  obtain ⟨cray, colors, palette, ready, initialized, -, flags, closed⟩ := ok
  have opened {P : Prop} (shut : x.sock = false) : P :=
    absurd (at_.symm.trans (closed shut).2) nofun
  rw [at_] at flags
  have block := turn_block i.isLt k
  simp only [dispStep, at_]
  split
  next more =>
    obtain ⟨d, drawn, ready', still, panel, painted'⟩ := drawBlock_call more
      (x.myColors.getD (k % c.maxnodes) 0) ready painted
    simp only [Node.draw, drawn]
    refine ⟨cray, colors, palette, ready', still.trans initialized, ?_, flags, opened⟩
    refine .own front _ (k + 1) (by rw [Nat.mul_succ, Nat.add_assoc]) (shown_congr shown panel) peers
      painted' (fun b owner => ?_) (own.imp_right fun own b inside owner early => ?_)
    · have elsewhere : b ≠ i + c.maxnodes * k := fun eq => owner (by rw [eq, block.1])
      rw [Function.update_of_ne elsewhere, others b owner]
    · -- the block of this turn, or one of an earlier turn
      by_cases here : b = i + c.maxnodes * k
      · rw [here, Function.update_self, block.2]
      · rw [Function.update_of_ne here]
        refine own b inside owner (Nat.lt_of_le_of_ne (Nat.le_of_lt_succ early) fun eq => here ?_)
        have parts := Nat.mod_add_div b c.maxnodes
        rw [owner, eq] at parts
        exact parts.symm
  next last =>
    refine ⟨cray, colors, palette, ready, initialized, ?_, flags, opened⟩
    refine .flushing front cells rfl shown peers painted (fun j other => ?_)
      (own.imp_right fun own b inside owner => own b inside owner ?_)
    · obtain ⟨v, from_, wears⟩ := peers j other
      refine ⟨v, from_, fun b inside owner => ?_⟩
      have elsewhere : b % c.maxnodes ≠ i := fun eq => other (Fin.ext (owner.symm.trans eq))
      rw [others b elsewhere, wears b inside owner]
    · -- the loop has ended past the last block
      apply Nat.lt_of_not_le
      intro late
      have parts := Nat.mod_add_div b c.maxnodes
      have := Nat.mul_le_mul_left c.maxnodes late
      omega

/-- A turn of the loop that paints the blocks of another node. -/
theorem paint_peer (ok : NodeOk c announced i x) {front : Nat → UInt8} {rx : RxMsg}
    {j : Fin c.maxnodes} (other : j ≠ i) (number : rx.numColors = c.maxnodes)
    (sent : rx.colors.take c.maxnodes ∈ announced j) {k : Nat}
    (at_ : x.disp = .painting (some rx) (j + c.maxnodes * k) k)
    (shown : Shown c.screen front x.display) (peers : Peers announced i front)
    (painted : Painted c.screen
      (repaint c.maxnodes j (fun k => rx.colors.getD (k % c.maxnodes) 0) k front) x.display)
    (own : x.stale = true ∨ Wears c.maxnodes i x.myColors front) :
    NodeOk c announced i (dispStep c x) := by
  obtain ⟨cray, colors, palette, ready, initialized, -, flags, closed⟩ := ok
  have opened {P : Prop} (shut : x.sock = false) : P :=
    absurd (at_.symm.trans (closed shut).2) nofun
  rw [at_] at flags
  have count : rx.numColors.toNat = c.maxnodes := by rw [number, Int.toNat_natCast]
  simp only [dispStep, at_, count]
  split
  next more =>
    obtain ⟨d, drawn, ready', still, panel, painted'⟩ := drawBlock_call more
      (rx.colors.getD (k % c.maxnodes) 0) ready painted
    rw [update_repaint (fun k => rx.colors.getD (k % c.maxnodes) 0) j.isLt k] at painted'
    simp only [Node.draw, drawn]
    exact ⟨cray, colors, palette, ready', still.trans initialized,
      .peer front rx j other number sent (k + 1) (by rw [Nat.mul_succ, Nat.add_assoc])
        (shown_congr shown panel) peers painted' own, flags, opened⟩
  next last =>
    -- all blocks of `j` have the colours of the message now
    exact ⟨cray, colors, palette, ready, initialized,
      .flushing front _ rfl shown peers
        (painted.congr fun b inside => repaint_all (Nat.le_of_not_lt last) inside)
        (recolor_peers peers sent) (own.imp_right (recolor_own other)), flags, opened⟩

/-- The step of `cray_disp_thread` that takes a message. -/
theorem receiving_ok (ok : NodeOk c announced i x) (at_ : x.disp = .receiving)
    {cells : Nat → UInt8} (painted : Painted c.screen cells x.display)
    (shown : Shown c.screen cells x.display) (peers : Peers announced i cells)
    (own : x.stale = true ∨ Wears c.maxnodes i x.myColors cells) :
    NodeOk c announced i (dispStep c x) := by
  obtain ⟨cray, colors, palette, ready, initialized, -, flags, closed⟩ := ok
  have opened {P : Prop} (shut : x.sock = false) : P :=
    absurd (at_.symm.trans (closed shut).2) nofun
  rw [at_] at flags
  simp only [dispStep, at_]
  split
  next =>
    exact ⟨cray, colors, palette, ready, initialized, .still cells rfl painted shown peers own, flags,
      opened⟩
  next filled =>
    -- the message is one that a node has sent, as all that are queued
    obtain ⟨queue, contents⟩ := cray.queue.get (Nat.pos_of_ne_zero filled)
    have messages := cray.messages
    rw [contents, List.forall_mem_cons] at messages
    obtain ⟨j, other, v, sent, sender, number, read⟩ := messages.1
    refine ⟨⟨cray.nodeid, cray.maxnodes, queue, cray.size, messages.2⟩, colors, palette, ready,
      initialized, ?_, flags, opened⟩
    refine .peer cells _ j other number (by rw [read]; exact sent) 0 ?_ shown peers ?_ own
    · rw [sender, Int.toNat_natCast]
      rfl
    · rwa [repaint_zero]

/-- The first step of a flush. -/
theorem flushing_ok (ok : NodeOk c announced i x) {front cells : Nat → UInt8}
    (at_ : x.disp = .flushing) (shown : Shown c.screen front x.display) (peers : Peers announced i front)
    (painted : Painted c.screen cells x.display) (drawn : Peers announced i cells)
    (own : x.stale = true ∨ Wears c.maxnodes i x.myColors cells) :
    NodeOk c announced i (dispStep c x) := by
  obtain ⟨cray, colors, palette, ready, initialized, -, flags, closed⟩ := ok
  have opened {P : Prop} (shut : x.sock = false) : P :=
    absurd (at_.symm.trans (closed shut).2) nofun
  rw [at_] at flags
  simp only [dispStep, at_]
  split
  next clean =>
    have now := flush_clean ready initialized painted clean
    exact ⟨cray, colors, palette, ready, initialized, .still cells rfl painted now drawn own, flags,
      opened⟩
  next dirty =>
    obtain ⟨ready', painted', sending, shown'⟩ := flush_starts ready initialized painted shown
      (Nat.le_of_not_lt dirty)
    have initialized' := (flushWindow_initialized (g := c.screen.toGeometry) x.display).trans initialized
    generalize flushWindow c.screen.toGeometry x.display = d at *
    exact ⟨cray, colors, palette, ready', initialized',
      .sendingRow front cells _ rfl sending shown' peers painted' drawn own, flags, opened⟩

/-- A turn of its loop, or its end. -/
theorem sendingRow_ok (ok : NodeOk c announced i x) {front cells : Nat → UInt8} {y : Nat}
    (at_ : x.disp = .sendingRow y) (sending : Sending c.screen.toGeometry y x.display)
    (shown : ShownTo c.screen cells front y x.display) (peers : Peers announced i front)
    (painted : Painted c.screen cells x.display) (drawn : Peers announced i cells)
    (own : x.stale = true ∨ Wears c.maxnodes i x.myColors cells) :
    NodeOk c announced i (dispStep c x) := by
  obtain ⟨cray, colors, palette, ready, initialized, -, flags, closed⟩ := ok
  have opened {P : Prop} (shut : x.sock = false) : P :=
    absurd (at_.symm.trans (closed shut).2) nofun
  rw [at_] at flags
  simp only [dispStep, at_]
  split
  next more =>
    obtain ⟨ready', painted', sending', shown'⟩ := flush_row ready painted sending shown more
    have initialized' := (flushRow_initialized (g := c.screen.toGeometry) y x.display).trans initialized
    generalize flushRow c.screen.toGeometry y x.display = d at *
    exact ⟨cray, colors, palette, ready', initialized',
      .sendingRow front cells _ rfl sending' shown' peers painted' drawn own, flags, opened⟩
  next last =>
    obtain ⟨ready', shown'⟩ := flush_ends ready initialized painted sending shown last
    exact ⟨cray, colors, palette, ready', initialized, .still cells rfl painted shown' drawn own,
      flags, opened⟩

theorem dispStep_ok (ok : NodeOk c announced i x) : NodeOk c announced i (dispStep c x) := by
  cases ok.looks with
  | own front cells k at_ shown peers painted others own =>
    exact paint_own ok at_ shown peers painted others own
  | peer front rx j other number sent k at_ shown peers painted own =>
    exact paint_peer ok other number sent at_ shown peers painted own
  | flushing front cells at_ shown peers painted drawn own =>
    exact flushing_ok ok at_ shown peers painted drawn own
  | sendingRow front cells y at_ sending shown peers painted drawn own =>
    exact sendingRow_ok ok at_ sending shown peers painted drawn own
  | still cells at_ painted shown peers own =>
    cases here : x.disp with
    | receiving => exact receiving_ok ok here painted shown peers own
    | painting | flushing | sendingRow =>
      rw [here] at at_
      cases at_
    | clearDirty =>
      -- the colours that were picked are the ones to be painted: they are no longer stale
      obtain ⟨cray, colors, palette, ready, initialized, -, flags, closed⟩ := ok
      rw [here] at flags
      simp only [dispStep, here]
      refine ⟨cray, colors, palette, ready, initialized, ?_, flags,
        fun shut => absurd (here.symm.trans (closed shut).2) nofun⟩
      refine .own cells cells 0 ?_ shown peers painted (fun _ _ => rfl) (.inr fun _ _ _ none => ?_)
      · rw [cray.nodeid, Int.toNat_natCast]
        rfl
      · exact absurd none (Nat.not_lt_zero _)
    | check | testDirty =>
      obtain ⟨cray, colors, palette, ready, initialized, -, flags, closed⟩ := ok
      rw [here] at flags
      simp only [dispStep, here]
      refine ⟨cray, colors, palette, ready, initialized, .still cells ?_ painted shown peers own, ?_,
        fun shut => absurd (here.symm.trans (closed shut).2) nofun⟩
      · dsimp only
        split <;> rfl
      · dsimp only
        rw [flags]
        split <;> rfl
    | sleeping =>
      obtain ⟨cray, colors, palette, ready, initialized, -, flags, closed⟩ := ok
      rw [here] at flags
      simp only [dispStep, here]
      exact ⟨cray, colors, palette, ready, initialized, .still cells rfl painted shown peers own,
        flags, fun shut => absurd (here.symm.trans (closed shut).2) nofun⟩
    | setFlag =>
      obtain ⟨cray, colors, palette, ready, initialized, -, flags, closed⟩ := ok
      rw [here] at flags
      simp only [dispStep, here]
      refine ⟨cray, colors, palette, ready, initialized, .still cells rfl painted shown peers own, ?_,
        fun shut => absurd (here.symm.trans (closed shut).2) nofun⟩
      change x.crayDone ||| 2 = x.tx.flag ||| 2
      rw [flags, show DispPc.setFlag.flag = 0 from rfl, UInt32.or_zero]
    | done =>
      simp only [dispStep, here]
      exact ok

theorem flags_both {tx : TxPc} {disp : DispPc}
    (both : flagsSatisfied (tx.flag ||| disp.flag) 3 true = true) : tx = .done ∧ disp = .done := by
  have first : tx = .done ∨ tx.flag = 0 := by
    cases tx <;> simp [TxPc.flag]
  have second : disp = .done ∨ disp.flag = 0 := by
    cases disp <;> simp [DispPc.flag]
  rcases first with rfl | none <;> rcases second with rfl | none'
  · exact ⟨rfl, rfl⟩
  · rw [none'] at both
    exact absurd both (by decide)
  · rw [none] at both
    exact absurd both (by decide)
  · rw [none, none'] at both
    exact absurd both (by decide)

/-- The socket is closed once both threads have set their flags. -/
theorem mainStep_ok (ok : NodeOk c announced i x) : NodeOk c announced i (mainStep x) := by
  unfold mainStep
  split
  next both =>
    obtain ⟨cray, colors, palette, ready, initialized, looks, flags, closed⟩ := ok
    rw [flags] at both
    refine ⟨cray, colors, palette, ready, initialized, ?_, flags, fun _ => flags_both both⟩
    refine looks.keep (fun _ _ member => member) rfl rfl ?_
    cases stale : x.stale
    · exact .inr ⟨rfl, rfl⟩
    · exact .inl stale
  next => exact ok

end

/-! ### Steps of the cluster -/

section
variable {c : Config} {s : State c.maxnodes}

/-- What a node sends is the message of the colours it has. -/
theorem sends_wire (inv : Inv c s) {i : Fin c.maxnodes} {err : Bool} {msg : Mem msgMax}
    {payload : List UInt8} (h : sends c s i err msg = some payload) :
    payload = wire (i : Nat) ((s.node i).myColors.take c.maxnodes) := by
  have ok := inv.node i
  have count : ((s.node i).myColors.take c.maxnodes).length = c.maxnodes := by
    rw [List.length_take, ok.colors]
    exact Nat.min_eq_left c.atMost
  obtain ⟨sent, built, -, read⟩ := encode_wire ((s.node i).myColors.drop c.maxnodes) count c.atMost
    i.isLt msg.2
  rw [List.take_append_drop] at built
  unfold sends at h
  split at h
  next =>
    rw [ok.cray.nodeid, built] at h
    exact Option.some.inj (h.symm.trans read)
  next => cases h

/-- A step of one node. -/
theorem Inv.node_step (inv : Inv c s) {i : Fin c.maxnodes} {x : Node}
    (ok : NodeOk c s.announced i x) : Inv c { s with node := Function.update s.node i x } := by
  refine ⟨inv.network, inv.announced, fun l => ?_⟩
  by_cases same : l = i
  · subst same
    simpa using ok
  · simpa [same] using inv.node l

theorem step_inv (inv : Inv c s) (e : Event c.maxnodes) : Inv c (step c s e) := by
  cases e with
  | tx i up err msg =>
    have stepped := inv.node_step (txStep_ok (inv.node i) up)
    simp only [step]
    cases sent : sends c s i err msg with
    | none => exact stepped
    | some payload =>
      -- what is known of earlier messages stays true
      have grows (j : Fin c.maxnodes) : ∀ v ∈ s.announced j, v ∈ Function.update s.announced i
          (s.announced i ++ [(s.node i).myColors.take c.maxnodes]) j := by
        intro v member
        by_cases same : j = i
        · subst same
          simp [member]
        · simpa [same] using member
      have own : (s.node i).myColors.take c.maxnodes ∈ Function.update s.announced i
          (s.announced i ++ [(s.node i).myColors.take c.maxnodes]) i := by simp
      refine ⟨fun p member => ?_, fun j v member => ?_, fun l => (stepped.node l).mono grows⟩
      · rcases List.mem_append.mp member with earlier | now
        · obtain ⟨j, v, announced, text⟩ := inv.network p earlier
          exact ⟨j, v, grows j v announced, text⟩
        · rw [List.mem_singleton] at now
          exact ⟨i, _, own, now.trans (sends_wire inv sent)⟩
      · by_cases same : j = i
        · subst same
          simp only [Function.update_self, List.mem_append, List.mem_singleton] at member
          rcases member with earlier | rfl
          · exact inv.announced j v earlier
          · refine ⟨?_, (inv.node j).palette⟩
            rw [List.length_take, (inv.node j).colors]
            exact Nat.min_eq_left c.atMost
        · simp only [Function.update_of_ne same] at member
          exact inv.announced j v member
  | disp i => exact inv.node_step (dispStep_ok (inv.node i))
  | deliver i k buf m =>
    simp only [step]
    split
    next payload at_ =>
      -- any datagram on the network, early, late or once more
      obtain ⟨j, v, sent, rfl⟩ := inv.network payload (List.mem_of_getElem? at_)
      obtain ⟨count, -⟩ := inv.announced j v sent
      rw [receive_reads _ count c.atMost j.isLt buf.2]
      split
      next =>
        obtain ⟨cray, colors, palette, ready, initialized, looks, flags, closed⟩ := inv.node i
        refine inv.node_step ⟨cray.receive c.atMost sent count m, colors, palette, ready, initialized,
          looks.keep (fun _ _ member => member) rfl rfl ?_, flags, closed⟩
        cases stale : (s.node i).stale
        · exact .inr ⟨rfl, rfl⟩
        · exact .inl stale
      next => exact inv
    next => exact inv
  | main i => exact inv.node_step (mainStep_ok (inv.node i))

end

/-! ### The start -/

theorem pickColors_succ (k : Nat) (rngState : UInt32) (colors : List UInt8) :
    (pickColors (k + 1) rngState colors).2 =
      (pickColors k rngState colors).2.set k (pickColor (pickColors k rngState colors).1).2 := by
  simp [pickColors, List.range_succ, List.foldl_append]

/-- The slots that have been filled have colours of the palette. -/
theorem pickColors_palette (k : Nat) (rngState : UInt32) (colors : List UInt8) :
    (pickColors k rngState colors).2.length = colors.length ∧
      ∀ d ∈ (pickColors k rngState colors).2.take k, d ∈ colorPalette := by
  induction k with
  | zero => simp [pickColors]
  | succ k ih =>
    rw [pickColors_succ]
    refine ⟨by rw [List.length_set, ih.1], fun d member => ?_⟩
    obtain ⟨j, inside, rfl⟩ := List.mem_take_iff_getElem.mp member
    rw [List.length_set] at inside
    by_cases last : j = k
    · subst last
      simpa using pickColor_palette _
    · rw [List.getElem_set_ne (Ne.symm last)]
      exact ih.2 _ (List.mem_take_iff_getElem.mpr ⟨j, by omega, rfl⟩)

theorem Boot.node_ok (c : Config) (boot : Boot) (i : Fin c.maxnodes) :
    NodeOk c (fun _ => []) i (boot.node c i) := by
  obtain ⟨length, palette⟩ := pickColors_palette c.maxnodes boot.seed boot.old
  generalize picked : (pickColors c.maxnodes boot.seed boot.old).2 = colors at length palette
  obtain ⟨d, opened, ready, -⟩ := (powerOn_ready c.screen.toGeometry boot.panel).calls boot.before
  obtain ⟨t, drawn, ready, initialized, painted, shown⟩ := drawInitialGrid_calls i.isLt boot.gram
    colors ready
  -- the calls before the grid, then those of the grid
  have drawn_all : (powerOn c.screen.toGeometry boot.panel).calls c.screen.toGeometry
      (boot.before ++ drawInitialGrid c.screen boot.gram c.maxnodes i
        (pickColors c.maxnodes boot.seed boot.old).2) = some t := by
    rw [picked, calls_append, opened, Option.bind_some, drawn]
  have display : (boot.node c i).display = t := by
    simp only [Boot.node, drawn_all, Option.getD_some]
  have own : (boot.node c i).myColors = colors := picked
  have empty : (mqueueInit 24).Ok := ⟨by decide, by decide, by decide⟩
  have contents : (mqueueInit 24).contents = [] := by
    apply List.length_eq_zero_iff.mp
    rw [Kernel.Mqueue.length_contents]
    rfl
  rw [← display] at ready initialized painted shown
  refine ⟨⟨rfl, rfl, empty, rfl, fun bytes member => ?_⟩, by rw [own, length, boot.old.2],
    by rw [own]; exact palette, ready, initialized, ?_, show (0 : UInt32) = 0 ||| 0 by decide, nofun⟩
  · rw [show (boot.node c i).cray.rxMq.contents = [] from contents] at member
    cases member
  · refine .still _ rfl painted shown (fun j other => ⟨_, .inl rfl, fun b block owner => ?_⟩)
      (.inr fun b block owner => ?_)
    · have elsewhere : ¬ b % c.maxnodes = i := fun same => other (Fin.ext (owner.symm.trans same))
      have inside := Nat.mod_lt (b / c.maxnodes) c.pos
      rw [recolor, if_neg elsewhere, List.getD_eq_getElem _ _ (by simpa using inside)]
      simp
    · rw [recolor, if_pos owner, own]

theorem start_inv (c : Config) (boot : Fin c.maxnodes → Boot) : Inv c (start c boot) :=
  ⟨by simp [start], by simp [start], fun i => (boot i).node_ok c i⟩

/-! ### What the panels show -/

/-- What a node of the cluster shows and sends. -/
structure Sound (c : Config) (s : State c.maxnodes) (i : Fin c.maxnodes) : Prop where
  /-- The panel shows the lines and one colour for each block: a picture, or in the loop of a flush the
  new one above the row that is sent next and the old one from there on. In a picture the blocks of
  another node are black or have the colours of one and the same message of it; the own blocks have
  the own colours, but while these are being picked or drawn. -/
  panel : ∃ front cells y, ShownTo c.screen cells front y (s.node i).display ∧
    Peers s.announced i front ∧ Peers s.announced i cells ∧
    (front = cells ∨ (s.node i).disp = .sendingRow y) ∧
    ((s.node i).disp.still = true → (s.node i).stale = false →
      Wears c.maxnodes i (s.node i).myColors cells)
  /-- What it has sent is a colour of the palette for each node. -/
  sent : ∀ v ∈ s.announced i, v.length = c.maxnodes ∧ ∀ color ∈ v, color ∈ colorPalette
  /-- The socket is closed only after both threads. -/
  closed : (s.node i).sock = false → (s.node i).tx = .done ∧ (s.node i).disp = .done

theorem Inv.sound {c : Config} {s : State c.maxnodes} (inv : Inv c s) (i : Fin c.maxnodes) :
    Sound c s i := by
  have ok := inv.node i
  refine ⟨?_, inv.announced i, ok.closed⟩
  cases ok.looks with
  | still cells _ _ shown peers own =>
    refine ⟨cells, cells, 0, shown.shownTo 0, peers, peers, .inl rfl, fun _ fresh => own.resolve_left ?_⟩
    rw [fresh]
    exact Bool.false_ne_true
  | own front _ _ at_ shown peers | peer front _ _ _ _ _ _ at_ shown peers
  | flushing front _ at_ shown peers =>
    refine ⟨front, front, 0, shown.shownTo 0, peers, peers, .inl rfl, fun still => ?_⟩
    rw [at_] at still
    cases still
  | sendingRow front cells y at_ _ shown peers _ drawn =>
    refine ⟨front, cells, y, shown, peers, drawn, .inr at_, fun still => ?_⟩
    rw [at_] at still
    cases still

/-- Whatever order the threads of all nodes run in, and whichever datagrams are lost, repeated or
late: every panel shows at all times a picture, or in a flush one above the other, in which the blocks
of each other node are black or have the colours of one message that this node has sent; and its own
colours, once they are picked and drawn. -/
theorem cluster_shows_announced (c : Config) (boot : Fin c.maxnodes → Boot)
    (es : List (Event c.maxnodes)) (i : Fin c.maxnodes) :
    Sound c (Run.exec (step c) (start c boot) es) i :=
  (Run.exec_invariant (I := Inv c) (fun _ e inv => step_inv inv e) (start_inv c boot) es).sound i

end PicoOS.Apps.Cluster
