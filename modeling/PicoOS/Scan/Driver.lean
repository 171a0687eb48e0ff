import PicoOS.Scan.Buffer

/-!
# Continuous scanning

The part of `wifi.c` and `bluetooth.c` that starts, stops and polls continuous
scans and waits for their windows. The two files share one scheme and differ
where `Radio` says so. A thread takes one step at a time, on whatever core it
is on by then; `g_cont_lock` is owned by a thread and the async context lock by
a core, so a second thread of the same core can enter that one. The radio's
callback runs while nobody holds it.
-/
namespace PicoOS.Scan

inductive Radio where
  | wifi
  | bt
  deriving DecidableEq

abbrev Core := Fin 2

instance neZeroCores : NeZero 2 := ⟨by decide⟩
instance neZeroThree : NeZero 3 := ⟨by decide⟩

def contEvReady : UInt32 := 1
def contEvStop : UInt32 := 2

/-- The values of `wifi_state_t` and `bt_state_t`. -/
inductive RadioState where
  | off
  | idle
  | down
  | scanning
  | connecting
  | up
  | error
  deriving DecidableEq

namespace Radio

def cap : Radio → Nat
  | wifi => 16
  | bt => 20

def errBusy : Radio → Int
  | wifi => -7
  | bt => -2

def errNoMem : Radio → Int
  | wifi => -3
  | bt => -4

def errStopped : Radio → Int
  | wifi => -8
  | bt => -5

/-- `BT_ERR_NOTREADY`. -/
def errNotReady : Int := -3

/-- `WIFI_WINDOW_MAX_MS` and `BT_WINDOW_MS`. -/
def windowMs : Radio → UInt32
  | wifi => 1000
  | bt => 1000

/-- `BT_INQUIRY_PERIOD_MS`, in microseconds. -/
def inquiryPeriodUs : UInt64 := 10240 * 1000

/-- The state of the radio when no scan runs. -/
def rest : Radio → RadioState
  | wifi => .down
  | bt => .idle

end Radio

/-- A driver: its result type, what its callback is given, and what the callback does to the list
it writes. -/
structure Driver where
  radio : Radio
  Item : Type
  Report : Type
  store : ScanList Item → Report → Option (Store Item)

/-! ### Dwell times -/

/-- `wifi_dwell_t`, named by its GET ioctl. -/
structure Dwell where
  get : UInt32
  fast : UInt32
  saved : UInt32
  valid : Bool
  deriving DecidableEq

/-- `g_dwell` before the first start. -/
def dwellTable : List Dwell :=
  [⟨184, 25, 0, false⟩, ⟨186, 25, 0, false⟩, ⟨257, 60, 0, false⟩]

/-- The firmware's dwell times by GET ioctl, and which ioctls succeed. -/
structure Firmware where
  dwell : UInt32 → UInt32

/-- `wlc_set_u32(get + 1, val)`. -/
def Firmware.set (fw : Firmware) (ok : UInt32 → Bool) (get val : UInt32) : Firmware :=
  if ok (get + 1) then { fw with dwell := Function.update fw.dwell get val } else fw

/-- `dwell_fast`. -/
def dwellFast (ok : UInt32 → Bool) : List Dwell → Firmware → List Dwell × Firmware
  | [], fw => ([], fw)
  | g :: gs, fw =>
    let saved := if ok g.get then fw.dwell g.get else 0
    let fw := if ok g.get then fw.set ok g.get g.fast else fw
    let (gs, fw) := dwellFast ok gs fw
    ({ g with saved := saved, valid := ok g.get } :: gs, fw)

/-- `dwell_restore`. -/
def dwellRestore (ok : UInt32 → Bool) : List Dwell → Firmware → List Dwell × Firmware
  | [], fw => ([], fw)
  | g :: gs, fw =>
    let fw := if g.valid then fw.set ok g.get g.saved else fw
    let (gs, fw) := dwellRestore ok gs fw
    ({ g with valid := false } :: gs, fw)

/-! ### Threads -/

/-- Where `cont_stop_locked` returns to. -/
inductive StopCaller where
  | start (listen : Bool)
  | noListener
  | stop
  | poll
  deriving DecidableEq

/-- The point a thread has reached, named after the function it is in. -/
inductive Pc where
  /-- Outside the driver. -/
  | user
  -- *_scan_start; `listen` when it was given a callback
  | startLock (listen : Bool)
  | startOwner (listen : Bool)
  | startBusy (listen : Bool)
  | startBegin (listen : Bool)
  | startCheck (listen : Bool)
  | startReset (listen : Bool)
  | startDwell (listen : Bool)
  | startRadio (listen : Bool)
  | startArm (listen : Bool)
  | startClear (listen : Bool)
  | startEnd (listen : Bool)
  | startListen
  | startFailed (rc : Int)
  -- cont_stop_locked
  | stopBegin (k : StopCaller)
  | stopClear (k : StopCaller)
  | stopEnd (k : StopCaller)
  | stopSet (k : StopCaller)
  -- *_scan_stop, with the one-shot part of bt_scan_stop
  | stopLock
  | stopTest
  | oneShotBegin
  | oneShotStop
  | oneShotEnd
  -- *_scan_wait
  | waitFlags
  | waitLock
  | waitClear
  | waitTake
  | waitUnlock (running took : Bool) (held : UInt8)
  -- the end of *_listen_thread
  | listenLock
  | listenClear
  | listenUnlock
  -- wifi_poll_thread before cont_poll, then cont_poll and bt_scan_poll
  | linkBegin
  | linkCheck
  | linkEnd
  | pollCheck
  | pollLock
  | pollOwner
  | pollNow
  | pollBegin (now : UInt64)
  | pollPass (now : UInt64)
  | pollPublish (now : UInt64) (active ended : Bool)
  | pollRestart (active published : Bool)
  | pollEnd (published : Bool)
  | pollUnlock (published : Bool)
  | pollSet
  -- wifi_scan and bt_scan
  | scanBegin
  | scanCheck
  | scanReset
  | scanRadio
  | scanEnd (rc : Int)
  /-- Before the `kmutex_unlock` that a call returns after. -/
  | unlock (rc : Int)
  deriving DecidableEq

structure Thread where
  pc : Pc
  alive : Bool
  /-- It runs `*_listen_thread`. -/
  listener : Bool
  /-- The list that its last `*_scan_wait` returned: its own until the next call. -/
  list : Option UInt8
  /-- What its last call returned. -/
  ret : Int
  deriving DecidableEq

def Thread.goto (t : Thread) (pc : Pc) : Thread := { t with pc := pc }

def Thread.return (t : Thread) (rc : Int) : Thread := { t with pc := .user, ret := rc }

/-! ### Shared state -/

/-- The statics of a driver, the radio and the async context lock. `T` names the threads. -/
structure Shared (d : Driver) (T : Type) where
  buf : Buffers d.Item
  /-- The owner of `g_cont_lock`. -/
  lock : Option T
  /-- `g_cont_ev`. -/
  ev : UInt32
  cont : Bool
  /-- `g_pass_cont`, `g_tgt_cont`. -/
  passCont : Bool
  passRunning : Bool
  inqActive : Bool
  inqStartUs : UInt64
  windowStartUs : UInt64
  ownerPid : UInt32
  /-- `g_listen_tid`, `none` for 0. -/
  listen : Option T
  /-- `g_state`. -/
  state : RadioState
  /-- `g_scan` and `g_scan_count`. -/
  scan : ScanList d.Item
  scanDone : Bool
  dwell : List Dwell
  fw : Firmware
  /-- `cyw43_wifi_scan_active`. -/
  active : Bool
  /-- The core that holds the async context lock, and how often. -/
  async : Option (Core × Nat)
  now : UInt64
  /-- The live processes. -/
  procs : UInt32 → Bool

/-- What code outside the drivers does in a step: the result of starting the radio, which ioctls
succeed, whether the link is up, and the thread that `task_create_thread` makes. -/
structure Outcome (T : Type) where
  rc : Int
  ioctl : UInt32 → Bool
  linkUp : Bool
  thread : Option T

section
variable {d : Driver} {T : Type} (s : Shared d T)

/-- `cyw43_arch_lwip_begin`; `none` while the other core holds the lock. -/
def asyncBegin (c : Core) : Option (Shared d T) :=
  match s.async with
  | none => some { s with async := some (c, 1) }
  | some (owner, n) => if owner = c then some { s with async := some (c, n + 1) } else none

/-- `cyw43_arch_lwip_end`. -/
def asyncEnd : Shared d T :=
  match s.async with
  | some (owner, n + 2) => { s with async := some (owner, n + 1) }
  | _ => { s with async := none }

/-- `owner_gone`. -/
def ownerGone : Bool := !s.procs s.ownerPid

def eventFlagsSet (mask : UInt32) : Shared d T := { s with ev := s.ev ||| mask }

def eventFlagsClear (mask : UInt32) : Shared d T := { s with ev := s.ev &&& ~~~mask }

/-- The reset of `*_scan_start`. -/
def startReset : Shared d T :=
  let s := { s with buf := s.buf.start, passCont := true }
  match d.radio with
  | .wifi => s
  | .bt => { s with state := .scanning }

/-- Start the radio in `*_scan_start`: a WiFi pass, unless one is under way, or an inquiry. -/
def startRadio (rc : Int) : Shared d T × Int :=
  match d.radio with
  | .wifi =>
    if s.active then
      (s, 0)
    else if rc ≠ 0 then
      (s, rc)
    else
      ({ s with active := true, passRunning := true }, 0)
  | .bt => ({ s with inqActive := rc = 0, inqStartUs := s.now }, 0)

/-- The state that makes a session run. -/
def startArm (me : UInt32) : Shared d T :=
  { s with
    windowStartUs := s.now
    ownerPid := me
    cont := true }

/-- The locked part of `cont_stop_locked`. -/
def contStop (ok : UInt32 → Bool) : Shared d T :=
  if s.cont then
    let s := { s with cont := false }
    match d.radio with
    | .wifi =>
      let (dwell, fw) := dwellRestore ok s.dwell s.fw
      { s with dwell := dwell, fw := fw }
    | .bt => { s with state := if s.state = .scanning then .idle else s.state }
  else s

/-- The pass or the inquiry in a poll: whether a WiFi pass has ended, and a due inquiry. -/
def pollPass (now : UInt64) (rc : Int) : Shared d T × Bool :=
  match d.radio with
  | .wifi =>
    let ended := s.passRunning && !s.active
    ({ s with passRunning := s.passRunning && !ended }, ended)
  | .bt =>
    if !s.inqActive && Radio.inquiryPeriodUs ≤ now - s.inqStartUs && rc = 0 then
      ({ s with inqActive := true, inqStartUs := now }, false)
    else
      (s, false)

/-- Whether a poll publishes a window. -/
def publishes (now : UInt64) (ended : Bool) : Bool :=
  s.cont && (ended || d.radio.windowMs ≤ ((now - s.windowStartUs) / 1000).toUInt32)

/-- The window is published. -/
def pollPublish (now : UInt64) : Shared d T :=
  { s with
    buf := s.buf.publish ((now - s.windowStartUs) / 1000).toUInt32
    windowStartUs := now }

/-- The next WiFi pass. -/
def pollRestart (active : Bool) (rc : Int) : Shared d T :=
  match d.radio with
  | .wifi =>
    if s.cont && !active then
      if rc = 0 then
        { s with passCont := true, passRunning := true, active := true }
      else
        { s with passCont := true }
    else s
  | .bt => s

/-- `wifi_poll_thread` before `cont_poll`. -/
def linkCheck (linkUp : Bool) : Shared d T :=
  let s := if s.state = .scanning && !s.active then { s with scanDone := true, state := .down } else s
  if s.state = .up && !linkUp then { s with state := .down } else s

/-- The checks of `wifi_scan` and `bt_scan`: an error code, or 0. -/
def scanCheck : Int :=
  match d.radio with
  | .wifi => if s.cont || s.active then d.radio.errBusy else 0
  | .bt => if s.state = .off || s.state = .scanning || s.cont then -1 else 0

def scanReset : Shared d T :=
  { s with
    passCont := false
    scan := { s.scan with count := 0 }
    scanDone := false }

/-- The radio in `wifi_scan` and `bt_scan`. -/
def scanRadio (rc : Int) : Shared d T × Int :=
  match d.radio with
  | .wifi =>
    if rc = 0 then
      ({ s with active := true, state := .scanning }, rc)
    else
      ({ s with state := .down }, rc)
  | .bt => ({ s with state := .scanning, inqActive := rc = 0 }, 0)

/-- The one-shot part of `bt_scan_stop`. -/
def oneShotStop : Shared d T :=
  if s.state = .scanning then { s with scanDone := true, state := .idle } else s

/-- The checks of `*_scan_start` under the async context lock: an error code, or 0. -/
def startCheck : Int :=
  match d.radio with
  | .wifi => if s.state = .scanning || (s.active && !s.passCont) then d.radio.errBusy else 0
  | .bt =>
    if s.state = .off || s.state = .error then Radio.errNotReady
    else if s.state = .scanning then d.radio.errBusy
    else 0

/-- The fast dwell times, on WiFi. -/
def startDwell (ok : UInt32 → Bool) : Shared d T :=
  match d.radio with
  | .wifi =>
    let (dwell, fw) := dwellFast ok s.dwell s.fw
    { s with dwell := dwell, fw := fw }
  | .bt => s

/-- A start whose radio refuses puts the dwell times back. -/
def startFailed (ok : UInt32 → Bool) : Shared d T :=
  let (dwell, fw) := dwellRestore ok s.dwell s.fw
  { s with dwell := dwell, fw := fw }

end

/-! ### Steps -/

/-- After `cont_stop_locked`. -/
def StopCaller.resume : StopCaller → Radio → Pc
  | start listen, _ => .startBusy listen
  | noListener, r => .unlock r.errNoMem
  | stop, _ => .unlock 0
  | poll, _ => .pollNow

section
variable {d : Driver} {T : Type} [DecidableEq T]

/-- The system: the shared state and every thread. `pid` is the process a thread belongs to. -/
structure System (d : Driver) (T : Type) where
  sh : Shared d T
  thread : T → Thread
  pid : T → UInt32

/-- `listener_alive`. -/
def listenerAlive (m : System d T) : Bool :=
  match m.sh.listen with
  | none => false
  | some t => (m.thread t).alive

/-- `kmutex_lock(&g_cont_lock)`, which waits while another thread holds it. -/
def kmutexLock (s : Shared d T) (t : T) : Option (Shared d T) :=
  if s.lock.isNone then some { s with lock := some t } else none

/-- A step of thread `t`: the shared state, the thread, and a new listener thread. `none` while it
waits for a lock or an event. -/
def threadStep (m : System d T) (t : T) (c : Core) (o : Outcome T) :
    Option (Shared d T × Thread × Option T) :=
  let s := m.sh
  let v := m.thread t
  match v.pc with
  | .user => none
  | .startLock l => (kmutexLock s t).map fun s => (s, v.goto (.startOwner l), none)
  | .startOwner l =>
    some (s, v.goto (if s.cont && ownerGone s then .stopBegin (.start l) else .startBusy l), none)
  | .startBusy l =>
    some (s, v.goto (if s.cont || listenerAlive m then .unlock d.radio.errBusy else .startBegin l),
      none)
  | .startBegin l => (asyncBegin s c).map fun s => (s, v.goto (.startCheck l), none)
  | .startCheck l =>
    if startCheck s ≠ 0 then
      some (asyncEnd s, v.goto (.unlock (startCheck s)), none)
    else
      some (s, v.goto (.startReset l), none)
  | .startReset l => some (startReset s, v.goto (.startDwell l), none)
  | .startDwell l => some (startDwell s o.ioctl, v.goto (.startRadio l), none)
  | .startRadio l =>
    let (s, rc) := startRadio s o.rc
    some (s, v.goto (if rc ≠ 0 then .startFailed rc else .startArm l), none)
  | .startFailed rc => some (asyncEnd (startFailed s o.ioctl), v.goto (.unlock rc), none)
  | .startArm l => some (startArm s (m.pid t), v.goto (.startClear l), none)
  | .startClear l => some (eventFlagsClear s (contEvReady ||| contEvStop), v.goto (.startEnd l), none)
  | .startEnd l => some (asyncEnd s, v.goto (if l then .startListen else .unlock 0), none)
  | .startListen =>
    match o.thread with
    | some u =>
      -- A new thread in the caller's process; a thread that died in the driver is not one.
      if m.pid u = m.pid t && !(m.thread u).alive && (m.thread u).pc = .user && s.procs (m.pid t) then
        some ({ s with listen := some u }, v.goto (.unlock 0), some u)
      else none
    | none => some (s, v.goto (.stopBegin .noListener), none)
  | .stopBegin k => (asyncBegin s c).map fun s => (s, v.goto (.stopClear k), none)
  | .stopClear k => some (contStop s o.ioctl, v.goto (.stopEnd k), none)
  | .stopEnd k => some (asyncEnd s, v.goto (.stopSet k), none)
  | .stopSet k => some (eventFlagsSet s contEvStop, v.goto (k.resume d.radio), none)
  | .stopLock => (kmutexLock s t).map fun s => (s, v.goto .stopTest, none)
  | .stopTest =>
    some (s, v.goto (if d.radio = .wifi || s.cont then .stopBegin .stop else .oneShotBegin), none)
  | .oneShotBegin => (asyncBegin s c).map fun s => (s, v.goto .oneShotStop, none)
  | .oneShotStop => some (oneShotStop s, v.goto .oneShotEnd, none)
  | .oneShotEnd => some (asyncEnd s, v.goto (.unlock 0), none)
  | .waitFlags =>
    if s.ev &&& (contEvReady ||| contEvStop) ≠ 0 then some (s, v.goto .waitLock, none) else none
  | .waitLock => (kmutexLock s t).map fun s => (s, v.goto .waitClear, none)
  | .waitClear => some (eventFlagsClear s contEvReady, v.goto .waitTake, none)
  | .waitTake =>
    let (buf, took) := if s.cont then s.buf.take else (s.buf, false)
    some ({ s with buf := buf }, v.goto (.waitUnlock s.cont took buf.sb.held), none)
  | .waitUnlock running took held =>
    let s := { s with lock := none }
    if !running then
      if v.listener then
        some (s, v.goto .listenLock, none)
      else
        some (s, v.return d.radio.errStopped, none)
    else if took then
      some (s, { v.return 0 with list := some held }, none)
    else
      some (s, v.goto .waitFlags, none)
  | .listenLock => (kmutexLock s t).map fun s => (s, v.goto .listenClear, none)
  | .listenClear =>
    some ({ s with listen := if s.listen = some t then none else s.listen }, v.goto .listenUnlock,
      none)
  | .listenUnlock => some ({ s with lock := none }, { v.return 0 with alive := false }, none)
  | .linkBegin => (asyncBegin s c).map fun s => (s, v.goto .linkCheck, none)
  | .linkCheck => some (linkCheck s o.linkUp, v.goto .linkEnd, none)
  | .linkEnd => some (asyncEnd s, v.goto .pollCheck, none)
  | .pollCheck =>
    if !s.cont && !(d.radio = .wifi && s.passRunning) then
      some (s, v.return 0, none)
    else
      some (s, v.goto .pollLock, none)
  | .pollLock => (kmutexLock s t).map fun s => (s, v.goto .pollOwner, none)
  | .pollOwner => some (s, v.goto (if s.cont && ownerGone s then .stopBegin .poll else .pollNow), none)
  | .pollNow =>
    some (s, v.goto (if d.radio = .wifi || s.cont then .pollBegin s.now else .pollUnlock false), none)
  | .pollBegin now => (asyncBegin s c).map fun s => (s, v.goto (.pollPass now), none)
  | .pollPass now =>
    let (s', ended) := pollPass s now o.rc
    some (s', v.goto (.pollPublish now s.active ended), none)
  | .pollPublish now active ended =>
    if publishes s now ended then
      some (pollPublish s now, v.goto (.pollRestart active true), none)
    else
      some (s, v.goto (.pollRestart active false), none)
  | .pollRestart active published => some (pollRestart s active o.rc, v.goto (.pollEnd published), none)
  | .pollEnd published => some (asyncEnd s, v.goto (.pollUnlock published), none)
  | .pollUnlock published =>
    if published then
      some ({ s with lock := none }, v.goto .pollSet, none)
    else
      some ({ s with lock := none }, v.return 0, none)
  | .pollSet => some (eventFlagsSet s contEvReady, v.return 0, none)
  | .scanBegin => (asyncBegin s c).map fun s => (s, v.goto .scanCheck, none)
  | .scanCheck => some (s, v.goto (if scanCheck s ≠ 0 then .scanEnd (scanCheck s) else .scanReset), none)
  | .scanReset => some (scanReset s, v.goto .scanRadio, none)
  | .scanRadio =>
    let (s, rc) := scanRadio s o.rc
    some (s, v.goto (.scanEnd rc), none)
  | .scanEnd rc => some (asyncEnd s, v.return rc, none)
  | .unlock rc => some ({ s with lock := none }, v.return rc, none)

inductive Call where
  | start (listen : Bool)
  | stop
  | wait
  | poll
  | scan
  deriving DecidableEq

/-- Where a call starts. `wifi-poll` also looks at the link. -/
def Call.entry : Call → Radio → Pc
  | start listen, _ => .startLock listen
  | stop, _ => .stopLock
  | wait, _ => .waitFlags
  | poll, .wifi => .linkBegin
  | poll, .bt => .pollCheck
  | scan, _ => .scanBegin

inductive Event (d : Driver) (T : Type) where
  | call (t : T) (call : Call)
  /-- A thread's next step, on the core it is on. -/
  | run (t : T) (c : Core) (o : Outcome T)
  /-- `scan_result_cb`, or `packet_handler` with a device. -/
  | report (r : d.Report)
  /-- The WiFi pass is over. -/
  | passEnds
  /-- `packet_handler` with `GAP_EVENT_INQUIRY_COMPLETE`. -/
  | inquiryComplete
  /-- `packet_handler` once HCI is working. -/
  | hciWorking
  | elapse (us : UInt64)
  /-- A thread is killed or exits. -/
  | ends (t : T)
  | procStarts (pid : UInt32)
  | procEnds (pid : UInt32)

namespace System

def setThread (m : System d T) (t : T) (v : Thread) : System d T :=
  { m with thread := Function.update m.thread t v }

/-- A new `*_listen_thread`. -/
def spawn (m : System d T) : Option T → System d T
  | none => m
  | some u => m.setThread u ⟨.user, true, true, none, 0⟩

def runStep (m : System d T) (t : T) (c : Core) (o : Outcome T) : System d T :=
  if (m.thread t).alive then
    match threadStep m t c o with
    | none => m
    | some (s, v, new) => ({ m with sh := s }.setThread t v).spawn new
  else m

/-- The next `*_scan_wait` gives the list back. -/
def callStep (m : System d T) (t : T) (call : Call) : System d T :=
  let v := m.thread t
  if v.alive && v.pc = .user then
    m.setThread t { v with
      pc := call.entry d.radio
      list := if call = .wait then none else v.list }
  else m

/-- The callback writes the list that is current, one-shot or fill. -/
def report (m : System d T) (r : d.Report) : System d T :=
  if m.sh.async.isNone then
    if m.sh.passCont then
      match d.store (m.sh.buf.lists m.sh.buf.sb.fill) r with
      | none => m
      | some w => { m with sh := { m.sh with buf := m.sh.buf.write d.radio.cap w } }
    else
      match d.store m.sh.scan r with
      | none => m
      | some w => { m with sh := { m.sh with scan := m.sh.scan.store d.radio.cap w } }
  else m

def inquiryComplete (m : System d T) : System d T :=
  if d.radio = .bt && m.sh.async.isNone then
    let s := { m.sh with inqActive := false }
    if s.cont then
      { m with sh := s }
    else
      { m with sh := { s with
        scanDone := true
        state := if s.state = .scanning then .idle else s.state } }
  else m

/-- A step of the system. An event that cannot happen changes nothing. -/
def step (m : System d T) : Event d T → System d T
  | .call t call => m.callStep t call
  | .run t c o => m.runStep t c o
  | .report r => m.report r
  | .passEnds => { m with sh := { m.sh with active := false } }
  | .inquiryComplete => m.inquiryComplete
  | .hciWorking =>
    { m with sh := { m.sh with
      state := if d.radio = .bt ∧ m.sh.state = .off then .idle else m.sh.state } }
  | .elapse us => { m with sh := { m.sh with now := m.sh.now + us } }
  | .ends t => m.setThread t { m.thread t with alive := false, list := none }
  | .procStarts pid => { m with sh := { m.sh with procs := Function.update m.sh.procs pid true } }
  | .procEnds pid => { m with sh := { m.sh with procs := Function.update m.sh.procs pid false } }

end System

/-- After `wifi_init` or `bt_init`: nothing runs, nobody waits. -/
structure Initial (m : System d T) : Prop where
  lock : m.sh.lock = none
  ev : m.sh.ev = contEvStop
  cont : m.sh.cont = false
  passCont : m.sh.passCont = false
  passRunning : m.sh.passRunning = false
  listen : m.sh.listen = none
  async : m.sh.async = none
  threads : ∀ t, (m.thread t).pc = .user ∧ (m.thread t).list = none ∧ (m.thread t).listener = false

/-- The statics once the radio is up, and live threads outside the driver. -/
def afterInit (d : Driver) (zero : d.Item) (pid : T → UInt32) : System d T where
  sh :=
    { buf := ⟨⟨0, 0, 0, false, 0, 0⟩, fun _ => ⟨0, 0, 0, 0, fun _ => zero⟩⟩
      lock := none
      ev := contEvStop
      cont := false
      passCont := false
      passRunning := false
      inqActive := false
      inqStartUs := 0
      windowStartUs := 0
      ownerPid := 0
      listen := none
      state := d.radio.rest
      scan := ⟨0, 0, 0, 0, fun _ => zero⟩
      scanDone := false
      dwell := dwellTable
      fw := ⟨fun _ => 0⟩
      active := false
      async := none
      now := 0
      procs := fun _ => true }
  thread _ := ⟨.user, true, false, none, 0⟩
  pid := pid

omit [DecidableEq T] in
theorem afterInit_initial (d : Driver) (zero : d.Item) (pid : T → UInt32) :
    Initial (afterInit d zero pid) :=
  ⟨rfl, rfl, rfl, rfl, rfl, rfl, rfl, fun _ => ⟨rfl, rfl, rfl⟩⟩

/-- Steps of one thread on core 0, with a radio that accepts everything. -/
def goes (t : T) (n : Nat) : List (Event d T) :=
  List.replicate n (.run t 0 ⟨0, fun _ => true, true, none⟩)

end

end PicoOS.Scan
