import PicoOS.Scan.Wifi
import Mathlib

/-!
# Bluetooth scan results

What `packet_handler` makes of inquiry results, remote names and advertising
reports: the entries of the list it writes, one-shot or fill, and the cache of
names. What BTstack finds in an event, the AD records included, and what it
answers to a name request come with the event.
-/
namespace PicoOS.Scan

/-! ### Entries -/

scoped instance neZeroNameLen : NeZero 32 := ⟨by decide⟩

abbrev BdAddr := Fin 6 → UInt8

/-- `reverse_bd_addr`. -/
def reverseBdAddr (a : BdAddr) : BdAddr := fun i => a i.rev

@[simp] theorem reverseBdAddr_reverseBdAddr (a : BdAddr) : reverseBdAddr (reverseBdAddr a) = a := by
  funext i
  rw [reverseBdAddr, reverseBdAddr, Fin.rev_rev]

/-- `char name[BT_NAME_LEN]`. -/
abbrev BtName := Fin 32 → UInt8

inductive BtDevtype where
  | classic
  | ble
  deriving DecidableEq

inductive BtDevclass where
  | unknown
  | computer
  | phone
  | network
  | audio
  | peripheral
  | imaging
  | wearable
  | toy
  | health
  | other
  deriving DecidableEq

def btRssiUnknown : Int8 := -127
def btTxPowerUnknown : Int8 := 127
def btFlagsNone : UInt8 := 0xff
def btCompanyNone : UInt16 := 0xffff
def btServiceNone : UInt16 := 0
def btUuid32None : UInt32 := 0
def btAppearanceNone : UInt16 := 0
def btAddrTypeNone : UInt8 := 0xff
def btAdvTypeNone : UInt8 := 0xff
def btDidNone : UInt16 := 0

/-- `bt_scan_result_t`. -/
structure BtScanResult where
  addr : BdAddr
  name : BtName
  rssi : Int8
  type : BtDevtype
  devClass : BtDevclass
  classOfDevice : UInt32
  txPower : Int8
  flags : UInt8
  companyId : UInt16
  serviceUuid : UInt16
  addrType : UInt8
  advType : UInt8
  appearance : UInt16
  uuid32 : UInt32
  pktCount : UInt16
  svcDataUuid : UInt16
  svcDataLen : UInt8
  mfrDataLen : UInt8
  svcData : Fin 16 → UInt8
  mfrData : Fin 24 → UInt8
  didSource : UInt16
  didVendor : UInt16
  didProduct : UInt16
  didVersion : UInt16

/-- `cod_to_devclass`. -/
def codToDevclass (cod : UInt32) : BtDevclass :=
  match ((cod >>> 8) &&& 0x1f).toNat with
  | 1 => .computer
  | 2 => .phone
  | 3 => .network
  | 4 => .audio
  | 5 => .peripheral
  | 6 => .imaging
  | 7 => .wearable
  | 8 => .toy
  | 9 => .health
  | _ => .other

/-- `slot_init`. -/
def slotInit (addr : BdAddr) (type : BtDevtype) (rssi : Int8) : BtScanResult where
  addr := reverseBdAddr addr
  name := fun _ => 0
  rssi := rssi
  type := type
  devClass := .unknown
  classOfDevice := 0
  txPower := btTxPowerUnknown
  flags := btFlagsNone
  companyId := btCompanyNone
  serviceUuid := btServiceNone
  addrType := btAddrTypeNone
  advType := btAdvTypeNone
  appearance := btAppearanceNone
  uuid32 := btUuid32None
  pktCount := 1
  svcDataUuid := btServiceNone
  svcDataLen := 0
  mfrDataLen := 0
  svcData := fun _ => 0
  mfrData := fun _ => 0
  didSource := btDidNone
  didVendor := 0
  didProduct := 0
  didVersion := 0

/-- `set_name`: `src` are the bytes it is given the length of. -/
def setName (dev : BtScanResult) (src : List UInt8) : BtScanResult :=
  let len := min src.length 31
  if len = 0 then dev
  else { dev with
    name := fun i => if i.val < len then src.getD i 0 else if i.val = len then 0 else dev.name i }

/-- `count_report`. -/
def countReport (dev : BtScanResult) : BtScanResult :=
  if dev.pktCount ≠ 0xffff then { dev with pktCount := dev.pktCount + 1 } else dev

/-- A repeated report refreshes the RSSI, if it has one. -/
def refreshRssi (dev : BtScanResult) (rssi : Int8) : BtScanResult :=
  if rssi ≠ btRssiUnknown then { dev with rssi := rssi } else dev

/-- `set_bytes`: the bytes and their length. -/
def setBytes {max : Nat} (dst : Fin max → UInt8) (src : List UInt8) : (Fin max → UInt8) × UInt8 :=
  let n := min src.length max
  (fun i => if i.val < n then src.getD i 0 else dst i, UInt8.ofNat n)

/-! ### Advertising data -/

/-- `le16`. -/
def le16 (d : List UInt8) : UInt16 := (d.getD 1 0).toUInt16 <<< 8 ||| (d.getD 0 0).toUInt16

/-- `le32`. -/
def le32 (d : List UInt8) : UInt32 :=
  (d.getD 3 0).toUInt32 <<< 24 ||| (d.getD 2 0).toUInt32 <<< 16 ||| (d.getD 1 0).toUInt32 <<< 8 |||
    (d.getD 0 0).toUInt32

/-- A record of the AD payload, as `ad_iterator` yields it. -/
structure AdRecord where
  type : UInt8
  data : List UInt8

/-- What one record does in `extract_ble_adv_data`. -/
def extractRecord (rsp fillOnly : Bool) (dev : BtScanResult) (r : AdRecord) : BtScanResult :=
  let d := r.data
  if d = [] then dev
  -- Service UUIDs of 16, 32 and 128 bits: the first one is kept.
  else if r.type = 0x02 ∨ r.type = 0x03 then
    if 2 ≤ d.length ∧ dev.serviceUuid = btServiceNone then { dev with serviceUuid := le16 d } else dev
  else if r.type = 0x04 ∨ r.type = 0x05 then
    if 4 ≤ d.length ∧ dev.uuid32 = btUuid32None then { dev with uuid32 := le32 d } else dev
  else if r.type = 0x06 ∨ r.type = 0x07 then
    if 16 ≤ d.length ∧ dev.uuid32 = btUuid32None then { dev with uuid32 := le32 (d.drop 12) } else dev
  -- Service data: another UUID does not replace it.
  else if r.type = 0x16 then
    if 2 ≤ d.length ∧
        (dev.svcDataUuid = btServiceNone ∨ fillOnly = false ∧ le16 d = dev.svcDataUuid) then
      { dev with
        svcData := (setBytes dev.svcData (d.drop 2)).1
        svcDataLen := (setBytes dev.svcData (d.drop 2)).2
        svcDataUuid := le16 d }
    else dev
  else if r.type = 0x19 then
    if 2 ≤ d.length ∧ (fillOnly = false ∨ dev.appearance = btAppearanceNone) then
      { dev with appearance := le16 d }
    else dev
  -- The name, short or complete: the first one is kept.
  else if r.type = 0x08 ∨ r.type = 0x09 then
    if dev.name 0 = 0 then setName dev d else dev
  else if r.type = 0x01 then
    if fillOnly = false ∨ dev.flags = btFlagsNone then { dev with flags := d.getD 0 0 } else dev
  else if r.type = 0x0a then
    if fillOnly = false ∨ dev.txPower = btTxPowerUnknown then
      { dev with txPower := (d.getD 0 0).toInt8 }
    else dev
  -- Manufacturer data: that of a scan response only if there is none.
  else if r.type = 0xff then
    if 2 ≤ d.length ∧ (dev.companyId = btCompanyNone ∨ rsp = false ∧ fillOnly = false) then
      { dev with
        mfrData := (setBytes dev.mfrData (d.drop 2)).1
        mfrDataLen := (setBytes dev.mfrData (d.drop 2)).2
        companyId := le16 d }
    else dev
  else dev

/-- `extract_ble_adv_data`. -/
def extractBleAdvData (ad : List AdRecord) (rsp fillOnly : Bool) (dev : BtScanResult) : BtScanResult :=
  ad.foldl (extractRecord rsp fillOnly) dev

/-! ### Events -/

/-- The Device ID record of an extended inquiry response. -/
structure DeviceId where
  vendorIdSource : UInt16
  vendorId : UInt16
  productId : UInt16
  version : UInt16

/-- `GAP_EVENT_INQUIRY_RESULT`. -/
structure InquiryResult where
  addr : BdAddr
  rssi : Option Int8
  classOfDevice : UInt32
  deviceId : Option DeviceId
  name : Option (List UInt8)
  pageScanRepetitionMode : UInt8
  clockOffset : UInt16

/-- `HCI_EVENT_REMOTE_NAME_REQUEST_COMPLETE`: the name where the status is 0. -/
structure NameComplete where
  addr : BdAddr
  remoteName : Option (Fin 248 → UInt8)

/-- `GAP_EVENT_ADVERTISING_REPORT`. -/
structure AdvReport where
  addr : BdAddr
  addressType : UInt8
  eventType : UInt8
  rssi : Int8
  ad : List AdRecord

inductive Packet where
  | inquiryResult (r : InquiryResult)
  | nameComplete (r : NameComplete)
  | advReport (r : AdvReport)
  /-- A change of the HCI state or the end of an inquiry: neither the list nor the names are
  touched. -/
  | other

/-- `ble_report_rssi`. -/
def bleReportRssi (r : AdvReport) : Int8 := if r.rssi = 127 then btRssiUnknown else r.rssi

/-- A scan response. -/
def AdvReport.rsp (r : AdvReport) : Bool := r.eventType = 4

/-- The first 31 bytes of a remote name up to its terminator: what `strncpy` and `set_name` copy. -/
def NameComplete.bytes (raw : Fin 248 → UInt8) : List UInt8 :=
  ((List.ofFn raw).take 31).takeWhile (· ≠ 0)

/-- The new entry of an inquiry result. -/
def classicEntry (r : InquiryResult) : BtScanResult :=
  let e := slotInit r.addr .classic (r.rssi.getD btRssiUnknown)
  let e := { e with
    classOfDevice := r.classOfDevice
    devClass := codToDevclass r.classOfDevice }
  let e := match r.deviceId with
    | some d => { e with
        didSource := d.vendorIdSource
        didVendor := d.vendorId
        didProduct := d.productId
        didVersion := d.version }
    | none => e
  match r.name with
  | some name => setName e name
  | none => e

/-- The new entry of an advertising report. -/
def bleEntry (r : AdvReport) : BtScanResult :=
  let e := slotInit r.addr .ble (bleReportRssi r)
  let e := { e with
    addrType := r.addressType &&& 1
    advType := if r.rsp then e.advType else r.eventType }
  extractBleAdvData r.ad r.rsp false e

/-- A report of a listed device: a published one-shot entry is only filled in, until it has a
name. -/
def mergeReport (cont : Bool) (e : BtScanResult) (r : AdvReport) : BtScanResult :=
  let e := countReport (refreshRssi e (bleReportRssi r))
  let e := if r.rsp = false ∧ e.advType = btAdvTypeNone then { e with advType := r.eventType } else e
  if cont = true ∨ e.name 0 = 0 then extractBleAdvData r.ad r.rsp (!cont) e else e

/-! ### The name cache -/

inductive BtNameState where
  | free
  | pending
  | known
  deriving DecidableEq

/-- `bt_name_ent_t`. -/
structure BtNameEnt where
  addr : BdAddr
  state : BtNameState
  psrm : UInt8
  clockOffset : UInt16
  name : BtName

def BtNameEnt.zero : BtNameEnt := ⟨fun _ => 0, .free, 0, 0, fun _ => 0⟩

/-- `BT_MAX_SCAN_RESULTS` is the capacity of the list. -/
abbrev btMaxScanResults : Nat := Radio.bt.cap

def btNameCache : Nat := 32

/-- `BT_NAME_REQ_TIMEOUT_US`. -/
def btNameReqTimeoutUs : UInt64 := 10 * 1000 * 1000

/-- What `packet_handler` reads and writes. -/
structure Bt where
  /-- `g_tgt_cont`. -/
  cont : Bool
  /-- `tgt_items` and `tgt_count`. -/
  list : ScanList BtScanResult
  names : Nat → BtNameEnt
  nameNext : UInt8
  nameBusy : Bool
  nameBusyUs : UInt64
  /-- What the last `gap_remote_name_request` was given. -/
  asked : Option (BdAddr × UInt8 × UInt16)

/-- BTstack and the clock in `name_request`: the time before and after the call, and whether it
succeeds. -/
structure Gap where
  now : UInt64
  sent : UInt64
  accepts : Bool

/-- `find_slot_by_addr`. -/
def findSlotByAddr (l : ScanList BtScanResult) (addr : BdAddr) : Option Nat :=
  (List.range l.count).find? fun i => addr = reverseBdAddr (l.items i).addr

namespace Bt

def store (b : Bt) (w : Store BtScanResult) : Bt :=
  { b with list := b.list.store btMaxScanResults w }

def setNameEnt (b : Bt) (k : Nat) (e : BtNameEnt) : Bt :=
  { b with names := Function.update b.names k e }

/-- `name_find`. -/
def nameFind (b : Bt) (addr : BdAddr) : Option Nat :=
  (List.range btNameCache).find? fun k => (b.names k).state ≠ .free ∧ (b.names k).addr = addr

/-- `name_add`. -/
def nameAdd (b : Bt) (addr : BdAddr) : Nat × Bt :=
  let free := (List.range btNameCache).find? fun k => (b.names k).state = .free
  -- With no slot free the slots are reused in turn.
  let k := free.getD b.nameNext.toNat
  let b := { b with nameNext := if free.isNone then (b.nameNext + 1) % 32 else b.nameNext }
  (k, b.setNameEnt k { b.names k with
    addr := addr
    state := .pending
    name := Function.update (b.names k).name 0 0 })

/-- The entry of an address, added if it has none. -/
def nameSlot (b : Bt) (addr : BdAddr) : Nat × Bt :=
  match b.nameFind addr with
  | some k => (k, b)
  | none => b.nameAdd addr

/-- `name_store`. -/
def nameStore (b : Bt) (addr : BdAddr) (name : BtName) : Bt :=
  let (k, b) := b.nameSlot addr
  b.setNameEnt k { b.names k with
    name := name
    state := .known }

/-- `name_request`. -/
def nameRequest (b : Bt) (gap : Gap) (raddr : BdAddr) (psrm : UInt8) (clockOffset : UInt16) :
    Bool × Bt :=
  if b.nameBusy && gap.now - b.nameBusyUs < btNameReqTimeoutUs then (false, b)
  else if !gap.accepts then (false, b)
  else
    (true, { b with
      asked := some (reverseBdAddr raddr, psrm, clockOffset)
      nameBusy := true
      nameBusyUs := gap.sent })

/-- `name_request_next`. -/
def nameRequestNext (b : Bt) (gap : Gap) : Bt :=
  match (List.range btNameCache).find? fun k => (b.names k).state = .pending with
  | some k => (b.nameRequest gap (b.names k).addr (b.names k).psrm (b.names k).clockOffset).2
  | none => b

/-! ### Packets -/

/-- A Classic inquiry result. -/
def inquiryResult (b : Bt) (gap : Gap) (r : InquiryResult) : Bt :=
  match findSlotByAddr b.list r.addr with
  | some dup =>
    -- The name request is left to the first report.
    b.store (.refresh dup
      (countReport (refreshRssi (b.list.items dup) (r.rssi.getD btRssiUnknown))))
  | none =>
    if b.list.count < btMaxScanResults then
      let e := classicEntry r
      let psrm := r.pageScanRepetitionMode
      let clk := r.clockOffset ||| 0x8000
      if e.name 0 ≠ 0 then
        (if b.cont then b.nameStore e.addr e.name else b).store (.append e)
      else if b.cont then
        let (k, b) := b.nameSlot e.addr
        if (b.names k).state = .known then
          b.store (.append { e with name := (b.names k).name })
        else
          -- A request that is refused now is sent by `nameRequestNext` later.
          let b := b.setNameEnt k { b.names k with
            psrm := psrm
            clockOffset := clk }
          ((b.store (.append e)).nameRequest gap e.addr psrm clk).2
      else
        ((b.store (.append e)).nameRequest gap e.addr psrm clk).2
    else b

/-- What a completion leaves in the cache: a failure is cached as an empty name. -/
def answered (e : BtNameEnt) (r : NameComplete) : BtNameEnt :=
  { e with
    name := match r.remoteName with
      | some raw => fun i => (NameComplete.bytes raw).getD i 0
      | none => Function.update e.name 0 0
    state := .known }

/-- The answer is recorded even if the device has rotated out of the list. -/
def recordAnswer (b : Bt) (r : NameComplete) : Bt :=
  match b.nameFind (reverseBdAddr r.addr) with
  | some k => b.setNameEnt k (answered (b.names k) r)
  | none => b

/-- A Classic remote name response. -/
def nameComplete (b : Bt) (gap : Gap) (r : NameComplete) : Bt :=
  let b := { b with nameBusy := false }
  let b := if b.cont then (b.recordAnswer r).nameRequestNext gap else b
  match findSlotByAddr b.list r.addr, r.remoteName with
  | some idx, some raw =>
    if (b.list.items idx).name 0 = 0 then
      b.store (.refresh idx (setName (b.list.items idx) (NameComplete.bytes raw)))
    else b
  | _, _ => b

/-- A BLE advertising report. -/
def advReport (b : Bt) (r : AdvReport) : Bt :=
  match findSlotByAddr b.list r.addr with
  | some dup =>
    let old := b.list.items dup
    let e := mergeReport b.cont old r
    -- A name that this report brought is cached.
    let b := if b.cont ∧ old.name 0 = 0 ∧ e.name 0 ≠ 0 then b.nameStore e.addr e.name else b
    b.store (.refresh dup e)
  | none =>
    if b.list.count < btMaxScanResults then
      let e := bleEntry r
      if b.cont then
        if e.name 0 ≠ 0 then
          (b.nameStore e.addr e.name).store (.append e)
        else
          -- A report without a name gets the one of an earlier window.
          match b.nameFind e.addr with
          | some k =>
            if (b.names k).state = .known then b.store (.append { e with name := (b.names k).name })
            else b.store (.append e)
          | none => b.store (.append e)
      else b.store (.append e)
    else b

/-- `packet_handler`. -/
def packetHandler (b : Bt) (gap : Gap) : Packet → Bt
  | .inquiryResult r => b.inquiryResult gap r
  | .nameComplete r => b.nameComplete gap r
  | .advReport r => b.advReport r
  | .other => b

/-! ### Scans -/

/-- The reset of `bt_scan`. -/
def oneShot (b : Bt) : Bt :=
  { b with
    cont := false
    list := { b.list with count := 0 }
    nameBusy := false }

/-- The reset of `bt_scan_start`. -/
def start (b : Bt) : Bt :=
  { b with
    cont := true
    list := { b.list with count := 0 }
    names := fun _ => .zero
    nameNext := 0
    nameBusy := false }

end Bt

/-- What happens in a scan: a packet, or `bt_scan_poll` publishes the window and takes another list
to fill. -/
inductive BtEvent where
  | packet (gap : Gap) (p : Packet)
  | window (l : ScanList BtScanResult)

/-- A one-shot scan has no windows. -/
def Bt.step (b : Bt) : BtEvent → Bt
  | .packet gap p => b.packetHandler gap p
  | .window l => if b.cont then { b with list := { l with count := 0 } } else b

end PicoOS.Scan
