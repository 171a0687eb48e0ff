import PicoOS.Scan.Bluetooth
import Mathlib

/-!
# The list of Bluetooth devices

What `packet_handler` does to the list it writes, packet by packet. A published
entry is only filled in while the list is one-shot. Entries are found by their
address alone, so the advertising data of a device that is listed as Classic
ends up in its Classic entry.
-/
namespace PicoOS.Scan

/-! ### What is done to an entry -/

/-- A field that is unset, or the same later. -/
def FilledOnce {α : Type} (none old cur : α) : Prop := cur = old ∨ old = none

theorem FilledOnce.refl {α : Type} (none a : α) : FilledOnce none a a := .inl rfl

theorem FilledOnce.trans {α : Type} {none a b c : α} (h : FilledOnce none a b)
    (h' : FilledOnce none b c) : FilledOnce none a c := by
  rcases h with same | unset
  · rwa [same] at h'
  · exact .inr unset

/-- A later state of a published one-shot entry. -/
structure Grows (old cur : BtScanResult) : Prop where
  addr : cur.addr = old.addr
  type : cur.type = old.type
  devClass : cur.devClass = old.devClass
  classOfDevice : cur.classOfDevice = old.classOfDevice
  addrType : cur.addrType = old.addrType
  didSource : cur.didSource = old.didSource
  didVendor : cur.didVendor = old.didVendor
  didProduct : cur.didProduct = old.didProduct
  didVersion : cur.didVersion = old.didVersion
  name : cur.name = old.name ∨ old.name 0 = 0
  txPower : FilledOnce btTxPowerUnknown old.txPower cur.txPower
  flags : FilledOnce btFlagsNone old.flags cur.flags
  companyId : FilledOnce btCompanyNone old.companyId cur.companyId
  serviceUuid : FilledOnce btServiceNone old.serviceUuid cur.serviceUuid
  uuid32 : FilledOnce btUuid32None old.uuid32 cur.uuid32
  svcDataUuid : FilledOnce btServiceNone old.svcDataUuid cur.svcDataUuid
  appearance : FilledOnce btAppearanceNone old.appearance cur.appearance
  advType : FilledOnce btAdvTypeNone old.advType cur.advType

namespace Grows

theorem refl (e : BtScanResult) : Grows e e :=
  ⟨rfl, rfl, rfl, rfl, rfl, rfl, rfl, rfl, rfl, .inl rfl, .refl .., .refl .., .refl .., .refl ..,
    .refl .., .refl .., .refl .., .refl ..⟩

theorem trans {a b c : BtScanResult} (h : Grows a b) (h' : Grows b c) : Grows a c where
  addr := h'.addr.trans h.addr
  type := h'.type.trans h.type
  devClass := h'.devClass.trans h.devClass
  classOfDevice := h'.classOfDevice.trans h.classOfDevice
  addrType := h'.addrType.trans h.addrType
  didSource := h'.didSource.trans h.didSource
  didVendor := h'.didVendor.trans h.didVendor
  didProduct := h'.didProduct.trans h.didProduct
  didVersion := h'.didVersion.trans h.didVersion
  name := by
    rcases h.name with same | empty
    · have later := h'.name
      rwa [same] at later
    · exact .inr empty
  txPower := h.txPower.trans h'.txPower
  flags := h.flags.trans h'.flags
  companyId := h.companyId.trans h'.companyId
  serviceUuid := h.serviceUuid.trans h'.serviceUuid
  uuid32 := h.uuid32.trans h'.uuid32
  svcDataUuid := h.svcDataUuid.trans h'.svcDataUuid
  appearance := h.appearance.trans h'.appearance
  advType := h.advType.trans h'.advType

end Grows

/-- Terminated, and no longer than its arrays. -/
structure WellFormed (e : BtScanResult) : Prop where
  name : e.name (Fin.last 31) = 0
  svcDataLen : e.svcDataLen.toNat ≤ 16
  mfrDataLen : e.mfrDataLen.toNat ≤ 24

/-- What a packet leaves alone in an entry that it finds. -/
structure SameDevice (old cur : BtScanResult) : Prop where
  addr : cur.addr = old.addr
  type : cur.type = old.type
  devClass : cur.devClass = old.devClass
  classOfDevice : cur.classOfDevice = old.classOfDevice
  addrType : cur.addrType = old.addrType
  didSource : cur.didSource = old.didSource
  didVendor : cur.didVendor = old.didVendor
  didProduct : cur.didProduct = old.didProduct
  didVersion : cur.didVersion = old.didVersion

theorem SameDevice.refl (e : BtScanResult) : SameDevice e e :=
  ⟨rfl, rfl, rfl, rfl, rfl, rfl, rfl, rfl, rfl⟩

section

variable (e : BtScanResult)

theorem setName_eq (src : List UInt8) : ∃ name, setName e src = { e with name := name } := by
  unfold setName
  dsimp only
  split
  · exact ⟨e.name, rfl⟩
  · exact ⟨_, rfl⟩

theorem setName_wellFormed (src : List UInt8) (h : WellFormed e) : WellFormed (setName e src) := by
  unfold setName
  dsimp only
  split
  next => exact h
  next =>
    refine ⟨?_, h.svcDataLen, h.mfrDataLen⟩
    have last : ((Fin.last 31 : Fin 32) : Nat) = 31 := rfl
    dsimp only
    rw [last, if_neg (by omega)]
    split
    next => rfl
    next => exact h.name

theorem countReport_eq : ∃ n, countReport e = { e with pktCount := n } := by
  unfold countReport
  split
  · exact ⟨_, rfl⟩
  · exact ⟨e.pktCount, rfl⟩

theorem refreshRssi_eq (rssi : Int8) : ∃ r, refreshRssi e rssi = { e with rssi := r } := by
  unfold refreshRssi
  split
  · exact ⟨_, rfl⟩
  · exact ⟨e.rssi, rfl⟩

/-- The RSSI and the number of reports are all that every report changes. -/
theorem heardAgain_eq (rssi : Int8) :
    ∃ r n, countReport (refreshRssi e rssi) = { e with rssi := r, pktCount := n } := by
  obtain ⟨r, same⟩ := refreshRssi_eq e rssi
  obtain ⟨n, counted⟩ := countReport_eq (refreshRssi e rssi)
  exact ⟨r, n, by rw [counted, same]⟩

theorem setBytes_length {max : Nat} (dst : Fin max → UInt8) (src : List UInt8) :
    (setBytes dst src).2.toNat ≤ max := by
  rw [setBytes, UInt8.toNat_ofNat']
  exact (Nat.mod_le _ _).trans (Nat.min_le_right _ _)

/-- What a record may do to an entry. -/
inductive Extracted (rsp fillOnly : Bool) (e : BtScanResult) (r : AdRecord) : BtScanResult → Prop
  | same : Extracted rsp fillOnly e r e
  | serviceUuid (kind : r.type = 0x02 ∨ r.type = 0x03) (long : 2 ≤ r.data.length)
      (unset : e.serviceUuid = btServiceNone) :
      Extracted rsp fillOnly e r { e with serviceUuid := le16 r.data }
  | uuid32 (kind : r.type = 0x04 ∨ r.type = 0x05) (long : 4 ≤ r.data.length)
      (unset : e.uuid32 = btUuid32None) :
      Extracted rsp fillOnly e r { e with uuid32 := le32 r.data }
  | uuid128 (kind : r.type = 0x06 ∨ r.type = 0x07) (long : 16 ≤ r.data.length)
      (unset : e.uuid32 = btUuid32None) :
      Extracted rsp fillOnly e r { e with uuid32 := le32 (r.data.drop 12) }
  | svcData (kind : r.type = 0x16) (long : 2 ≤ r.data.length)
      (unset : e.svcDataUuid = btServiceNone ∨ fillOnly = false) :
      Extracted rsp fillOnly e r { e with
        svcData := (setBytes e.svcData (r.data.drop 2)).1
        svcDataLen := (setBytes e.svcData (r.data.drop 2)).2
        svcDataUuid := le16 r.data }
  | appearance (kind : r.type = 0x19) (long : 2 ≤ r.data.length)
      (unset : e.appearance = btAppearanceNone ∨ fillOnly = false) :
      Extracted rsp fillOnly e r { e with appearance := le16 r.data }
  | name (empty : e.name 0 = 0) : Extracted rsp fillOnly e r (setName e r.data)
  | flags (kind : r.type = 0x01) (some : r.data ≠ [])
      (unset : e.flags = btFlagsNone ∨ fillOnly = false) :
      Extracted rsp fillOnly e r { e with flags := r.data.getD 0 0 }
  | txPower (kind : r.type = 0x0a) (some : r.data ≠ [])
      (unset : e.txPower = btTxPowerUnknown ∨ fillOnly = false) :
      Extracted rsp fillOnly e r { e with txPower := (r.data.getD 0 0).toInt8 }
  | mfrData (kind : r.type = 0xff) (long : 2 ≤ r.data.length)
      (unset : e.companyId = btCompanyNone ∨ fillOnly = false) :
      Extracted rsp fillOnly e r { e with
        mfrData := (setBytes e.mfrData (r.data.drop 2)).1
        mfrDataLen := (setBytes e.mfrData (r.data.drop 2)).2
        companyId := le16 r.data }

theorem extractRecord_cases (rsp fillOnly : Bool) (r : AdRecord) :
    Extracted rsp fillOnly e r (extractRecord rsp fillOnly e r) := by
  have branch {c : Prop} [Decidable c] {a b : BtScanResult}
      (pos : c → Extracted rsp fillOnly e r a) (neg : ¬c → Extracted rsp fillOnly e r b) :
      Extracted rsp fillOnly e r (if c then a else b) :=
    iteInduction (motive := Extracted rsp fillOnly e r) pos neg
  have guard {c : Prop} [Decidable c] {a : BtScanResult}
      (pos : c → Extracted rsp fillOnly e r a) :
      Extracted rsp fillOnly e r (if c then a else e) := branch pos fun _ => .same
  unfold extractRecord
  refine branch (fun _ => .same) fun some => ?_
  -- The cases of the `switch`, each with its guard.
  refine branch (fun kind => guard fun set => .serviceUuid kind set.1 set.2) fun _ => ?_
  refine branch (fun kind => guard fun set => .uuid32 kind set.1 set.2) fun _ => ?_
  refine branch (fun kind => guard fun set => .uuid128 kind set.1 set.2) fun _ => ?_
  refine branch (fun kind => guard fun set => .svcData kind set.1 (set.2.imp_right And.left))
    fun _ => ?_
  refine branch (fun kind => guard fun set => .appearance kind set.1 set.2.symm) fun _ => ?_
  refine branch (fun _ => guard fun empty => .name empty) fun _ => ?_
  refine branch (fun kind => guard fun set => .flags kind some set.symm) fun _ => ?_
  refine branch (fun kind => guard fun set => .txPower kind some set.symm) fun _ => ?_
  exact guard fun kind => branch
    (fun set => .mfrData kind set.1 (set.2.imp_right And.right)) fun _ => .same

variable {e} {cur : BtScanResult} {rsp fillOnly : Bool} {r : AdRecord}

namespace Extracted

theorem sameDevice (h : Extracted rsp fillOnly e r cur) : SameDevice e cur := by
  cases h with
  | name empty =>
    obtain ⟨name, named⟩ := setName_eq e r.data
    rw [named]
    exact ⟨rfl, rfl, rfl, rfl, rfl, rfl, rfl, rfl, rfl⟩
  | _ => exact ⟨rfl, rfl, rfl, rfl, rfl, rfl, rfl, rfl, rfl⟩

theorem wellFormed (h : Extracted rsp fillOnly e r cur) (ok : WellFormed e) : WellFormed cur := by
  cases h with
  | name empty => exact setName_wellFormed e r.data ok
  | svcData => exact ⟨ok.name, setBytes_length e.svcData _, ok.mfrDataLen⟩
  | mfrData => exact ⟨ok.name, ok.svcDataLen, setBytes_length e.mfrData _⟩
  | _ => exact ⟨ok.name, ok.svcDataLen, ok.mfrDataLen⟩

/-- In a published one-shot entry a record sets only what is unset. -/
theorem grows (h : Extracted rsp true e r cur) : Grows e cur := by
  have same := Grows.refl e
  cases h with
  | same => exact same
  | serviceUuid _ _ unset => exact { same with serviceUuid := .inr unset }
  | uuid32 _ _ unset | uuid128 _ _ unset => exact { same with uuid32 := .inr unset }
  | svcData _ _ unset => exact { same with svcDataUuid := .inr (unset.resolve_right nofun) }
  | appearance _ _ unset => exact { same with appearance := .inr (unset.resolve_right nofun) }
  | name empty =>
    obtain ⟨name, named⟩ := setName_eq e r.data
    rw [named]
    exact { same with name := .inr empty }
  | flags _ _ unset => exact { same with flags := .inr (unset.resolve_right nofun) }
  | txPower _ _ unset => exact { same with txPower := .inr (unset.resolve_right nofun) }
  | mfrData _ _ unset => exact { same with companyId := .inr (unset.resolve_right nofun) }

end Extracted

theorem extract_invariant {P : BtScanResult → Prop} (ad : List AdRecord)
    (step : ∀ e cur, ∀ r ∈ ad, Extracted rsp fillOnly e r cur → P e → P cur) (initial : P e) :
    P (extractBleAdvData ad rsp fillOnly e) :=
  List.foldlRecOn (motive := P) ad (extractRecord rsp fillOnly) initial fun e now r member =>
    step e _ r member (extractRecord_cases e rsp fillOnly r) now

theorem SameDevice.trans {a b c : BtScanResult} (h : SameDevice a b) (h' : SameDevice b c) :
    SameDevice a c :=
  ⟨h'.addr.trans h.addr, h'.type.trans h.type, h'.devClass.trans h.devClass,
    h'.classOfDevice.trans h.classOfDevice, h'.addrType.trans h.addrType,
    h'.didSource.trans h.didSource, h'.didVendor.trans h.didVendor,
    h'.didProduct.trans h.didProduct, h'.didVersion.trans h.didVersion⟩

theorem extract_sameDevice (ad : List AdRecord) (rsp fillOnly : Bool) (e : BtScanResult) :
    SameDevice e (extractBleAdvData ad rsp fillOnly e) :=
  extract_invariant ad (fun _ _ _ _ h now => now.trans h.sameDevice) (.refl e)

theorem extract_wellFormed (ad : List AdRecord) (rsp fillOnly : Bool) (ok : WellFormed e) :
    WellFormed (extractBleAdvData ad rsp fillOnly e) :=
  extract_invariant ad (fun _ _ _ _ h now => h.wellFormed now) ok

theorem extract_grows (ad : List AdRecord) (rsp : Bool) (e : BtScanResult) :
    Grows e (extractBleAdvData ad rsp true e) :=
  extract_invariant ad (fun _ _ _ _ h now => now.trans h.grows) (.refl e)

/-! ### New and listed devices -/

theorem heardAgain_grows (e : BtScanResult) (rssi : Int8) :
    Grows e (countReport (refreshRssi e rssi)) := by
  obtain ⟨r, n, same⟩ := heardAgain_eq e rssi
  rw [same]
  exact { Grows.refl e with }

theorem heardAgain_wellFormed (rssi : Int8) (ok : WellFormed e) :
    WellFormed (countReport (refreshRssi e rssi)) := by
  obtain ⟨r, n, same⟩ := heardAgain_eq e rssi
  rw [same]
  exact ⟨ok.name, ok.svcDataLen, ok.mfrDataLen⟩

/-- The part of `mergeReport` before the advertising data. -/
def mergeHead (e : BtScanResult) (r : AdvReport) : BtScanResult :=
  let e := countReport (refreshRssi e (bleReportRssi r))
  if r.rsp = false ∧ e.advType = btAdvTypeNone then { e with advType := r.eventType } else e

theorem mergeReport_eq (cont : Bool) (e : BtScanResult) (r : AdvReport) :
    mergeReport cont e r = if cont = true ∨ (mergeHead e r).name 0 = 0 then
      extractBleAdvData r.ad r.rsp (!cont) (mergeHead e r) else mergeHead e r := rfl

theorem mergeHead_grows (e : BtScanResult) (r : AdvReport) : Grows e (mergeHead e r) := by
  have heard := heardAgain_grows e (bleReportRssi r)
  unfold mergeHead
  dsimp only
  split
  next set => exact heard.trans { Grows.refl _ with advType := .inr set.2 }
  next => exact heard

theorem mergeHead_wellFormed (r : AdvReport) (ok : WellFormed e) : WellFormed (mergeHead e r) := by
  have heard := heardAgain_wellFormed (bleReportRssi r) ok
  unfold mergeHead
  dsimp only
  split
  next => exact ⟨heard.name, heard.svcDataLen, heard.mfrDataLen⟩
  next => exact heard

theorem Grows.sameDevice {a b : BtScanResult} (h : Grows a b) : SameDevice a b :=
  ⟨h.addr, h.type, h.devClass, h.classOfDevice, h.addrType, h.didSource, h.didVendor, h.didProduct,
    h.didVersion⟩

theorem mergeReport_sameDevice (cont : Bool) (e : BtScanResult) (r : AdvReport) :
    SameDevice e (mergeReport cont e r) := by
  have head := (mergeHead_grows e r).sameDevice
  rw [mergeReport_eq]
  split
  · exact head.trans (extract_sameDevice ..)
  · exact head

theorem mergeReport_wellFormed (cont : Bool) (r : AdvReport) (ok : WellFormed e) :
    WellFormed (mergeReport cont e r) := by
  have head := mergeHead_wellFormed r ok
  rw [mergeReport_eq]
  split
  · exact extract_wellFormed _ _ _ head
  · exact head

theorem mergeReport_grows (e : BtScanResult) (r : AdvReport) : Grows e (mergeReport false e r) := by
  have head := mergeHead_grows e r
  rw [mergeReport_eq]
  split
  · exact head.trans (extract_grows ..)
  · exact head

/-- A new Classic entry has its address, class, Device ID and name set. -/
theorem classicEntry_eq (r : InquiryResult) :
    ∃ did : DeviceId, ∃ name, classicEntry r =
      { slotInit r.addr .classic (r.rssi.getD btRssiUnknown) with
        classOfDevice := r.classOfDevice
        devClass := codToDevclass r.classOfDevice
        didSource := did.vendorIdSource
        didVendor := did.vendorId
        didProduct := did.productId
        didVersion := did.version
        name := name } ∧ name (Fin.last 31) = 0 := by
  have named (e : BtScanResult) (ok : WellFormed e) (src : List UInt8) :
      ∃ name, setName e src = { e with name := name } ∧ name (Fin.last 31) = 0 := by
    have last := (setName_wellFormed e src ok).name
    obtain ⟨name, shape⟩ := setName_eq e src
    rw [shape] at last
    exact ⟨name, shape, last⟩
  unfold classicEntry
  cases r.deviceId with
  | some did =>
    refine ⟨did, ?_⟩
    cases r.name with
    | some src => exact named _ ⟨rfl, Nat.zero_le _, Nat.zero_le _⟩ src
    | none => exact ⟨_, rfl, rfl⟩
  | none =>
    refine ⟨⟨btDidNone, 0, 0, 0⟩, ?_⟩
    cases r.name with
    | some src => exact named _ ⟨rfl, Nat.zero_le _, Nat.zero_le _⟩ src
    | none => exact ⟨_, rfl, rfl⟩

theorem classicEntry_wellFormed (r : InquiryResult) : WellFormed (classicEntry r) := by
  obtain ⟨_, _, shape, last⟩ := classicEntry_eq r
  rw [shape]
  exact ⟨last, Nat.zero_le _, Nat.zero_le _⟩

theorem classicEntry_addr (r : InquiryResult) : (classicEntry r).addr = reverseBdAddr r.addr := by
  obtain ⟨_, _, shape, _⟩ := classicEntry_eq r
  rw [shape]
  rfl

/-- A new BLE entry before its advertising data. -/
def bleHead (r : AdvReport) : BtScanResult :=
  let e := slotInit r.addr .ble (bleReportRssi r)
  { e with
    addrType := r.addressType &&& 1
    advType := if r.rsp then e.advType else r.eventType }

theorem bleEntry_eq (r : AdvReport) :
    bleEntry r = extractBleAdvData r.ad r.rsp false (bleHead r) := rfl

theorem bleEntry_sameDevice (r : AdvReport) : SameDevice (bleHead r) (bleEntry r) := by
  rw [bleEntry_eq]
  exact extract_sameDevice ..

theorem bleEntry_wellFormed (r : AdvReport) : WellFormed (bleEntry r) := by
  rw [bleEntry_eq]
  exact extract_wellFormed _ _ _ ⟨rfl, Nat.zero_le _, Nat.zero_le _⟩

end

/-! ### What a packet does to the list -/

/-- The device that a packet is about. -/
def Packet.addr : Packet → Option BdAddr
  | .inquiryResult r => some r.addr
  | .nameComplete r => some r.addr
  | .advReport r => some r.addr
  | .other => none

/-- What a packet makes of the entry it finds. -/
inductive Touched (cont : Bool) (old : BtScanResult) : Packet → BtScanResult → Prop
  | again (r : InquiryResult) (rssi : Int8) :
      Touched cont old (.inquiryResult r) (countReport (refreshRssi old rssi))
  | merged (r : AdvReport) : Touched cont old (.advReport r) (mergeReport cont old r)
  | named (r : NameComplete) (empty : old.name 0 = 0) (src : List UInt8) :
      Touched cont old (.nameComplete r) (setName old src)

/-- A name of the entry's own, or one from the cache. -/
def Bt.Names (b : Bt) (own name : BtName) : Prop :=
  name = own ∨ b.cont = true ∧ ∃ k, name = (b.names k).name

/-- The entry that a packet adds. -/
inductive Added (b : Bt) : Packet → BtScanResult → Prop
  | classic (r : InquiryResult) {name : BtName} (named : b.Names (classicEntry r).name name) :
      Added b (.inquiryResult r) { classicEntry r with name := name }
  | ble (r : AdvReport) {name : BtName} (named : b.Names (bleEntry r).name name) :
      Added b (.advReport r) { bleEntry r with name := name }

/-- What a packet does to the list. -/
inductive Listing (b : Bt) (p : Packet) : ScanList BtScanResult → Prop
  | idle : Listing b p b.list
  | touch {k : Nat} {cur : BtScanResult} (found : p.addr.bind (findSlotByAddr b.list) = some k)
      (touched : Touched b.cont (b.list.items k) p cur) :
      Listing b p (b.list.store btMaxScanResults (.refresh k cur))
  | add {e : BtScanResult} (absent : p.addr.bind (findSlotByAddr b.list) = none)
      (room : b.list.count < btMaxScanResults) (added : Added b p e) :
      Listing b p (b.list.store btMaxScanResults (.append e))

section

variable {b : Bt}

theorem findSlotByAddr_some {l : ScanList BtScanResult} {addr : BdAddr} {k : Nat}
    (found : findSlotByAddr l addr = some k) :
    k < l.count ∧ (l.items k).addr = reverseBdAddr addr := by
  have here := List.find?_some found
  refine ⟨List.mem_range.mp (List.mem_of_find?_eq_some found), ?_⟩
  rw [decide_eq_true_eq] at here
  rw [here, reverseBdAddr_reverseBdAddr]

theorem findSlotByAddr_none {l : ScanList BtScanResult} {addr : BdAddr}
    (absent : findSlotByAddr l addr = none) {k : Nat} (inside : k < l.count) :
    (l.items k).addr ≠ reverseBdAddr addr := by
  intro same
  have other := List.find?_eq_none.mp absent k (List.mem_range.mpr inside)
  rw [decide_eq_true_eq, same, reverseBdAddr_reverseBdAddr] at other
  exact other rfl

@[simp] theorem Bt.store_list (b : Bt) (w : Store BtScanResult) :
    (b.store w).list = b.list.store btMaxScanResults w := rfl

@[simp] theorem Bt.store_cont (b : Bt) (w : Store BtScanResult) : (b.store w).cont = b.cont := rfl

@[simp] theorem Bt.setNameEnt_list (b : Bt) (k : Nat) (e : BtNameEnt) :
    (b.setNameEnt k e).list = b.list := rfl

@[simp] theorem Bt.setNameEnt_cont (b : Bt) (k : Nat) (e : BtNameEnt) :
    (b.setNameEnt k e).cont = b.cont := rfl

@[simp] theorem Bt.nameSlot_list (b : Bt) (addr : BdAddr) : (b.nameSlot addr).2.list = b.list := by
  unfold Bt.nameSlot
  cases b.nameFind addr <;> rfl

@[simp] theorem Bt.nameSlot_cont (b : Bt) (addr : BdAddr) : (b.nameSlot addr).2.cont = b.cont := by
  unfold Bt.nameSlot
  cases b.nameFind addr <;> rfl

@[simp] theorem Bt.nameStore_list (b : Bt) (addr : BdAddr) (name : BtName) :
    (b.nameStore addr name).list = b.list := b.nameSlot_list addr

@[simp] theorem Bt.nameStore_cont (b : Bt) (addr : BdAddr) (name : BtName) :
    (b.nameStore addr name).cont = b.cont := b.nameSlot_cont addr

/-- A name request touches neither the list nor the names. -/
theorem Bt.nameRequest_eq (b : Bt) (gap : Gap) (raddr : BdAddr) (psrm : UInt8) (clk : UInt16) :
    ∃ asked busy us, (b.nameRequest gap raddr psrm clk).2 =
      { b with asked := asked, nameBusy := busy, nameBusyUs := us } := by
  unfold Bt.nameRequest
  split_ifs
  · exact ⟨b.asked, b.nameBusy, b.nameBusyUs, rfl⟩
  · exact ⟨b.asked, b.nameBusy, b.nameBusyUs, rfl⟩
  · exact ⟨_, _, _, rfl⟩

@[simp] theorem Bt.nameRequest_list (b : Bt) (gap : Gap) (raddr : BdAddr) (psrm : UInt8)
    (clk : UInt16) : (b.nameRequest gap raddr psrm clk).2.list = b.list := by
  obtain ⟨_, _, _, same⟩ := b.nameRequest_eq gap raddr psrm clk
  rw [same]

@[simp] theorem Bt.nameRequest_cont (b : Bt) (gap : Gap) (raddr : BdAddr) (psrm : UInt8)
    (clk : UInt16) : (b.nameRequest gap raddr psrm clk).2.cont = b.cont := by
  obtain ⟨_, _, _, same⟩ := b.nameRequest_eq gap raddr psrm clk
  rw [same]

theorem Bt.nameRequestNext_eq (b : Bt) (gap : Gap) :
    ∃ asked busy us, b.nameRequestNext gap =
      { b with asked := asked, nameBusy := busy, nameBusyUs := us } := by
  unfold Bt.nameRequestNext
  split
  · exact b.nameRequest_eq ..
  · exact ⟨b.asked, b.nameBusy, b.nameBusyUs, rfl⟩

/-- A name that the cache knows was there before the packet. -/
theorem Bt.nameSlot_known {addr : BdAddr}
    (known : ((b.nameSlot addr).2.names (b.nameSlot addr).1).state = .known) :
    ((b.nameSlot addr).2.names (b.nameSlot addr).1).name = (b.names (b.nameSlot addr).1).name := by
  unfold Bt.nameSlot at known ⊢
  cases found : b.nameFind addr with
  | some k => rfl
  | none =>
    rw [found] at known
    simp only [Bt.nameAdd, Bt.setNameEnt, Function.update_self] at known
    cases known

theorem inquiryResult_listing (gap : Gap) (r : InquiryResult) :
    Listing b (.inquiryResult r) (b.inquiryResult gap r).list ∧
      (b.inquiryResult gap r).cont = b.cont := by
  unfold Bt.inquiryResult
  split
  next k found => exact ⟨.touch found (.again r _), rfl⟩
  next absent =>
    split
    case isFalse => exact ⟨.idle, rfl⟩
    case isTrue room =>
      have own : Listing b (.inquiryResult r)
          (b.list.store btMaxScanResults (.append (classicEntry r))) :=
        .add absent room (.classic r (.inl rfl))
      dsimp only
      split
      · split <;> simp [own]
      · split
        next cont =>
          split
          next known =>
            -- The entry gets the name of the cache.
            rw [Bt.store_list, Bt.store_cont, Bt.nameSlot_list, Bt.nameSlot_cont]
            rw [Bt.nameSlot_known known]
            exact ⟨.add absent room (.classic r (.inr ⟨cont, _, rfl⟩)), rfl⟩
          next => simp [own]
        next => simp [own]

theorem nameComplete_listing (gap : Gap) (r : NameComplete) :
    Listing b (.nameComplete r) (b.nameComplete gap r).list ∧
      (b.nameComplete gap r).cont = b.cont := by
  unfold Bt.nameComplete
  dsimp only
  generalize cached : (if b.cont = true then _ else _ : Bt) = b'
  -- The answer is recorded and the next request sent before the list is looked at.
  have same : b'.list = b.list ∧ b'.cont = b.cont := by
    rw [← cached]
    split
    next =>
      obtain ⟨_, _, _, same⟩ :=
        Bt.nameRequestNext_eq (Bt.recordAnswer { b with nameBusy := false } r) gap
      rw [same]
      unfold Bt.recordAnswer
      split <;> exact ⟨rfl, rfl⟩
    next => exact ⟨rfl, rfl⟩
  split
  next k raw found given =>
    rw [same.1] at found
    split
    next empty =>
      rw [Bt.store_list, Bt.store_cont, same.1, same.2]
      rw [same.1] at empty
      exact ⟨.touch found (.named r empty _), rfl⟩
    next => exact ⟨same.1 ▸ .idle, same.2⟩
  next => exact ⟨same.1 ▸ .idle, same.2⟩

theorem advReport_listing (r : AdvReport) :
    Listing b (.advReport r) (b.advReport r).list ∧ (b.advReport r).cont = b.cont := by
  unfold Bt.advReport
  split
  next k found =>
    dsimp only
    split <;> simp only [Bt.store_list, Bt.store_cont, Bt.nameStore_list, Bt.nameStore_cont,
      and_true] <;> exact .touch found (.merged r)
  next absent =>
    split
    case isFalse => exact ⟨.idle, rfl⟩
    case isTrue room =>
      have own : Listing b (.advReport r)
          (b.list.store btMaxScanResults (.append (bleEntry r))) :=
        .add absent room (.ble r (.inl rfl))
      dsimp only
      split
      next cont =>
        split
        · simp [own]
        · split
          next k found =>
            split
            next => exact ⟨.add absent room (.ble r (.inr ⟨cont, _, rfl⟩)), rfl⟩
            next => exact ⟨own, rfl⟩
          next => exact ⟨own, rfl⟩
      next => exact ⟨own, rfl⟩

/-- What a packet does to the list, and that it leaves the target alone. -/
theorem packetHandler_listing (b : Bt) (gap : Gap) (p : Packet) :
    Listing b p (b.packetHandler gap p).list ∧ (b.packetHandler gap p).cont = b.cont := by
  cases p with
  | inquiryResult r => exact inquiryResult_listing gap r
  | nameComplete r => exact nameComplete_listing gap r
  | advReport r => exact advReport_listing r
  | other => exact ⟨.idle, rfl⟩

theorem Bt.step_cont (b : Bt) (e : BtEvent) : (b.step e).cont = b.cont := by
  cases e with
  | packet gap p => exact (packetHandler_listing b gap p).2
  | window l =>
    simp only [Bt.step]
    split <;> rfl

end

/-! ### The list -/

section

variable {b : Bt} {p : Packet} {old cur e : BtScanResult} {l : ScanList BtScanResult}

theorem Touched.sameDevice {cont : Bool} (h : Touched cont old p cur) : SameDevice old cur := by
  cases h with
  | again r rssi => exact (heardAgain_grows old rssi).sameDevice
  | merged r => exact mergeReport_sameDevice cont old r
  | named r empty src =>
    obtain ⟨name, shape⟩ := setName_eq old src
    rw [shape]
    exact ⟨rfl, rfl, rfl, rfl, rfl, rfl, rfl, rfl, rfl⟩

theorem Touched.wellFormed {cont : Bool} (h : Touched cont old p cur) (ok : WellFormed old) :
    WellFormed cur := by
  cases h with
  | again r rssi => exact heardAgain_wellFormed rssi ok
  | merged r => exact mergeReport_wellFormed cont r ok
  | named r empty src => exact setName_wellFormed old src ok

theorem Touched.grows (h : Touched false old p cur) : Grows old cur := by
  cases h with
  | again r rssi => exact heardAgain_grows old rssi
  | merged r => exact mergeReport_grows old r
  | named r empty src =>
    obtain ⟨name, shape⟩ := setName_eq old src
    rw [shape]
    exact { Grows.refl old with name := .inr empty }

theorem Added.addr (h : Added b p e) : ∃ a, p.addr = some a ∧ e.addr = reverseBdAddr a := by
  cases h with
  | classic r => exact ⟨r.addr, rfl, classicEntry_addr r⟩
  | ble r => exact ⟨r.addr, rfl, (bleEntry_sameDevice r).addr⟩

theorem Added.wellFormed (h : Added b p e)
    (names : b.cont = true → ∀ k, (b.names k).name (Fin.last 31) = 0) : WellFormed e := by
  have last {own name : BtName} (named : b.Names own name) (ok : own (Fin.last 31) = 0) :
      name (Fin.last 31) = 0 := by
    rcases named with rfl | ⟨cont, k, rfl⟩
    · exact ok
    · exact names cont k
  cases h with
  | classic r named =>
    have ok := classicEntry_wellFormed r
    exact ⟨last named ok.name, ok.svcDataLen, ok.mfrDataLen⟩
  | ble r named =>
    have ok := bleEntry_wellFormed r
    exact ⟨last named ok.name, ok.svcDataLen, ok.mfrDataLen⟩

/-- The list has room, a device once, and well-formed entries. -/
structure Devices (l : ScanList BtScanResult) : Prop where
  count : l.count ≤ btMaxScanResults
  distinct : ∀ i < l.count, ∀ j < l.count, (l.items i).addr = (l.items j).addr → i = j
  wellFormed : ∀ k < l.count, WellFormed (l.items k)

theorem Devices.reset (l : ScanList BtScanResult) : Devices { l with count := 0 } :=
  ⟨Nat.zero_le _, fun _ inside => absurd inside (Nat.not_lt_zero _),
    fun _ inside => absurd inside (Nat.not_lt_zero _)⟩

/-- The entry that a packet finds is of its device. -/
theorem found_addr {k : Nat} (found : p.addr.bind (findSlotByAddr l) = some k) :
    k < l.count ∧ p.addr.map reverseBdAddr = some (l.items k).addr := by
  obtain ⟨a, own, found⟩ := Option.bind_eq_some_iff.mp found
  obtain ⟨inside, same⟩ := findSlotByAddr_some found
  exact ⟨inside, by rw [own, Option.map_some, same]⟩

theorem Devices.step (h : Devices b.list) (listing : Listing b p l)
    (names : b.cont = true → ∀ k, (b.names k).name (Fin.last 31) = 0) : Devices l := by
  cases listing with
  | idle => exact h
  | @touch k cur found touched =>
    obtain ⟨inside, _⟩ := found_addr found
    have addr (i : Nat) : ((b.list.store btMaxScanResults (.refresh k cur)).items i).addr =
        (b.list.items i).addr := by
      rw [refresh_items inside]
      split
      next here => rw [here, touched.sameDevice.addr]
      next => rfl
    constructor
    · rw [refresh_count]
      exact h.count
    · intro i hi j hj same
      rw [refresh_count] at hi hj
      rw [addr, addr] at same
      exact h.distinct i hi j hj same
    · intro i hi
      rw [refresh_count] at hi
      rw [refresh_items inside]
      split
      next => exact touched.wellFormed (h.wellFormed k inside)
      next => exact h.wellFormed i hi
  | @add e absent room added =>
    obtain ⟨a, own, addr⟩ := added.addr
    rw [own, Option.bind_some] at absent
    have fresh (i : Nat) (hi : i < b.list.count) : (b.list.items i).addr ≠ e.addr := by
      rw [addr]
      exact findSlotByAddr_none absent hi
    constructor
    · rw [append_count room]
      exact room
    · intro i hi j hj same
      rw [append_count room] at hi hj
      rw [append_items room, append_items room] at same
      split at same
      next last =>
        split at same
        next last' => omega
        next => exact absurd same.symm (fresh j (by omega))
      next =>
        split at same
        next => exact absurd same (fresh i (by omega))
        next => exact h.distinct i (by omega) j (by omega) same
    · intro i hi
      rw [append_count room] at hi
      rw [append_items room]
      split
      next => exact added.wellFormed names
      next => exact h.wellFormed i (by omega)

/-- A later state of a one-shot list. -/
structure Grown (old cur : ScanList BtScanResult) : Prop where
  count : old.count ≤ cur.count
  entries : ∀ k < old.count, Grows (old.items k) (cur.items k)

theorem Grown.trans {a b c : ScanList BtScanResult} (h : Grown a b) (h' : Grown b c) : Grown a c :=
  ⟨h.count.trans h'.count, fun k inside =>
    (h.entries k inside).trans (h'.entries k (inside.trans_le h.count))⟩

theorem Grown.refl (l : ScanList BtScanResult) : Grown l l := ⟨Nat.le_refl _, fun _ _ => .refl _⟩

theorem Listing.grown (listing : Listing b p l) (oneShot : b.cont = false) : Grown b.list l := by
  cases listing with
  | idle => exact .refl _
  | @touch k cur found touched =>
    obtain ⟨inside, _⟩ := found_addr found
    refine ⟨Nat.le_of_eq (refresh_count k cur).symm, fun i hi => ?_⟩
    rw [oneShot] at touched
    rw [refresh_items inside]
    split
    next here => rw [here]; exact touched.grows
    next => exact .refl _
  | @add e absent room added =>
    refine ⟨?_, fun i hi => ?_⟩
    · rw [append_count room]
      exact Nat.le_succ _
    · rw [append_items room, if_neg (Nat.ne_of_lt hi)]
      exact .refl _

end

/-! ### In the driver -/

/-- `tgt_items` and `tgt_count` of the driver. -/
def System.target {T : Type} (m : System (bluetooth BtScanResult) T) : ScanList BtScanResult :=
  if m.sh.passCont then m.sh.buf.lists m.sh.buf.sb.fill else m.sh.scan

theorem report_target {T : Type} (m : System (bluetooth BtScanResult) T) (free : m.sh.async = none)
    (w : Option (Store BtScanResult)) :
    (m.report w).target = match w with
      | none => m.target
      | some w => m.target.store btMaxScanResults w := by
  simp only [System.report, free, Option.isNone_none, if_true]
  cases w with
  | none => split <;> rfl
  | some w =>
    cases pass : m.sh.passCont with
    | false =>
      simp only [System.target, pass, Bool.false_eq_true, if_false]
      rfl
    | true =>
      simp only [System.target, pass, if_true]
      exact Function.update_self ..

/-- To the driver a packet is a report. -/
theorem packet_report {T : Type} (m : System (bluetooth BtScanResult) T) (free : m.sh.async = none)
    {b : Bt} (same : b.list = m.target) (gap : Gap) (p : Packet) :
    ∃ r : (bluetooth BtScanResult).Report, (m.report r).target = (b.packetHandler gap p).list := by
  have listing := (packetHandler_listing b gap p).1
  generalize (b.packetHandler gap p).list = l at listing ⊢
  cases listing with
  | idle => exact ⟨none, (report_target m free none).trans same.symm⟩
  | touch => exact ⟨some _, (report_target m free (some _)).trans (by rw [same])⟩
  | add => exact ⟨some _, (report_target m free (some _)).trans (by rw [same])⟩

/-! ### One-shot scans -/

/-- `FILLED_ONCE` of `scantest.c`. -/
def filledOnce {α : Type} [DecidableEq α] (o c none : α) : Bool := o = c || o = none

/-- The string in a name. -/
def nameString (name : BtName) : List UInt8 := (List.ofFn name).takeWhile (· ≠ 0)

/-- `bt_entry_same` of `scantest.c`. -/
def btEntrySame (old cur : BtScanResult) : Bool :=
  if old.addr ≠ cur.addr then false
  else if old.type ≠ cur.type || old.devClass ≠ cur.devClass ||
      old.classOfDevice ≠ cur.classOfDevice || old.addrType ≠ cur.addrType ||
      old.didSource ≠ cur.didSource || old.didVendor ≠ cur.didVendor ||
      old.didProduct ≠ cur.didProduct then false
  else if !filledOnce old.txPower cur.txPower btTxPowerUnknown ||
      !filledOnce old.flags cur.flags btFlagsNone ||
      !filledOnce old.companyId cur.companyId btCompanyNone ||
      !filledOnce old.serviceUuid cur.serviceUuid btServiceNone ||
      !filledOnce old.uuid32 cur.uuid32 btUuid32None ||
      !filledOnce old.svcDataUuid cur.svcDataUuid btServiceNone ||
      !filledOnce old.appearance cur.appearance btAppearanceNone ||
      !filledOnce old.advType cur.advType btAdvTypeNone then false
  else if old.name 0 ≠ 0 && nameString old.name ≠ nameString cur.name then false
  else true

theorem FilledOnce.filledOnce {α : Type} [DecidableEq α] {none old cur : α}
    (h : FilledOnce none old cur) : PicoOS.Scan.filledOnce old cur none = true := by
  rcases h with same | unset
  · simp [PicoOS.Scan.filledOnce, same]
  · simp [PicoOS.Scan.filledOnce, unset]

theorem Grows.btEntrySame {old cur : BtScanResult} (h : Grows old cur) :
    PicoOS.Scan.btEntrySame old cur = true := by
  have name : ¬ (old.name 0 ≠ 0 ∧ nameString old.name ≠ nameString cur.name) := by
    rintro ⟨some, other⟩
    rcases h.name with same | empty
    · exact other (by rw [same])
    · exact some empty
  simp only [PicoOS.Scan.btEntrySame, h.addr, h.type, h.devClass, h.classOfDevice, h.addrType,
    h.didSource, h.didVendor, h.didProduct, h.txPower.filledOnce, h.flags.filledOnce,
    h.companyId.filledOnce, h.serviceUuid.filledOnce, h.uuid32.filledOnce,
    h.svcDataUuid.filledOnce, h.appearance.filledOnce, h.advType.filledOnce]
  simp only [ne_eq, not_true_eq_false, decide_false, Bool.or_self, Bool.false_eq_true, if_false,
    Bool.not_true]
  rw [if_neg]
  simpa using name

/-- The run from the reset of `bt_scan`. -/
theorem oneShot_devices (b : Bt) (es : List BtEvent) :
    Devices (Run.exec Bt.step b.oneShot es).list ∧
      (Run.exec Bt.step b.oneShot es).cont = false := by
  refine Run.exec_invariant (I := fun b : Bt => Devices b.list ∧ b.cont = false) ?_
    ⟨.reset _, rfl⟩ es
  rintro b e ⟨devices, oneShot⟩
  refine ⟨?_, (b.step_cont e).trans oneShot⟩
  cases e with
  | packet gap p =>
    refine devices.step (packetHandler_listing b gap p).1 fun cont => ?_
    rw [oneShot] at cont
    cases cont
  | window l =>
    simp only [Bt.step, oneShot, Bool.false_eq_true, if_false]
    exact devices

theorem oneShot_kept (b : Bt) (pre rest : List BtEvent) :
    Grown (Run.exec Bt.step b.oneShot pre).list
      (Run.exec Bt.step b.oneShot (pre ++ rest)).list := by
  rw [Run.exec_append]
  have now := (oneShot_devices b pre).2
  generalize Run.exec Bt.step b.oneShot pre = s at now
  refine (Run.exec_invariant (I := fun b : Bt => Grown s.list b.list ∧ b.cont = false) ?_
    ⟨.refl _, now⟩ rest).1
  rintro b e ⟨kept, oneShot⟩
  refine ⟨?_, (b.step_cont e).trans oneShot⟩
  cases e with
  | packet gap p => exact kept.trans ((packetHandler_listing b gap p).1.grown oneShot)
  | window l =>
    simp only [Bt.step, oneShot, Bool.false_eq_true, if_false]
    exact kept

/-- The entries of a one-shot scan are written once: at any two points of it, a published entry is
the same for `scantest`, up to fields that were unset; the list only grows, has room for 20 devices,
each once, and its names and data are terminated and inside their arrays. -/
theorem one_shot_write_once (b : Bt) (es : List BtEvent) :
    let list (es : List BtEvent) := (Run.exec Bt.step b.oneShot es).list
    (∀ pre, pre <+: es → (list pre).count ≤ (list es).count ∧
      ∀ k < (list pre).count,
        btEntrySame ((list pre).items k) ((list es).items k) = true ∧
          ((list es).items k).didVersion = ((list pre).items k).didVersion) ∧
      (list es).count ≤ 20 ∧
      (∀ i < (list es).count, ∀ j < (list es).count,
        ((list es).items i).addr = ((list es).items j).addr → i = j) ∧
      ∀ k < (list es).count, WellFormed ((list es).items k) := by
  have devices := (oneShot_devices b es).1
  refine ⟨?_, devices.count, devices.distinct, devices.wellFormed⟩
  rintro pre ⟨rest, rfl⟩
  have kept := oneShot_kept b pre rest
  refine ⟨kept.count, fun k inside => ?_⟩
  have grows := kept.entries k inside
  exact ⟨grows.btEntrySame, grows.didVersion⟩

/-! ### Classic and BLE -/

/-- The record says nothing: every value it has for a field is the one for a field that is unset. -/
structure AdRecord.Blank (r : AdRecord) : Prop where
  serviceUuid : r.type = 0x02 ∨ r.type = 0x03 → 2 ≤ r.data.length → le16 r.data = btServiceNone
  uuid32 : r.type = 0x04 ∨ r.type = 0x05 → 4 ≤ r.data.length → le32 r.data = btUuid32None
  uuid128 : r.type = 0x06 ∨ r.type = 0x07 → 16 ≤ r.data.length →
    le32 (r.data.drop 12) = btUuid32None
  svcData : r.type = 0x16 → 2 ≤ r.data.length → le16 r.data = btServiceNone ∧ r.data.length = 2
  appearance : r.type = 0x19 → 2 ≤ r.data.length → le16 r.data = btAppearanceNone
  flags : r.type = 0x01 → r.data ≠ [] → r.data.getD 0 0 = btFlagsNone
  txPower : r.type = 0x0a → r.data ≠ [] → (r.data.getD 0 0).toInt8 = btTxPowerUnknown
  mfrData : r.type = 0xff → 2 ≤ r.data.length → le16 r.data = btCompanyNone ∧ r.data.length = 2

/-- No field that comes from BLE advertising is set. -/
structure NoAdvertising (e : BtScanResult) : Prop where
  advType : e.advType = btAdvTypeNone
  txPower : e.txPower = btTxPowerUnknown
  flags : e.flags = btFlagsNone
  companyId : e.companyId = btCompanyNone
  serviceUuid : e.serviceUuid = btServiceNone
  uuid32 : e.uuid32 = btUuid32None
  appearance : e.appearance = btAppearanceNone
  svcDataUuid : e.svcDataUuid = btServiceNone
  svcDataLen : e.svcDataLen = 0
  mfrDataLen : e.mfrDataLen = 0

/-- What `bluetooth.h` says of a Classic entry. -/
def ClassicOk (e : BtScanResult) : Prop :=
  e.type = .classic → e.addrType = btAddrTypeNone ∧ NoAdvertising e

/-- What it says of a BLE entry. -/
def BleOk (e : BtScanResult) : Prop :=
  e.type = .ble → e.classOfDevice = 0 ∧ e.devClass = .unknown ∧ e.didSource = btDidNone ∧
    e.didVendor = 0 ∧ e.didProduct = 0 ∧ e.didVersion = 0

/-- An advertising report whose address is listed as Classic has no advertising type, or is a scan
response, and where its data is looked at it says nothing. -/
def Bt.Separates (b : Bt) : BtEvent → Prop
  | .packet _ (.advReport r) =>
    ∀ k, findSlotByAddr b.list r.addr = some k → (b.list.items k).type = .classic →
      (r.rsp = true ∨ r.eventType = btAdvTypeNone) ∧
        (b.cont = true ∨ (b.list.items k).name 0 = 0 → ∀ x ∈ r.ad, x.Blank)
  | _ => True

section

variable {b : Bt} {p : Packet} {old cur e : BtScanResult} {l : ScanList BtScanResult}

theorem Extracted.noAdvertising {rsp fillOnly : Bool} {r : AdRecord}
    (h : Extracted rsp fillOnly e r cur) (blank : r.Blank) (now : NoAdvertising e) :
    NoAdvertising cur := by
  have zero {max : Nat} (dst : Fin max → UInt8) (short : r.data.length = 2) :
      (setBytes dst (r.data.drop 2)).2 = 0 := by
    simp [setBytes, short]
  cases h with
  | same => exact now
  | serviceUuid kind long => exact { now with serviceUuid := blank.serviceUuid kind long }
  | uuid32 kind long => exact { now with uuid32 := blank.uuid32 kind long }
  | uuid128 kind long => exact { now with uuid32 := blank.uuid128 kind long }
  | svcData kind long =>
    obtain ⟨uuid, short⟩ := blank.svcData kind long
    exact { now with svcDataUuid := uuid, svcDataLen := zero e.svcData short }
  | appearance kind long => exact { now with appearance := blank.appearance kind long }
  | name =>
    obtain ⟨name, shape⟩ := setName_eq e r.data
    rw [shape]
    exact { now with }
  | flags kind some => exact { now with flags := blank.flags kind some }
  | txPower kind some => exact { now with txPower := blank.txPower kind some }
  | mfrData kind long =>
    obtain ⟨company, short⟩ := blank.mfrData kind long
    exact { now with companyId := company, mfrDataLen := zero e.mfrData short }

theorem mergeHead_noAdvertising {r : AdvReport} (now : NoAdvertising e)
    (silent : r.rsp = true ∨ r.eventType = btAdvTypeNone) : NoAdvertising (mergeHead e r) := by
  obtain ⟨rssi, n, same⟩ := heardAgain_eq e (bleReportRssi r)
  unfold mergeHead
  rw [same]
  dsimp only
  split
  next set =>
    rcases silent with rsp | none
    · rw [rsp] at set
      cases set.1
    · exact { now with advType := none }
  next => exact { now with }

theorem mergeHead_name (e : BtScanResult) (r : AdvReport) : (mergeHead e r).name = e.name := by
  obtain ⟨rssi, n, same⟩ := heardAgain_eq e (bleReportRssi r)
  unfold mergeHead
  rw [same]
  dsimp only
  split <;> rfl

/-- A packet keeps a Classic entry free of advertising data if it brings none. -/
theorem Touched.noAdvertising {cont : Bool} (h : Touched cont old p cur) (now : NoAdvertising old)
    (separates : ∀ r, p = .advReport r → (r.rsp = true ∨ r.eventType = btAdvTypeNone) ∧
      (cont = true ∨ old.name 0 = 0 → ∀ x ∈ r.ad, x.Blank)) : NoAdvertising cur := by
  cases h with
  | again r rssi =>
    obtain ⟨rssi, n, same⟩ := heardAgain_eq old rssi
    rw [same]
    exact { now with }
  | merged r =>
    obtain ⟨silent, blank⟩ := separates r rfl
    have head := mergeHead_noAdvertising now silent
    rw [mergeReport_eq, mergeHead_name]
    split
    next looks =>
      exact extract_invariant r.ad
        (fun _ _ x member h now => h.noAdvertising (blank looks x member) now) head
    next => exact head
  | named r empty src =>
    obtain ⟨name, shape⟩ := setName_eq old src
    rw [shape]
    exact { now with }

theorem Added.classicOk (h : Added b p e) : ClassicOk e := by
  intro type
  cases h with
  | classic r =>
    obtain ⟨_, _, shape, _⟩ := classicEntry_eq r
    dsimp only
    rw [shape]
    exact ⟨rfl, rfl, rfl, rfl, rfl, rfl, rfl, rfl, rfl, rfl, rfl⟩
  | ble r =>
    have same : (bleEntry r).type = .ble := (bleEntry_sameDevice r).type
    cases type.symm.trans same

theorem Added.bleOk (h : Added b p e) : BleOk e := by
  intro type
  cases h with
  | classic r =>
    obtain ⟨_, _, shape, _⟩ := classicEntry_eq r
    dsimp only at type
    rw [shape] at type
    cases type
  | ble r =>
    have same := bleEntry_sameDevice r
    exact ⟨same.classOfDevice, same.devClass, same.didSource, same.didVendor, same.didProduct,
      same.didVersion⟩

theorem SameDevice.bleOk (same : SameDevice old cur) (ok : BleOk old) : BleOk cur := by
  intro type
  rw [same.classOfDevice, same.devClass, same.didSource, same.didVendor, same.didProduct,
    same.didVersion]
  exact ok (same.type.symm.trans type)

/-- To keep a property of the entries over a packet. -/
theorem Listing.entries {P : BtScanResult → Prop} (listing : Listing b p l)
    (touched : ∀ k cur, p.addr.bind (findSlotByAddr b.list) = some k →
      Touched b.cont (b.list.items k) p cur → P (b.list.items k) → P cur)
    (added : ∀ e, Added b p e → P e) (now : ∀ k < b.list.count, P (b.list.items k)) :
    ∀ k < l.count, P (l.items k) := by
  cases listing with
  | idle => exact now
  | @touch k cur found change =>
    obtain ⟨inside, _⟩ := found_addr found
    intro i hi
    rw [refresh_count] at hi
    rw [refresh_items inside]
    split
    next => exact touched k cur found change (now k inside)
    next => exact now i hi
  | @add e _ room new =>
    intro i hi
    rw [append_count room] at hi
    rw [append_items room]
    split
    next => exact added e new
    next => exact now i (by omega)

theorem bleOk_step {e : BtEvent} (now : ∀ k < b.list.count, BleOk (b.list.items k)) :
    ∀ k < (b.step e).list.count, BleOk ((b.step e).list.items k) := by
  cases e with
  | packet gap p =>
    exact (packetHandler_listing b gap p).1.entries
      (fun _ _ _ touched ok => touched.sameDevice.bleOk ok) (fun _ new => new.bleOk) now
  | window l =>
    simp only [Bt.step]
    split
    next => exact fun k inside => absurd inside (Nat.not_lt_zero k)
    next => exact now

theorem classicOk_step {e : BtEvent} (separates : b.Separates e)
    (now : ∀ k < b.list.count, ClassicOk (b.list.items k)) :
    ∀ k < (b.step e).list.count, ClassicOk ((b.step e).list.items k) := by
  cases e with
  | packet gap p =>
    refine (packetHandler_listing b gap p).1.entries (fun k cur found touched ok type => ?_)
      (fun _ new => new.classicOk) now
    have same := touched.sameDevice
    have before : (b.list.items k).type = .classic := same.type.symm.trans type
    obtain ⟨addrType, none⟩ := ok before
    refine ⟨same.addrType.trans addrType, touched.noAdvertising none ?_⟩
    rintro r rfl
    exact separates k found before
  | window l =>
    simp only [Bt.step]
    split
    next => exact fun k inside => absurd inside (Nat.not_lt_zero k)
    next => exact now

end

/-- The transports stay apart: a BLE entry has no class and no Device ID in any run, and a Classic
entry has no advertising data in every run where no advertising report brings any for an address
that is listed as Classic. `b` is the driver after a reset, of either kind of scan. -/
theorem transports_apart {b : Bt} (reset : b.list.count = 0) (es : List BtEvent) :
    (∀ k < (Run.exec Bt.step b es).list.count, BleOk ((Run.exec Bt.step b es).list.items k)) ∧
      (Run.Along Bt.step Bt.Separates b es →
        ∀ pre, pre <+: es → ∀ k < (Run.exec Bt.step b pre).list.count,
          ClassicOk ((Run.exec Bt.step b pre).list.items k)) := by
  have empty {P : BtScanResult → Prop} : ∀ k < b.list.count, P (b.list.items k) := by
    rw [reset]
    exact fun k inside => absurd inside (Nat.not_lt_zero k)
  refine ⟨?_, ?_⟩
  · exact Run.exec_invariant (I := fun b : Bt => ∀ k < b.list.count, BleOk (b.list.items k))
      (fun _ _ now => bleOk_step now) empty es
  · rintro separates pre ⟨rest, rfl⟩
    have before := ((Run.along_append _ _ _).mp separates).1
    exact before.invariant (I := fun b : Bt => ∀ k < b.list.count, ClassicOk (b.list.items k))
      (fun _ _ now separates => classicOk_step separates now) empty

/-- The statics at power-on. -/
def Bt.zero : Bt where
  cont := false
  list := ⟨0, 0, 0, 0, fun _ => slotInit (fun _ => 0) .classic 0⟩
  names := fun _ => .zero
  nameNext := 0
  nameBusy := false
  nameBusyUs := 0
  asked := none

/-- A dual-mode device answers the inquiry, and then advertises from the same public address. -/
def dualMode (eventType : UInt8) : List BtEvent :=
  let addr : BdAddr := fun _ => 7
  [.packet ⟨0, 0, true⟩ (.inquiryResult ⟨addr, some (-40), 0x240404, none, none, 1, 0⟩),
    .packet ⟨0, 0, true⟩ (.advReport ⟨addr, 0, eventType, -50, []⟩)]

/-- With a scan response alone its entry stays Classic throughout. -/
theorem scan_response_stays_apart :
    (∀ k < (Run.exec Bt.step Bt.zero.oneShot (dualMode 4)).list.count,
      BleOk ((Run.exec Bt.step Bt.zero.oneShot (dualMode 4)).list.items k)) ∧
      (Run.Along Bt.step Bt.Separates Bt.zero.oneShot (dualMode 4) ∧
        ∀ pre, pre <+: dualMode 4 → ∀ k < (Run.exec Bt.step Bt.zero.oneShot pre).list.count,
          ClassicOk ((Run.exec Bt.step Bt.zero.oneShot pre).list.items k)) := by
  have separates : Run.Along Bt.step Bt.Separates Bt.zero.oneShot (dualMode 4) :=
    ⟨trivial, fun k _ _ => ⟨.inl rfl, fun _ x member => nomatch member⟩, trivial⟩
  obtain ⟨ble, classic⟩ := transports_apart (b := Bt.zero.oneShot) rfl (dualMode 4)
  exact ⟨ble, separates, classic separates⟩

/-- With a connectable advertisement it has an advertising type. -/
theorem dual_mode_gets_adv_type :
    let l := (Run.exec Bt.step Bt.zero.oneShot (dualMode 0)).list
    l.count = 1 ∧ (l.items 0).type = .classic ∧ (l.items 0).classOfDevice = 0x240404 ∧
      (l.items 0).advType = 0 ∧ ¬ ∀ k < l.count, ClassicOk (l.items k) := by
  intro l
  have type : (l.items 0).type = .classic := by decide +kernel
  refine ⟨by decide +kernel, type, by decide +kernel, by decide +kernel, fun ok => ?_⟩
  have none := (ok 0 (by decide +kernel) type).2.advType
  exact absurd none (by decide +kernel)

end PicoOS.Scan
