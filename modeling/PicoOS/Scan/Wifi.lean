import Mathlib
import PicoOS.Scan.Driver

/-!
# WiFi scan results

What `scan_result_cb` makes of a record from the firmware, and the WiFi driver.
The chip reports a network many times; its entry is made by the first report
and refreshed by later ones. The Bluetooth driver is given here by what
`packet_handler` decides to do with its list.
-/
namespace PicoOS.Scan

/-- `wifi_scan_result_t`. -/
structure WifiScanResult where
  ssid : Fin 33 → UInt8
  bssid : Fin 6 → UInt8
  rssi : Int16
  channel : UInt8
  authMode : UInt8
  noise : Int8
  snr : Int8
  beaconTu : UInt16
  capability : UInt16
  maxRate : UInt8
  phy : UInt8
  deriving DecidableEq

/-- A zeroed entry. -/
def WifiScanResult.zero : WifiScanResult :=
  ⟨fun _ => 0, fun _ => 0, 0, 0, 0, 0, 0, 0, 0, 0, 0⟩

/-- `cyw43_ev_scan_result_t` and the `wifi_bss_info_t` behind it: the fields that are read. -/
structure BssInfo where
  length : UInt32
  bssid : Fin 6 → UInt8
  beaconPeriod : UInt16
  capability : UInt16
  ssidLen : UInt8
  ssid : Fin 32 → UInt8
  ratesetCount : UInt32
  ratesetRates : Fin 16 → UInt8
  channel : UInt16
  authMode : UInt16
  rssi : Int16
  phyNoise : Int8
  nCap : UInt8
  nbssCap : UInt32
  snr : Int16

def phyOfdm : UInt8 := 1
def phyHt : UInt8 := 2
def phyHt40 : UInt8 := 4

def bssHtCap40Mhz : UInt32 := 2

/-- `offsetof(wifi_bss_info_t, snr) + sizeof(bss->snr)`. -/
def bssExtent : UInt32 := 126

/-- The highest legacy rate, without the basic bit. -/
def maxRate (r : BssInfo) : UInt8 :=
  ((List.finRange 16).filter fun i => i.val < r.ratesetCount.toNat).foldl
    (fun max i => if r.ratesetRates i &&& 0x7f > max then r.ratesetRates i &&& 0x7f else max) 0

/-- `fill_extra`: records too short for them leave noise and SNR at 0. -/
def fillExtra (e : WifiScanResult) (r : BssInfo) : WifiScanResult :=
  let e := { e with
    beaconTu := r.beaconPeriod
    capability := r.capability
    maxRate := maxRate r
    phy := if maxRate r > 22 then phyOfdm else 0 }
  if r.length < bssExtent then
    { e with noise := 0, snr := 0 }
  else
    let e := { e with
      noise := r.phyNoise
      snr := (if r.snr > 127 then 127 else if r.snr < 0 then 0 else r.snr).toInt8 }
    if r.nCap ≠ 0 then
      let e := { e with phy := e.phy ||| phyHt }
      if r.nbssCap &&& bssHtCap40Mhz ≠ 0 then { e with phy := e.phy ||| phyHt40 } else e
    else e

/-- The new entry, made over what the slot held before. -/
def fillEntry (e : WifiScanResult) (r : BssInfo) : WifiScanResult :=
  let len := if r.ssidLen < 32 then r.ssidLen.toNat else 32
  fillExtra
    { e with
      ssid := fun i =>
        if h : i.val < len ∧ i.val < 32 then r.ssid ⟨i, h.2⟩
        else if i.val = len then 0
        else e.ssid i
      bssid := r.bssid
      rssi := r.rssi
      channel := r.channel.toUInt8
      authMode := r.authMode.toUInt8 } r

/-- The first entry of this network. -/
def findBssid (l : ScanList WifiScanResult) (bssid : Fin 6 → UInt8) : Option Nat :=
  (List.range l.count).find? fun k => (l.items k).bssid = bssid

/-- `scan_result_cb`, on the list it is to write. -/
def scanResultCb (l : ScanList WifiScanResult) (r : BssInfo) : Option (Store WifiScanResult) :=
  match findBssid l r.bssid with
  | some k =>
    if r.rssi < 0 then
      some (.refresh k (fillExtra { l.items k with rssi := r.rssi } r))
    else none
  | none =>
    if l.count ≥ Radio.wifi.cap then none
    else some (.append (fillEntry (l.items l.count) r))

def wifi : Driver where
  radio := .wifi
  Item := WifiScanResult
  Report := BssInfo
  store := scanResultCb

/-- A report stands for what `packet_handler` does with it. -/
def bluetooth (Item : Type) : Driver where
  radio := .bt
  Item := Item
  Report := Option (Store Item)
  store := fun _ w => w

end PicoOS.Scan
