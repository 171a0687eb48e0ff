import PicoOS.Lib.Roster
import PicoOS.Scan.Wifi
import Mathlib

/-!
# The list of WiFi networks

What `scan_result_cb` makes of the reports of one scan or window: a roster of the
networks, each with the identity of its first report and the reading of the
latest one that counts.
-/
namespace PicoOS.Scan

/-- `scan_result_cb`, with what it does to the list. -/
def hears (l : ScanList WifiScanResult) (r : BssInfo) : ScanList WifiScanResult :=
  match scanResultCb l r with
  | none => l
  | some w => l.store Radio.wifi.cap w

/-- A list as `wifi_scan`, `wifi_scan_start` and `cont_poll` leave it to the callback. -/
def ScanList.reset {α : Type} (l : ScanList α) : ScanList α := { l with count := 0 }

/-- The report that an entry goes by: the latest one after the first with a negative RSSI, or the
first. -/
def latest (first : BssInfo) (later : List BssInfo) : BssInfo :=
  (later.filter (·.rssi < 0)).getLastD first

/-- An entry, given the reports of its network: it has the identity of the first one, and the RSSI
and the `fill_extra` fields of the latest one that counts. -/
structure Recorded (e : WifiScanResult) (first : BssInfo) (later : List BssInfo) : Prop where
  ssid : ∃ n : Fin 33, n.val = min 32 first.ssidLen.toNat ∧ e.ssid n = 0 ∧
    ∀ i : Fin 32, i.val < n.val → e.ssid i.castSucc = first.ssid i
  bssid : e.bssid = first.bssid
  channel : e.channel = first.channel.toUInt8
  authMode : e.authMode = first.authMode.toUInt8
  rssi : e.rssi = (latest first later).rssi
  extra : fillExtra e (latest first later) = e

/-! ### In the drivers -/

section

variable {T : Type} (m : System wifi T) (r : BssInfo)

/-- A report of a one-shot scan is heard by `g_scan`. -/
theorem report_oneShot (free : m.sh.async = none) (pass : m.sh.passCont = false) :
    (m.report r).sh.scan = hears m.sh.scan r := by
  have store : wifi.store m.sh.scan r = scanResultCb m.sh.scan r := rfl
  simp only [System.report, free, pass, Option.isNone_none, if_true, hears, store]
  cases scanResultCb m.sh.scan r <;> rfl

/-- A report of a continuous pass is heard by the fill list. -/
theorem report_window (free : m.sh.async = none) (pass : m.sh.passCont = true) :
    (m.report r).sh.buf.lists m.sh.buf.sb.fill = hears (m.sh.buf.lists m.sh.buf.sb.fill) r := by
  have store : wifi.store (m.sh.buf.lists m.sh.buf.sb.fill) r =
      scanResultCb (m.sh.buf.lists m.sh.buf.sb.fill) r := rfl
  simp only [System.report, free, pass, Option.isNone_none, if_true, hears, store]
  cases scanResultCb (m.sh.buf.lists m.sh.buf.sb.fill) r with
  | none => rfl
  | some w => exact Function.update_self ..

end

/-! ### Entries -/

theorem fillExtra_identity (e : WifiScanResult) (r : BssInfo) :
    (fillExtra e r).ssid = e.ssid ∧ (fillExtra e r).bssid = e.bssid ∧
      (fillExtra e r).channel = e.channel ∧ (fillExtra e r).authMode = e.authMode ∧
      (fillExtra e r).rssi = e.rssi := by
  unfold fillExtra
  dsimp only
  split_ifs <;> exact ⟨rfl, rfl, rfl, rfl, rfl⟩

/-- What `fill_extra` writes does not depend on what was there. -/
theorem fillExtra_fillExtra (e : WifiScanResult) (r : BssInfo) :
    fillExtra (fillExtra e r) r = fillExtra e r := by
  unfold fillExtra
  dsimp only
  split_ifs <;> rfl

/-- The refreshed entry. -/
def refreshed (e : WifiScanResult) (r : BssInfo) : WifiScanResult :=
  fillExtra { e with rssi := r.rssi } r

theorem fillEntry_recorded (e : WifiScanResult) (r : BssInfo) : Recorded (fillEntry e r) r [] := by
  obtain ⟨ssid, bssid, channel, authMode, rssi⟩ := fillExtra_identity
    { e with
      ssid := fun i =>
        if h : i.val < (if r.ssidLen < 32 then r.ssidLen.toNat else 32) ∧ i.val < 32 then r.ssid ⟨i, h.2⟩
        else if i.val = (if r.ssidLen < 32 then r.ssidLen.toNat else 32) then 0
        else e.ssid i
      bssid := r.bssid
      rssi := r.rssi
      channel := r.channel.toUInt8
      authMode := r.authMode.toUInt8 } r
  have length : (if r.ssidLen < 32 then r.ssidLen.toNat else 32) = min 32 r.ssidLen.toNat := by
    split
    next short =>
      have : r.ssidLen.toNat < 32 := UInt8.lt_iff_toNat_lt.mp short
      omega
    next long =>
      have : ¬ r.ssidLen.toNat < 32 := fun short => long (UInt8.lt_iff_toNat_lt.mpr short)
      omega
  refine ⟨⟨⟨min 32 r.ssidLen.toNat, by omega⟩, rfl, ?_, fun i inside => ?_⟩, bssid, channel, authMode,
    rssi, fillExtra_fillExtra _ r⟩
  · rw [fillEntry, ssid]
    dsimp only
    rw [length, dif_neg (by omega), if_pos rfl]
  · rw [fillEntry, ssid]
    dsimp only
    rw [length, dif_pos ⟨inside, i.isLt⟩]
    rfl

namespace Recorded

variable {e : WifiScanResult} {first r : BssInfo} {later : List BssInfo}

/-- A later report with a negative RSSI. -/
theorem refresh (h : Recorded e first later) (negative : r.rssi < 0) :
    Recorded (refreshed e r) first (later ++ [r]) := by
  obtain ⟨ssid, bssid, channel, authMode, rssi⟩ := fillExtra_identity { e with rssi := r.rssi } r
  have newest : latest first (later ++ [r]) = r := by
    simp [latest, negative]
  refine ⟨?_, bssid.trans h.bssid, channel.trans h.channel, authMode.trans h.authMode, ?_, ?_⟩
  · obtain ⟨n, length, zero, same⟩ := h.ssid
    refine ⟨n, length, ?_, fun i inside => ?_⟩
    · rw [refreshed, ssid]
      exact zero
    · rw [refreshed, ssid]
      exact same i inside
  · rw [newest]
    exact rssi
  · rw [newest]
    exact fillExtra_fillExtra _ r

/-- A later report without one. -/
theorem ignore (h : Recorded e first later) (bogus : ¬ r.rssi < 0) :
    Recorded e first (later ++ [r]) := by
  have same : latest first (later ++ [r]) = latest first later := by
    simp [latest, bogus]
  exact ⟨h.ssid, h.bssid, h.channel, h.authMode, by rw [same]; exact h.rssi,
    by rw [same]; exact h.extra⟩

end Recorded

/-! ### The list -/

section

variable {l : ScanList WifiScanResult} {rs : List BssInfo} {r : BssInfo}

theorem window_getElem? (l : ScanList WifiScanResult) (k : Nat) :
    l.window[k]? = if k < l.count then some (l.items k) else none := by
  rw [ScanList.window, List.getElem?_map]
  split
  next inside => rw [List.getElem?_range inside, Option.map_some]
  next beyond => rw [List.getElem?_eq_none (by simpa using beyond), Option.map_none]

theorem window_length (l : ScanList WifiScanResult) : l.window.length = l.count := by
  simp [ScanList.window]

/-- What a report does to the entries of a list. -/
inductive Hears (w : List WifiScanResult) (r : BssInfo) : List WifiScanResult → Prop where
  | refresh (k : Nat) {e : WifiScanResult} (at_ : w[k]? = some e) (own : e.bssid = r.bssid)
    (negative : r.rssi < 0) : Hears w r (w.set k (refreshed e r))
  | ignore (k : Nat) {e : WifiScanResult} (at_ : w[k]? = some e) (own : e.bssid = r.bssid)
    (bogus : ¬ r.rssi < 0) : Hears w r w
  | full (absent : ∀ e ∈ w, e.bssid ≠ r.bssid) (room : Radio.wifi.cap ≤ w.length) : Hears w r w
  | add (e : WifiScanResult) (absent : ∀ e ∈ w, e.bssid ≠ r.bssid)
    (room : w.length < Radio.wifi.cap) : Hears w r (w ++ [fillEntry e r])

theorem hears_window (l : ScanList WifiScanResult) (r : BssInfo) :
    Hears l.window r (hears l r).window := by
  unfold hears scanResultCb
  cases found : findBssid l r.bssid with
  | some k =>
    have inside := List.find?_some found
    have listed : k < l.count := List.mem_range.mp (List.mem_of_find?_eq_some found)
    have own : (l.items k).bssid = r.bssid := by simpa using inside
    have at_ : l.window[k]? = some (l.items k) := by rw [window_getElem?, if_pos listed]
    dsimp only
    by_cases negative : r.rssi < 0
    · rw [if_pos negative]
      rw [window_store]
      exact .refresh k at_ own negative
    · rw [if_neg negative]
      exact .ignore k at_ own negative
  | none =>
    have absent : ∀ e ∈ l.window, e.bssid ≠ r.bssid := by
      intro e member
      obtain ⟨k, listed, rfl⟩ := List.mem_map.mp member
      simpa using List.find?_eq_none.mp found k listed
    dsimp only
    by_cases room : l.count ≥ Radio.wifi.cap
    · rw [if_pos room]
      exact .full absent (by rw [window_length]; exact room)
    · rw [if_neg room]
      have room : l.window.length < Radio.wifi.cap := by rw [window_length]; omega
      rw [window_store, Store.apply, if_pos room]
      exact .add _ absent room

/-- An entry and all the reports of its network. -/
def Entry (e : WifiScanResult) (rs : List BssInfo) : Prop :=
  ∃ first later, rs = first :: later ∧ Recorded e first later

/-- The list is a roster of the networks. -/
abbrev Networks (w : List WifiScanResult) (rs : List BssInfo) : Prop :=
  Roster.Lists BssInfo.bssid WifiScanResult.bssid Entry Radio.wifi.cap w rs

theorem Networks.hears {w w' : List WifiScanResult} (h : Networks w rs) (step : Hears w r w') :
    Networks w' (rs ++ [r]) := by
  cases step with
  | refresh k at_ own negative =>
    rename_i e
    obtain ⟨first, later, all, entry⟩ := h.entries e (List.mem_of_getElem? at_)
    refine h.update at_ own.symm (fillExtra_identity _ r).2.1 ⟨first, later ++ [r], ?_, ?_⟩
    · rw [all]
      rfl
    · exact entry.refresh negative
  | ignore k at_ own bogus =>
    rename_i e
    obtain ⟨first, later, all, entry⟩ := h.entries e (List.mem_of_getElem? at_)
    refine h.skip at_ own.symm ⟨first, later ++ [r], ?_, entry.ignore bogus⟩
    rw [all]
    rfl
  | full absent room => exact h.full (fun e member => (absent e member).symm) room
  | add e absent room =>
    have entry := fillEntry_recorded e r
    exact h.add (fun e member => (absent e member).symm) room entry.bssid.symm ⟨r, [], rfl, entry⟩

theorem networks_reports (l : ScanList WifiScanResult) (rs : List BssInfo) :
    Networks (rs.foldl PicoOS.Scan.hears l.reset).window rs := by
  induction rs using List.reverseRecOn with
  | nil => exact .nil
  | append_singleton rs r ih =>
    rw [List.foldl_append]
    exact ih.hears (hears_window _ r)

end

/-- `wifi_entry_ok` of `scantest.c`. -/
def wifiEntryOk (e : WifiScanResult) : Bool :=
  if !(List.finRange 33).any (fun i => e.ssid i = 0) then false
  else if e.channel < 1 || e.channel > 14 then false
  else if e.rssi < -127 || e.rssi > 0 then false
  else true

theorem wifiEntryOk_iff (e : WifiScanResult) :
    wifiEntryOk e = true ↔
      (∃ i, e.ssid i = 0) ∧ (1 ≤ e.channel ∧ e.channel ≤ 14) ∧ -127 ≤ e.rssi ∧ e.rssi ≤ 0 := by
  simp only [wifiEntryOk, Bool.not_eq_true', Bool.or_eq_true, decide_eq_true_eq, Bool.if_false_left,
    Bool.and_true, Bool.and_eq_true, Bool.not_eq_true', not_or,
    UInt8.not_lt, gt_iff_lt, Int16.not_lt, Bool.eq_false_iff, ne_eq, not_not, List.any_eq_true,
    List.mem_finRange, true_and]

/-- What the firmware is known for: a channel of the band, and no RSSI below -127. -/
structure Plausible (r : BssInfo) : Prop where
  channel : 1 ≤ r.channel ∧ r.channel ≤ 14
  rssi : -127 ≤ r.rssi

theorem Plausible.channel_toUInt8 {r : BssInfo} (h : Plausible r) :
    1 ≤ r.channel.toUInt8 ∧ r.channel.toUInt8 ≤ 14 := by
  have low := UInt16.le_iff_toNat_le.mp h.channel.1
  have high := UInt16.le_iff_toNat_le.mp h.channel.2
  have same : r.channel.toUInt8.toNat = r.channel.toNat := by
    rw [UInt16.toNat_toUInt8]
    exact Nat.mod_eq_of_lt (by have : (14 : UInt16).toNat = 14 := rfl; omega)
  exact ⟨UInt8.le_iff_toNat_le.mpr (same ▸ low), UInt8.le_iff_toNat_le.mpr (same ▸ high)⟩

theorem fillEntry_ok_iff (e : WifiScanResult) {r : BssInfo} (firmware : Plausible r) :
    wifiEntryOk (fillEntry e r) = true ↔ r.rssi ≤ 0 := by
  have entry := fillEntry_recorded e r
  obtain ⟨n, _, zero, _⟩ := entry.ssid
  have rssi : (fillEntry e r).rssi = r.rssi := entry.rssi
  rw [wifiEntryOk_iff, entry.channel, rssi]
  exact ⟨fun ok => ok.2.2.2, fun low => ⟨⟨n, zero⟩, firmware.channel_toUInt8, firmware.rssi, low⟩⟩

theorem refreshed_ok {e : WifiScanResult} {r : BssInfo} (ok : wifiEntryOk e = true)
    (firmware : Plausible r) (negative : r.rssi < 0) : wifiEntryOk (refreshed e r) = true := by
  obtain ⟨ssid, _, channel, _, rssi⟩ := fillExtra_identity { e with rssi := r.rssi } r
  rw [wifiEntryOk_iff] at ok ⊢
  rw [refreshed, ssid, channel, rssi]
  exact ⟨ok.1, ok.2.1, firmware.rssi, Int16.le_of_lt negative⟩

/-- Every entry is well formed throughout a scan or window if and only if no report that makes an
entry has a positive RSSI. -/
theorem wifi_entries_ok_iff (l : ScanList WifiScanResult) (rs : List BssInfo)
    (firmware : ∀ r ∈ rs, Plausible r) :
    (∀ pre, pre <+: rs → ∀ e ∈ (pre.foldl hears l.reset).window, wifiEntryOk e = true) ↔
      ∀ pre r, pre ++ [r] <+: rs → r.bssid ∉ pre.map (·.bssid) →
        (pre.map (·.bssid)).eraseDups.length < 16 → r.rssi ≤ 0 := by
  constructor
  · intro throughout pre r inside new room
    have roster := networks_reports l pre
    have new : r.bssid ∉ Roster.heard BssInfo.bssid pre := by
      rw [Roster.heard, List.mem_eraseDups]
      exact new
    have absent := roster.absent_of_new new
    have length : (pre.foldl hears l.reset).window.length < Radio.wifi.cap := by
      rw [roster.length]
      exact lt_of_le_of_lt (min_le_right _ _) room
    have after := throughout _ inside
    rw [List.foldl_append] at after
    have step := hears_window (pre.foldl hears l.reset) r
    simp only [List.foldl_cons, List.foldl_nil] at after
    generalize (hears (pre.foldl hears l.reset) r).window = w at step after
    cases step with
    | refresh k at_ own => exact absurd own.symm (absent _ (List.mem_of_getElem? at_))
    | ignore k at_ own => exact absurd own.symm (absent _ (List.mem_of_getElem? at_))
    | full _ noRoom => omega
    | add e =>
      have heard := firmware r (inside.subset (by simp))
      exact (fillEntry_ok_iff e heard).mp (after _ (by simp))
  · intro first pre inside
    induction pre using List.reverseRecOn with
    | nil => exact fun e member => by cases member
    | append_singleton pre r ih =>
      have before := ih ((List.prefix_append _ _).trans inside)
      have heard := firmware r (inside.subset (by simp))
      have roster := networks_reports l pre
      have step := hears_window (pre.foldl hears l.reset) r
      rw [List.foldl_append, List.foldl_cons, List.foldl_nil]
      generalize (hears (pre.foldl hears l.reset) r).window = w at step ⊢
      cases step with
      | refresh k at_ own negative =>
        intro e member
        rcases List.mem_or_eq_of_mem_set member with old | rfl
        · exact before e old
        · exact refreshed_ok (before _ (List.mem_of_getElem? at_)) heard negative
      | ignore => exact before
      | full => exact before
      | add e absent room =>
        obtain ⟨new, short⟩ := roster.new_of_room (fun e member => (absent e member).symm) room
        rw [Roster.heard, List.mem_eraseDups] at new
        intro x member
        rcases List.mem_append.mp member with old | last
        · exact before x old
        · rw [List.mem_singleton.mp last]
          exact (fillEntry_ok_iff e heard).mpr (first pre r inside new short)

/-- A report of a network on channel 6 with some RSSI. -/
def onChannel6 (rssi : Int16) : BssInfo where
  length := bssExtent
  bssid := fun _ => 7
  beaconPeriod := 100
  capability := 0
  ssidLen := 4
  ssid := fun _ => 0x61
  ratesetCount := 0
  ratesetRates := fun _ => 0
  channel := 6
  authMode := 0
  rssi := rssi
  phyNoise := 0
  nCap := 0
  nbssCap := 0
  snr := 0

/-- A negative reading first, and a bogus one after it. -/
theorem wifi_entries_ok_bogusLater :
    ([onChannel6 (-40), onChannel6 5].foldl hears
      (ScanList.reset ⟨0, 0, 0, 0, fun _ => WifiScanResult.zero⟩)).count = 1 ∧
      ∀ e ∈ ([onChannel6 (-40), onChannel6 5].foldl hears
        (ScanList.reset ⟨0, 0, 0, 0, fun _ => WifiScanResult.zero⟩)).window,
          wifiEntryOk e = true := by
  refine ⟨by decide +kernel, ?_⟩
  refine (wifi_entries_ok_iff _ [onChannel6 (-40), onChannel6 5] ?_).mpr ?_ _ (List.prefix_refl _)
  · intro r member
    rcases List.mem_cons.mp member with rfl | member
    · exact ⟨by decide, by decide⟩
    · rw [List.mem_singleton.mp member]
      exact ⟨by decide, by decide⟩
  · intro pre r inside new _
    cases pre with
    | nil =>
      obtain ⟨rfl, _⟩ := List.cons_prefix_cons.mp inside
      decide
    | cons x pre =>
      obtain ⟨rfl, rest⟩ := List.cons_prefix_cons.mp inside
      have last : r = onChannel6 5 := List.mem_singleton.mp (rest.subset (by simp))
      refine absurd ?_ new
      simp [last, onChannel6]

/-- A bogus reading that comes first is stored. -/
theorem bogus_first_stored :
    ¬ ∀ e ∈ ([onChannel6 5].foldl hears
      (ScanList.reset ⟨0, 0, 0, 0, fun _ => WifiScanResult.zero⟩)).window, wifiEntryOk e = true := by
  decide

end PicoOS.Scan
