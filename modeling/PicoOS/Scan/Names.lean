import PicoOS.Lib.Recorder
import PicoOS.Scan.Devices
import Mathlib

/-!
# The name cache

A packet finds the entry of its device or adds one, and rewrites that entry. The
free slots are filled in order and then reused in order, so the cache holds
the last 32 additions, each once.
-/
namespace PicoOS.Scan

/-! ### What a packet does to the cache -/

/-- The packet leaves the cache alone, or rewrites the entry of `addr`, which it adds if need be. -/
inductive Caching (b : Bt) (addr : BdAddr) (b' : Bt) : Prop
  | idle (names : b'.names = b.names) (next : b'.nameNext = b.nameNext)
  | entry (e : BtNameEnt)
      (names : b'.names = Function.update (b.nameSlot addr).2.names (b.nameSlot addr).1 e)
      (next : b'.nameNext = (b.nameSlot addr).2.nameNext) (own : e.addr = addr)
      (used : e.state ≠ .free)
      (known : ((b.nameSlot addr).2.names (b.nameSlot addr).1).state = .known → e.state = .known)
      (terminated : ((b.nameSlot addr).2.names (b.nameSlot addr).1).name (Fin.last 31) = 0 →
        e.name (Fin.last 31) = 0)

section

variable {b b' : Bt} {addr : BdAddr}

theorem nameFind_some {k : Nat} (found : b.nameFind addr = some k) :
    k < btNameCache ∧ (b.names k).state ≠ .free ∧ (b.names k).addr = addr := by
  have here := List.find?_some found
  rw [decide_eq_true_eq] at here
  exact ⟨List.mem_range.mp (List.mem_of_find?_eq_some found), here⟩

theorem nameFind_none (absent : b.nameFind addr = none) {k : Nat} (cell : k < btNameCache)
    (used : (b.names k).state ≠ .free) : (b.names k).addr ≠ addr := by
  have other := List.find?_eq_none.mp absent k (List.mem_range.mpr cell)
  rw [decide_eq_true_eq] at other
  exact fun same => other ⟨used, same⟩

theorem nameFind_isSome {k : Nat} (cell : k < btNameCache) (used : (b.names k).state ≠ .free)
    (own : (b.names k).addr = addr) : (b.nameFind addr).isSome = true := by
  rw [Option.isSome_iff_ne_none]
  exact fun absent => nameFind_none absent cell used own

theorem nameFind_congr (state : ∀ k, (b'.names k).state = .free ↔ (b.names k).state = .free)
    (own : ∀ k, (b'.names k).addr = (b.names k).addr) : b'.nameFind addr = b.nameFind addr := by
  simp only [Bt.nameFind, ne_eq, state, own]

theorem nameSlot_found {k : Nat} (found : b.nameFind addr = some k) : b.nameSlot addr = (k, b) := by
  rw [Bt.nameSlot, found]

theorem nameSlot_absent (absent : b.nameFind addr = none) :
    b.nameSlot addr = b.nameAdd addr := by
  rw [Bt.nameSlot, absent]

/-- The slot is of the address, and not free. -/
theorem nameSlot_own : ((b.nameSlot addr).2.names (b.nameSlot addr).1).addr = addr ∧
    ((b.nameSlot addr).2.names (b.nameSlot addr).1).state ≠ .free := by
  cases found : b.nameFind addr with
  | some k =>
    rw [nameSlot_found found]
    exact ⟨(nameFind_some found).2.2, (nameFind_some found).2.1⟩
  | none =>
    rw [nameSlot_absent found]
    simp [Bt.nameAdd, Bt.setNameEnt]

theorem nameStore_caching {name : BtName} (terminated : name (Fin.last 31) = 0) :
    Caching b addr (b.nameStore addr name) :=
  .entry _ rfl rfl nameSlot_own.1 nofun (fun _ => rfl) fun _ => terminated

theorem Caching.congr {c : Bt} (h : Caching b addr b') (names : c.names = b'.names)
    (next : c.nameNext = b'.nameNext) : Caching b addr c := by
  cases h with
  | idle names' next' => exact .idle (names.trans names') (next.trans next')
  | entry e names' next' own used known terminated =>
    exact .entry e (names.trans names') (next.trans next') own used known terminated

theorem Caching.store (h : Caching b addr b') (w : Store BtScanResult) :
    Caching b addr (b'.store w) := h.congr rfl rfl

theorem Caching.request (h : Caching b addr b') (gap : Gap) (raddr : BdAddr) (psrm : UInt8)
    (clk : UInt16) : Caching b addr (b'.nameRequest gap raddr psrm clk).2 := by
  obtain ⟨_, _, _, same⟩ := b'.nameRequest_eq gap raddr psrm clk
  rw [same]
  exact h.congr rfl rfl

/-- The entry is read only. -/
theorem slot_caching : Caching b addr (b.nameSlot addr).2 :=
  .entry _ (Function.update_eq_self _ _).symm rfl nameSlot_own.1 nameSlot_own.2 id id

/-- New paging information keeps to the entry. -/
theorem paging_caching (psrm : UInt8) (clk : UInt16) :
    Caching b addr ((b.nameSlot addr).2.setNameEnt (b.nameSlot addr).1
      { (b.nameSlot addr).2.names (b.nameSlot addr).1 with
        psrm := psrm
        clockOffset := clk }) :=
  .entry _ rfl rfl nameSlot_own.1 nameSlot_own.2 id id

theorem inquiryResult_caching (gap : Gap) (r : InquiryResult) :
    Caching b (reverseBdAddr r.addr) (b.inquiryResult gap r) := by
  have idle : Caching b (reverseBdAddr r.addr) b := .idle rfl rfl
  unfold Bt.inquiryResult
  split
  next => exact idle.store _
  next =>
    split
    case isFalse => exact idle
    case isTrue =>
      dsimp only
      rw [classicEntry_addr]
      split
      next =>
        split
        next => exact (nameStore_caching (classicEntry_wellFormed r).name).store _
        next => exact idle.store _
      next =>
        split
        next =>
          split
          next => exact slot_caching.store _
          next => exact ((paging_caching _ _).store _).request ..
        next => exact (idle.store _).request ..

theorem answered_terminated (e : BtNameEnt) (r : NameComplete) (ok : e.name (Fin.last 31) = 0) :
    (Bt.answered e r).name (Fin.last 31) = 0 := by
  unfold Bt.answered
  cases r.remoteName with
  | none =>
    dsimp only
    rw [Function.update_of_ne (by decide), ok]
  | some raw =>
    dsimp only
    have short : (NameComplete.bytes raw).length ≤ 31 := by
      unfold NameComplete.bytes
      refine (List.takeWhile_sublist _).length_le.trans ?_
      rw [List.length_take]
      exact Nat.min_le_left _ _
    exact List.getD_eq_default _ _ short

theorem recordAnswer_names (r : NameComplete) : (b.recordAnswer r).nameNext = b.nameNext ∧
    ((b.recordAnswer r).names = b.names ∨ ∃ k, b.nameFind (reverseBdAddr r.addr) = some k ∧
      (b.recordAnswer r).names = Function.update b.names k (Bt.answered (b.names k) r)) := by
  unfold Bt.recordAnswer
  split
  next k found => exact ⟨rfl, .inr ⟨k, found, rfl⟩⟩
  next => exact ⟨rfl, .inl rfl⟩

/-- A remote name completion writes the entry of its own address, if there is one. -/
theorem nameComplete_names (gap : Gap) (r : NameComplete) :
    (b.nameComplete gap r).nameNext = b.nameNext ∧
      ((b.nameComplete gap r).names = b.names ∨ ∃ k, b.nameFind (reverseBdAddr r.addr) = some k ∧
        (b.nameComplete gap r).names = Function.update b.names k (Bt.answered (b.names k) r)) := by
  unfold Bt.nameComplete
  dsimp only
  generalize cached : (if b.cont = true then _ else _ : Bt) = b'
  have answer : b'.nameNext = b.nameNext ∧ (b'.names = b.names ∨ ∃ k,
      b.nameFind (reverseBdAddr r.addr) = some k ∧
        b'.names = Function.update b.names k (Bt.answered (b.names k) r)) := by
    rw [← cached]
    split
    case isFalse => exact ⟨rfl, .inl rfl⟩
    case isTrue =>
      obtain ⟨_, _, _, same⟩ :=
        Bt.nameRequestNext_eq (Bt.recordAnswer { b with nameBusy := false } r) gap
      rw [same]
      exact recordAnswer_names (b := { b with nameBusy := false }) r
  split
  next =>
    split
    next => exact answer
    next => exact answer
  next => exact answer

theorem nameComplete_caching (gap : Gap) (r : NameComplete) :
    Caching b (reverseBdAddr r.addr) (b.nameComplete gap r) := by
  obtain ⟨next, same | ⟨k, found, names⟩⟩ := nameComplete_names (b := b) gap r
  · exact .idle same next
  · have slot := nameSlot_found found
    have own := (nameFind_some found).2.2
    refine .entry (Bt.answered (b.names k) r) ?_ ?_ own nofun (fun _ => rfl) ?_
    · rw [slot, names]
    · rw [slot, next]
    · rw [slot]
      exact answered_terminated _ r

theorem advReport_caching (devices : Devices b.list) (r : AdvReport) :
    Caching b (reverseBdAddr r.addr) (b.advReport r) := by
  have idle : Caching b (reverseBdAddr r.addr) b := .idle rfl rfl
  unfold Bt.advReport
  split
  next k found =>
    obtain ⟨inside, own⟩ := findSlotByAddr_some found
    have addr : (mergeReport b.cont (b.list.items k) r).addr = reverseBdAddr r.addr :=
      (mergeReport_sameDevice b.cont _ r).addr.trans own
    have ok := mergeReport_wellFormed b.cont r (devices.wellFormed k inside)
    dsimp only
    rw [addr]
    split
    next => exact (nameStore_caching ok.name).store _
    next => exact idle.store _
  next =>
    have addr : (bleEntry r).addr = reverseBdAddr r.addr := (bleEntry_sameDevice r).addr
    split
    case isFalse => exact idle
    case isTrue =>
      dsimp only
      rw [addr]
      split
      next =>
        split
        next => exact (nameStore_caching (bleEntry_wellFormed r).name).store _
        next =>
          split
          next => split <;> exact idle.store _
          next => exact idle.store _
      next => exact idle.store _

/-- What a packet does to the cache. -/
theorem packetHandler_caching (devices : Devices b.list) (gap : Gap) {p : Packet} {a : BdAddr}
    (about : p.addr = some a) : Caching b (reverseBdAddr a) (b.packetHandler gap p) := by
  cases p with
  | inquiryResult r =>
    cases about
    exact inquiryResult_caching gap r
  | nameComplete r =>
    cases about
    exact nameComplete_caching gap r
  | advReport r =>
    cases about
    exact advReport_caching devices r
  | other => cases about

end

/-! ### The last additions -/

/-- The addresses in the slots, as a recorder of `n` additions. -/
def Bt.recorder (b : Bt) (n : Nat) : Recorder BdAddr := ⟨fun k => (b.names k).addr, n⟩

/-- The cache after the additions `adds`. -/
structure Cached (b : Bt) (adds : List BdAddr) : Prop where
  next : b.nameNext.toNat = if adds.length < btNameCache then 0 else adds.length % btNameCache
  used : ∀ k < btNameCache, (b.names k).state ≠ .free ↔ k < adds.length
  holds : (b.recorder adds.length).Holds btNameCache adds
  nodup : (adds.rtake btNameCache).Nodup
  terminated : ∀ k, (b.names k).name (Fin.last 31) = 0

/-- The address that a packet adds, if it has no entry before and one after. -/
def addition (b b' : Bt) (addr : BdAddr) : List BdAddr :=
  if b.nameFind addr = none ∧ b'.nameFind addr ≠ none then [addr] else []

section

variable {b b' : Bt} {addr : BdAddr} {adds : List BdAddr}

theorem cached_start (b : Bt) : Cached b.start [] where
  next := rfl
  used k _ := ⟨fun used => absurd rfl used, fun inside => absurd inside (Nat.not_lt_zero k)⟩
  holds := Recorder.holds_nil _
  nodup := List.nodup_nil
  terminated _ := rfl

namespace Cached

theorem mem_iff (h : Cached b adds) : addr ∈ adds.rtake btNameCache ↔
    ∃ k < btNameCache, (b.names k).state ≠ .free ∧ (b.names k).addr = addr := by
  rw [h.holds.mem (by decide)]
  constructor
  · rintro ⟨k, cell, inside, own⟩
    exact ⟨k, cell, (h.used k cell).mpr inside, own⟩
  · rintro ⟨k, cell, used, own⟩
    exact ⟨k, cell, (h.used k cell).mp used, own⟩

theorem distinct (h : Cached b adds) {j k : Nat} (jCell : j < btNameCache) (kCell : k < btNameCache)
    (jUsed : (b.names j).state ≠ .free) (kUsed : (b.names k).state ≠ .free)
    (same : (b.names j).addr = (b.names k).addr) : j = k :=
  h.holds.distinct h.nodup jCell ((h.used j jCell).mp jUsed) kCell ((h.used k kCell).mp kUsed) same

theorem absent_iff (h : Cached b adds) :
    b.nameFind addr = none ↔ addr ∉ adds.rtake btNameCache := by
  rw [h.mem_iff]
  constructor
  · rintro absent ⟨k, cell, used, own⟩
    exact nameFind_none absent cell used own
  · intro new
    cases found : b.nameFind addr with
    | none => rfl
    | some k =>
      obtain ⟨cell, used, own⟩ := nameFind_some found
      exact absurd ⟨k, cell, used, own⟩ new

/-- A free slot, or the one that was filled first, is the next in turn. -/
theorem nameAdd (h : Cached b adds) (addr : BdAddr) :
    (b.nameAdd addr).1 = adds.length % btNameCache ∧
      (b.nameAdd addr).2.nameNext.toNat =
        if adds.length + 1 < btNameCache then 0 else (adds.length + 1) % btNameCache := by
  have free (k : Nat) (cell : k < btNameCache) :
      (b.names k).state = .free ↔ adds.length ≤ k := by
    rw [← not_iff_not, ← ne_eq, h.used k cell, Nat.not_le]
  by_cases room : adds.length < btNameCache
  · -- The used slots are the first ones, so the search stops at their number.
    have found : ((List.range btNameCache).find? fun k => (b.names k).state = .free) =
        some adds.length := by
      rw [List.find?_range_eq_some]
      refine ⟨by simpa using (free _ room).mpr (Nat.le_refl _), List.mem_range.mpr room, ?_⟩
      intro k before
      have used := (h.used k (before.trans room)).mpr before
      simpa using used
    have next := h.next
    rw [if_pos room] at next
    simp only [Bt.nameAdd, found, Option.getD_some, Option.isNone_some, Bool.false_eq_true,
      if_false, Bt.setNameEnt, Nat.mod_eq_of_lt room, next, true_and]
    split
    next => rfl
    next full =>
      have last : adds.length + 1 = btNameCache := by omega
      rw [last, Nat.mod_self]
  · -- No slot is free, and `g_name_next` has counted the additions from the first reuse on.
    have none : ((List.range btNameCache).find? fun k => (b.names k).state = .free) = none := by
      refine List.find?_eq_none.mpr fun k member => ?_
      have cell := List.mem_range.mp member
      have used := (h.used k cell).mpr (by omega)
      simpa using used
    have next := h.next
    rw [if_neg room] at next
    simp only [Bt.nameAdd, none, Option.getD_none, Option.isNone_none, if_true, Bt.setNameEnt]
    refine ⟨next, ?_⟩
    rw [if_neg (by omega), UInt8.toNat_mod, UInt8.toNat_add, next]
    simp only [btNameCache, UInt8.toNat_one, UInt8.reduceToNat]
    omega

/-- The entry of a cached address is rewritten. -/
theorem rewrite (h : Cached b adds) {k : Nat} (found : b.nameFind addr = some k) {e : BtNameEnt}
    (names : b'.names = Function.update b.names k e) (next : b'.nameNext = b.nameNext)
    (own : e.addr = addr) (used : e.state ≠ .free) (ok : e.name (Fin.last 31) = 0) :
    Cached b' adds ∧ b'.nameFind addr = b.nameFind addr := by
  obtain ⟨cell, before, mine⟩ := nameFind_some found
  have addrs (i : Nat) : (b'.names i).addr = (b.names i).addr := by
    rw [names, Function.update_apply]
    split
    next here => rw [own, here, mine]
    next => rfl
  have states (i : Nat) : (b'.names i).state = .free ↔ (b.names i).state = .free := by
    rw [names, Function.update_apply]
    split
    next here =>
      rw [here]
      exact iff_of_false used before
    next => rfl
  refine ⟨⟨?_, fun i inside => ?_, ?_, h.nodup, fun i => ?_⟩, nameFind_congr states addrs⟩
  · rw [next]
    exact h.next
  · rw [← h.used i inside, ne_eq, ne_eq, states]
  · have same : b'.recorder adds.length = b.recorder adds.length := by
      simp only [Bt.recorder, addrs]
    rw [same]
    exact h.holds
  · rw [names, Function.update_apply]
    split
    next => exact ok
    next => exact h.terminated i

/-- A new address takes the next slot in turn. -/
theorem add (h : Cached b adds) (absent : b.nameFind addr = none) {e : BtNameEnt}
    (names : b'.names = Function.update b.names (adds.length % btNameCache) e)
    (next : b'.nameNext.toNat =
      if adds.length + 1 < btNameCache then 0 else (adds.length + 1) % btNameCache)
    (own : e.addr = addr) (used : e.state ≠ .free) (ok : e.name (Fin.last 31) = 0) :
    Cached b' (adds ++ [addr]) ∧ b'.nameFind addr ≠ none := by
  have cell : adds.length % btNameCache < btNameCache := Nat.mod_lt _ (by decide)
  have here : b'.names (adds.length % btNameCache) = e := by
    rw [names, Function.update_self]
  refine ⟨⟨?_, fun k inside => ?_, ?_, ?_, fun k => ?_⟩, ?_⟩
  · rw [List.length_append, List.length_singleton]
    exact next
  · rw [List.length_append, List.length_singleton, names, Function.update_apply]
    split
    next mine =>
      refine iff_of_true used ?_
      rw [mine]
      exact Nat.lt_succ_of_le (Nat.mod_le _ _)
    next other =>
      rw [h.used k inside]
      refine ⟨fun before => by omega, fun before => ?_⟩
      have apart : k ≠ adds.length := by
        rintro rfl
        exact other (Nat.mod_eq_of_lt inside).symm
      omega
  · have put : b'.recorder (adds ++ [addr]).length =
        (b.recorder adds.length).put btNameCache addr := by
      simp only [Bt.recorder, Recorder.put, List.length_append, List.length_singleton,
        Recorder.mk.injEq, and_true]
      funext k
      rw [names, Function.update_apply, Function.update_apply]
      split
      next => exact own
      next => rfl
    rw [put]
    exact h.holds.put addr
  · exact Recorder.nodup_put h.nodup (h.absent_iff.mp absent)
  · rw [names, Function.update_apply]
    split
    next => exact ok
    next => exact h.terminated k
  · rw [← Option.isSome_iff_ne_none]
    exact nameFind_isSome cell (here ▸ used) (here ▸ own)

/-- The slot of an address that is not cached, and what else is in its place. -/
theorem nameAdd_names (b : Bt) (addr : BdAddr) (e : BtNameEnt) :
    Function.update (b.nameAdd addr).2.names (b.nameAdd addr).1 e =
      Function.update b.names (b.nameAdd addr).1 e := by
  simp [Bt.nameAdd, Bt.setNameEnt]

theorem step (h : Cached b adds) (caching : Caching b addr b') :
    Cached b' (adds ++ addition b b' addr) := by
  cases caching with
  | idle names next =>
    have same : b'.nameFind addr = b.nameFind addr :=
      nameFind_congr (fun k => by rw [names]) fun k => by rw [names]
    have none : addition b b' addr = [] := by
      rw [addition, same]
      exact if_neg fun both => both.2 both.1
    rw [none, List.append_nil]
    have cached : b'.recorder adds.length = b.recorder adds.length := by
      simp only [Bt.recorder, names]
    exact ⟨next ▸ h.next, names ▸ h.used, cached ▸ h.holds, h.nodup, names ▸ h.terminated⟩
  | entry e names next own used known terminated =>
    cases found : b.nameFind addr with
    | some k =>
      rw [nameSlot_found found] at names next terminated
      obtain ⟨cached, _⟩ := h.rewrite found names next own used (terminated (h.terminated k))
      have none : addition b b' addr = [] := by
        rw [addition, found]
        exact if_neg fun both => nomatch both.1
      rw [none, List.append_nil]
      exact cached
    | none =>
      rw [nameSlot_absent found] at names next terminated
      obtain ⟨slot, turn⟩ := h.nameAdd addr
      rw [nameAdd_names, slot] at names
      have ok : e.name (Fin.last 31) = 0 := by
        refine terminated ?_
        simp only [Bt.nameAdd, Bt.setNameEnt, Function.update_self]
        rw [Function.update_of_ne (by decide)]
        exact h.terminated _
      obtain ⟨cached, here⟩ := h.add found names (next ▸ turn) own used ok
      have new : addition b b' addr = [addr] := if_pos ⟨found, here⟩
      rw [new]
      exact cached

end Cached

/-- A name that is known stays known until its address loses its slot. -/
def KnownStays (b b' : Bt) : Prop :=
  ∀ k < btNameCache, (b.names k).state = .known →
    ((b'.names k).state = .known ∧ (b'.names k).addr = (b.names k).addr) ∨
      b'.nameFind (b.names k).addr = none

theorem Cached.knownStays (h : Cached b adds) (caching : Caching b addr b') : KnownStays b b' := by
  intro k cell state
  cases caching with
  | idle names =>
    rw [names]
    exact .inl ⟨state, rfl⟩
  | entry e names next own used known =>
    cases found : b.nameFind addr with
    | some j =>
      rw [nameSlot_found found] at names known
      rw [names, Function.update_apply]
      split
      next here =>
        rw [here] at state ⊢
        exact .inl ⟨known state, own.trans (nameFind_some found).2.2.symm⟩
      next => exact .inl ⟨state, rfl⟩
    | none =>
      rw [nameSlot_absent found, nameAdd_names] at names
      generalize (b.nameAdd addr).1 = j at names
      have busy : (b.names k).state ≠ .free := by
        rw [state]
        nofun
      by_cases here : k = j
      · -- Its slot is reused, and no other slot has the address.
        right
        cases lost : b'.nameFind (b.names k).addr with
        | none => rfl
        | some i =>
          obtain ⟨iCell, iUsed, iOwn⟩ := nameFind_some lost
          rw [names, Function.update_apply] at iUsed iOwn
          split at iOwn
          next mine => exact absurd (iOwn.symm.trans own) (nameFind_none found cell busy)
          next other =>
            rw [if_neg other] at iUsed
            have same := h.distinct iCell cell iUsed busy iOwn
            exact absurd (same.trans here) other
      · rw [names, Function.update_of_ne here]
        exact .inl ⟨state, rfl⟩

end

/-! ### A session -/

/-- The addresses that an event adds to the cache. -/
def Bt.additions (b : Bt) : BtEvent → List BdAddr
  | .packet gap p =>
    match p.addr with
    | some a => addition b (b.packetHandler gap p) (reverseBdAddr a)
    | none => []
  | .window _ => []

/-- The driver, and every address added to its cache so far. -/
def logStep (t : Bt × List BdAddr) (e : BtEvent) : Bt × List BdAddr :=
  (t.1.step e, t.2 ++ t.1.additions e)

/-- A cache that holds the last additions. -/
structure Newest (b : Bt) (adds : List BdAddr) : Prop where
  /-- No address is in two slots. -/
  distinct : ∀ j < 32, ∀ k < 32, (b.names j).state ≠ .free → (b.names k).state ≠ .free →
    (b.names j).addr = (b.names k).addr → j = k
  /-- As many slots are used as there were additions, up to 32. -/
  used : ∀ k < 32, (b.names k).state ≠ .free ↔ k < adds.length
  /-- The addresses are those of the last 32 additions, which differ. -/
  last : ∀ addr, (∃ k < 32, (b.names k).state ≠ .free ∧ (b.names k).addr = addr) ↔
    addr ∈ adds.rtake 32
  nodup : (adds.rtake 32).Nodup
  /-- Each addition has the slot of the one 32 before it. -/
  turns : ∀ n addr, adds.length ≤ n + 32 → adds[n]? = some addr → (b.names (n % 32)).addr = addr
  terminated : ∀ k < 32, (b.names k).name (Fin.last 31) = 0

/-- What an event does to names that are there: known ones stay known, and a remote name completion
writes the entries of its own address only, in the cache and in the list. -/
structure NamesKept (b : Bt) (e : BtEvent) : Prop where
  known : KnownStays b (b.step e)
  own : ∀ gap r, e = .packet gap (.nameComplete r) →
    (∀ k, (b.step e).names k = b.names k ∨
      (b.names k).state ≠ .free ∧ (b.names k).addr = reverseBdAddr r.addr) ∧
    ∀ k < b.list.count, (b.step e).list.items k = b.list.items k ∨
      (b.list.items k).addr = reverseBdAddr r.addr

theorem Cached.newest {b : Bt} {adds : List BdAddr} (h : Cached b adds) : Newest b adds where
  distinct _ jCell _ kCell jUsed kUsed := h.distinct jCell kCell jUsed kUsed
  used := h.used
  last _ := h.mem_iff.symm
  nodup := h.nodup
  turns n addr recent at_ := by
    refine h.holds.kept n addr ?_ at_
    simp only [Recorder.first, Bt.recorder, btNameCache]
    omega
  terminated k _ := h.terminated k

/-- What a session keeps. -/
structure Session.Ok (t : Bt × List BdAddr) : Prop where
  devices : Devices t.1.list
  cached : Cached t.1 t.2

theorem sessionOk_step {t : Bt × List BdAddr} (h : Session.Ok t) (e : BtEvent) :
    Session.Ok (logStep t e) := by
  obtain ⟨b, adds⟩ := t
  cases e with
  | packet gap p =>
    refine ⟨h.devices.step (packetHandler_listing b gap p).1 fun _ => h.cached.terminated, ?_⟩
    simp only [logStep, Bt.additions, Bt.step]
    cases about : p.addr with
    | some a => exact h.cached.step (packetHandler_caching h.devices gap about)
    | none =>
      cases p with
      | other =>
        rw [List.append_nil]
        exact h.cached
      | _ => cases about
  | window l =>
    simp only [logStep, Bt.additions, Bt.step, List.append_nil]
    split
    next => exact ⟨.reset l, h.cached.next, h.cached.used, h.cached.holds, h.cached.nodup,
        h.cached.terminated⟩
    next => exact h

theorem namesKept {t : Bt × List BdAddr} (h : Session.Ok t) (e : BtEvent) : NamesKept t.1 e := by
  obtain ⟨b, adds⟩ := t
  have idle : KnownStays b b := fun k _ known => .inl ⟨known, rfl⟩
  refine ⟨?_, ?_⟩
  · cases e with
    | packet gap p =>
      cases about : p.addr with
      | some a => exact h.cached.knownStays (packetHandler_caching h.devices gap about)
      | none =>
        cases p with
        | other => exact idle
        | _ => cases about
    | window l =>
      simp only [Bt.step]
      split
      next => exact idle
      next => exact idle
  · rintro gap r rfl
    refine ⟨fun k => ?_, fun k inside => ?_⟩
    · obtain ⟨_, same | ⟨j, found, names⟩⟩ := nameComplete_names (b := b) gap r
      · exact .inl (congrFun same k)
      · by_cases here : k = j
        · rw [here]
          exact .inr (nameFind_some found).2
        · exact .inl ((congrFun names k).trans (Function.update_of_ne here ..))
    · have listing := (packetHandler_listing b gap (.nameComplete r)).1
      simp only [Bt.step]
      generalize (b.packetHandler gap (.nameComplete r)).list = l at listing ⊢
      cases listing with
      | idle => exact .inl rfl
      | @touch j cur found =>
        obtain ⟨bound, own⟩ := found_addr found
        rw [refresh_items bound]
        split
        next here =>
          rw [here]
          exact .inr (Option.some.inj own).symm
        next => exact .inl rfl
      | add _ _ new => cases new

/-- The name cache over one continuous session: it holds the last 32 additions, each once and in
turn, its names are terminated, a known name stays known while it is cached, and a remote name
completion touches only its own address. -/
theorem name_cache (b : Bt) (es : List BtEvent) :
    (Run.exec logStep (b.start, []) es).1 = Run.exec Bt.step b.start es ∧
      Newest (Run.exec logStep (b.start, []) es).1 (Run.exec logStep (b.start, []) es).2 ∧
      Run.Along Bt.step NamesKept b.start es := by
  have start : Session.Ok (b.start, []) := ⟨.reset _, cached_start b⟩
  generalize b.start = s, ([] : List BdAddr) = adds at start ⊢
  induction es generalizing s adds with
  | nil => exact ⟨rfl, start.cached.newest, trivial⟩
  | cons e es ih =>
    obtain ⟨same, newest, kept⟩ := ih _ _ (sessionOk_step start e)
    exact ⟨same, newest, namesKept start e, kept⟩

end PicoOS.Scan
