import Mathlib
import PicoOS.Lib.Mailbox
import PicoOS.Lib.Run

/-!
# The triple buffer

`scanbuf.c`, and the lists whose roles it rotates. The radio driver writes
`lists[fill]`, `cont_poll` and `bt_scan_poll` publish it, and `*_scan_wait`
takes the newest published one. Over any run of one session this is a mailbox
for the newest window, with every lost window counted.
-/
namespace PicoOS.Scan

/-- `scanbuf_t`. -/
structure Scanbuf where
  fill : UInt8
  ready : UInt8
  held : UInt8
  fresh : Bool
  seq : UInt32
  dropped : UInt32
  deriving DecidableEq

/-- `scanbuf_init`. -/
def scanbufInit : Scanbuf :=
  { fill := 0, ready := 1, held := 2, fresh := false, seq := 0, dropped := 0 }

/-- `scanbuf_publish`. -/
def scanbufPublish (b : Scanbuf) : Scanbuf :=
  { b with
    fill := b.ready
    ready := b.fill
    fresh := true
    seq := b.seq + 1
    dropped := if b.fresh then b.dropped + 1 else b.dropped }

/-- `scanbuf_take`. -/
def scanbufTake (b : Scanbuf) : Scanbuf × Bool :=
  if b.fresh then
    ({ b with held := b.ready, ready := b.held, fresh := false }, true)
  else
    (b, false)

/-- `wifi_scan_list_t` and `bt_scan_list_t`: only the first `count` items are valid. -/
structure ScanList (α : Type) where
  seq : UInt32
  dropped : UInt32
  windowMs : UInt32
  count : Nat
  items : Nat → α

/-- What a driver's callback does to a list: publish a new entry, if there is room, or rewrite a
published one. -/
inductive Store (α : Type) where
  | append (a : α)
  | refresh (k : Nat) (a : α)
  deriving DecidableEq

section
variable {α : Type} (cap : Nat)

/-- The valid entries. -/
def ScanList.window (l : ScanList α) : List α := (List.range l.count).map l.items

def ScanList.store (l : ScanList α) : Store α → ScanList α
  | .append a =>
    if l.count < cap then
      { l with items := Function.update l.items l.count a, count := l.count + 1 }
    else l
  | .refresh k a => if k < l.count then { l with items := Function.update l.items k a } else l

/-- The same on the entries themselves. -/
def Store.apply (w : List α) : Store α → List α
  | .append a => if w.length < cap then w ++ [a] else w
  | .refresh k a => w.set k a

/-- `g_sb` and `g_lists`. -/
structure Buffers (α : Type) where
  sb : Scanbuf
  lists : UInt8 → ScanList α

namespace Buffers

def setList (b : Buffers α) (i : UInt8) (l : ScanList α) : Buffers α :=
  { b with lists := Function.update b.lists i l }

/-- The part of `*_scan_start` that resets them. -/
def start (b : Buffers α) : Buffers α where
  sb := scanbufInit
  lists i := if i < 3 then { b.lists i with count := 0 } else b.lists i

/-- The part of `cont_poll` and `bt_scan_poll` that publishes a window. -/
def publish (b : Buffers α) (ms : UInt32) : Buffers α :=
  let b := b.setList b.sb.fill { b.lists b.sb.fill with windowMs := ms }
  let b := { b with sb := scanbufPublish b.sb }
  let b := b.setList b.sb.ready { b.lists b.sb.ready with seq := b.sb.seq }
  let b := b.setList b.sb.ready { b.lists b.sb.ready with dropped := b.sb.dropped }
  b.setList b.sb.fill { b.lists b.sb.fill with count := 0 }

def take (b : Buffers α) : Buffers α × Bool :=
  let (sb, took) := scanbufTake b.sb
  ({ b with sb := sb }, took)

def write (b : Buffers α) (s : Store α) : Buffers α :=
  b.setList b.sb.fill ((b.lists b.sb.fill).store cap s)

end Buffers
end

/-! ### Sessions -/

inductive Op (α : Type) where
  | store (s : Store α)
  | publish (ms : UInt32)
  | take

/-- The buffers, and each list as it was when a take returned it, oldest first. -/
structure Session (α : Type) where
  buf : Buffers α
  got : List (ScanList α)

section
variable {α : Type} (cap : Nat)

def Session.init (b : Buffers α) : Session α := ⟨b.start, []⟩

def Session.step (s : Session α) : Op α → Session α
  | .store w => { s with buf := s.buf.write cap w }
  | .publish ms => { s with buf := s.buf.publish ms }
  | .take =>
    match s.buf.take with
    | (b, true) => ⟨b, s.got ++ [b.lists b.sb.held]⟩
    | (b, false) => { s with buf := b }

/-- What an operation means for the mailbox: a window is its entries and its duration. -/
def Op.toMail : Op α → Mailbox.Op (List α × UInt32)
  | .store w => .edit fun d => (w.apply cap d.1, d.2)
  | .publish ms => .publish fun d => (d.1, ms)
  | .take => .take

/-- The mailbox after a run. -/
def mail (ops : List (Op α)) : Mailbox.State (List α × UInt32) :=
  Run.exec (Mailbox.step ([], 0)) (Mailbox.init ([], 0)) (ops.map (Op.toMail cap))

end

/-- A list holds a window: its entries, its duration, and its numbers in 32 bits. -/
structure Holds {α : Type} (l : ScanList α) (w : Mailbox.Parcel (List α × UInt32)) : Prop where
  window : l.window = w.body.1
  windowMs : l.windowMs = w.body.2
  seq : l.seq = UInt32.ofNat w.number
  dropped : l.dropped = UInt32.ofNat w.lost

/-- The three roles are played by three different lists of `g_lists`. -/
structure Scanbuf.Distinct (b : Scanbuf) : Prop where
  fillReady : b.fill ≠ b.ready
  readyHeld : b.ready ≠ b.held
  fillHeld : b.fill ≠ b.held
  bounds : b.fill < 3 ∧ b.ready < 3 ∧ b.held < 3

namespace Scanbuf.Distinct

variable {b : Scanbuf}

theorem init : scanbufInit.Distinct := ⟨by decide, by decide, by decide, by decide⟩

theorem publish (d : b.Distinct) : (scanbufPublish b).Distinct :=
  ⟨d.fillReady.symm, d.fillHeld, d.readyHeld, d.bounds.2.1, d.bounds.1, d.bounds.2.2⟩

theorem take (d : b.Distinct) : (scanbufTake b).1.Distinct := by
  unfold scanbufTake
  split
  next => exact ⟨d.fillHeld, d.readyHeld.symm, d.fillReady, d.bounds.1, d.bounds.2.2, d.bounds.2.1⟩
  next => exact d

end Scanbuf.Distinct

/-! ### Refinement -/

section
variable {α : Type} {cap : Nat} {s : Session α} {m : Mailbox.State (List α × UInt32)}

theorem window_store (l : ScanList α) (w : Store α) :
    (l.store cap w).window = w.apply cap l.window := by
  have length : l.window.length = l.count := by simp [ScanList.window]
  cases w with
  | append a =>
    simp only [ScanList.store, Store.apply, length]
    split
    next =>
      simp only [ScanList.window, List.range_succ, List.map_append, List.map_singleton,
        Function.update_self]
      congr 1
      refine List.map_congr_left fun k member => ?_
      have : k ≠ l.count := Nat.ne_of_lt (List.mem_range.mp member)
      simp [this]
    next => rfl
  | refresh k a =>
    simp only [ScanList.store, Store.apply]
    split
    next small =>
      refine List.ext_getElem (by simp [ScanList.window]) fun j h₁ h₂ => ?_
      simp only [ScanList.window, List.getElem_map, List.getElem_range, List.getElem_set]
      by_cases eq : k = j
      · subst eq
        simp
      · simp [eq, Ne.symm eq]
    next large => rw [List.set_eq_of_length_le (by omega)]

section

variable {l : ScanList α}

theorem refresh_items {k : Nat} (inside : k < l.count) (a : α) (i : Nat) :
    (l.store cap (.refresh k a)).items i = if i = k then a else l.items i := by
  rw [ScanList.store, if_pos inside]
  exact Function.update_apply ..

theorem refresh_count (k : Nat) (a : α) : (l.store cap (.refresh k a)).count = l.count := by
  simp only [ScanList.store]
  split <;> rfl

theorem append_items (room : l.count < cap) (a : α) (i : Nat) :
    (l.store cap (.append a)).items i = if i = l.count then a else l.items i := by
  rw [ScanList.store, if_pos room]
  exact Function.update_apply ..

theorem append_count (room : l.count < cap) (a : α) :
    (l.store cap (.append a)).count = l.count + 1 := by
  rw [ScanList.store, if_pos room]

end

/-- The session and the mailbox agree. -/
structure Refines (s : Session α) (m : Mailbox.State (List α × UInt32)) : Prop where
  distinct : s.buf.sb.Distinct
  fill : (s.buf.lists s.buf.sb.fill).window = m.draft.1
  fresh : s.buf.sb.fresh = m.unread.isSome
  ready : ∀ w, m.unread = some w → Holds (s.buf.lists s.buf.sb.ready) w
  got : List.Forall₂ Holds s.got m.delivered
  held : ∀ l, s.got.getLast? = some l → s.buf.lists s.buf.sb.held = l
  seq : s.buf.sb.seq = UInt32.ofNat m.published
  dropped : s.buf.sb.dropped = UInt32.ofNat m.lost

theorem Refines.init (b : Buffers α) : Refines (Session.init b) (Mailbox.init ([], 0)) where
  distinct := .init
  fill := by simp [Session.init, Buffers.start, scanbufInit, ScanList.window, Mailbox.init]
  fresh := rfl
  ready w h := by cases h
  got := .nil
  held l h := by cases h
  seq := rfl
  dropped := rfl

theorem Refines.step (r : Refines s m) (op : Op α) :
    Refines (s.step cap op) (Mailbox.step ([], 0) m (op.toMail cap)) := by
  obtain ⟨fillReady, readyHeld, fillHeld, bounds⟩ := r.distinct
  cases op with
  | store w =>
    -- Only the fill list changes.
    have same (i) (h : i ≠ s.buf.sb.fill) : (s.buf.write cap w).lists i = s.buf.lists i := by
      simp [Buffers.write, Buffers.setList, h]
    refine ⟨r.distinct, ?_, r.fresh, fun v unread => ?_, r.got, fun l last => ?_, r.seq, r.dropped⟩
    · simp [Session.step, Buffers.write, Buffers.setList, window_store, r.fill, Op.toMail, Mailbox.step]
    · show Holds ((s.buf.write cap w).lists s.buf.sb.ready) v
      rw [same _ fillReady.symm]
      exact r.ready v unread
    · show (s.buf.write cap w).lists s.buf.sb.held = l
      rw [same _ fillHeld.symm]
      exact r.held l last
  | publish ms =>
    -- The old fill list becomes the ready one, stamped; the old ready list is emptied.
    have sb : (s.buf.publish ms).sb = scanbufPublish s.buf.sb := rfl
    have ready : (s.buf.publish ms).lists s.buf.sb.fill =
        { s.buf.lists s.buf.sb.fill with
          windowMs := ms
          seq := (scanbufPublish s.buf.sb).seq
          dropped := (scanbufPublish s.buf.sb).dropped } := by
      simp only [Buffers.publish, Buffers.setList, scanbufPublish, Function.update_self,
        Function.update_of_ne fillReady]
      rfl
    have fill : ((s.buf.publish ms).lists s.buf.sb.ready).count = 0 := by
      simp [Buffers.publish, Buffers.setList, scanbufPublish]
    have held : (s.buf.publish ms).lists s.buf.sb.held = s.buf.lists s.buf.sb.held := by
      simp [Buffers.publish, Buffers.setList, scanbufPublish, fillHeld.symm, readyHeld.symm]
    have seq : (scanbufPublish s.buf.sb).seq = UInt32.ofNat (m.published + 1) := by
      show s.buf.sb.seq + 1 = _
      rw [r.seq, UInt32.ofNat_add]
      rfl
    have dropped : (scanbufPublish s.buf.sb).dropped =
        UInt32.ofNat (if m.unread.isSome then m.lost + 1 else m.lost) := by
      show (if s.buf.sb.fresh then s.buf.sb.dropped + 1 else s.buf.sb.dropped) = _
      rw [r.fresh, r.dropped]
      split
      · rw [UInt32.ofNat_add]
        rfl
      · rfl
    refine ⟨r.distinct.publish, ?_, rfl, fun v unread => ?_, r.got, fun l last => ?_, seq, dropped⟩
    · show ((s.buf.publish ms).lists s.buf.sb.ready).window = []
      simp [ScanList.window, fill]
    · cases unread
      show Holds ((s.buf.publish ms).lists s.buf.sb.fill) _
      rw [ready]
      exact ⟨r.fill, rfl, seq, dropped⟩
    · show (s.buf.publish ms).lists s.buf.sb.held = l
      rw [held]
      exact r.held l last
  | take =>
    cases unread : m.unread with
    | none =>
      have stale : s.buf.sb.fresh = false := by rw [r.fresh, unread]; rfl
      have same : s.step cap .take = s := by
        simp [Session.step, Buffers.take, scanbufTake, stale]
      rw [same]
      simpa only [Op.toMail, Mailbox.step, unread] using r
    | some w =>
      have fresh : s.buf.sb.fresh = true := by rw [r.fresh, unread]; rfl
      have took : s.step cap .take =
          ⟨{ s.buf with sb := (scanbufTake s.buf.sb).1 },
            s.got ++ [s.buf.lists s.buf.sb.ready]⟩ := by
        simp [Session.step, Buffers.take, scanbufTake, fresh]
      have sb : (scanbufTake s.buf.sb).1 =
          { s.buf.sb with held := s.buf.sb.ready, ready := s.buf.sb.held, fresh := false } := by
        simp [scanbufTake, fresh]
      rw [took, sb]
      simp only [Op.toMail, Mailbox.step, unread]
      refine ⟨sb ▸ r.distinct.take, r.fill, rfl, fun v h => (by cases h), ?_, fun l last => ?_, r.seq,
        r.dropped⟩
      · exact List.rel_append r.got (.cons (r.ready w unread) .nil)
      · simpa using last

theorem refines_run (cap : Nat) (b : Buffers α) (ops : List (Op α)) :
    Refines (Run.exec (Session.step cap) (Session.init b) ops) (mail cap ops) ∧
      Mailbox.Sound (mail cap ops) := by
  have both (s : Session α) (m) (r : Refines s m) (sound : Mailbox.Sound m) :
      Refines (Run.exec (Session.step cap) s ops)
        (Run.exec (Mailbox.step ([], 0)) m (ops.map (Op.toMail cap))) ∧
      Mailbox.Sound (Run.exec (Mailbox.step ([], 0)) m (ops.map (Op.toMail cap))) := by
    induction ops generalizing s m with
    | nil => exact ⟨r, sound⟩
    | cons op ops ih => exact ih _ _ (r.step op) (sound.step _)
  exact both _ _ (.init b) .init

/-! ### One session -/

def Op.isPublish : Op α → Bool
  | .publish _ => true
  | _ => false

def Op.toStore? : Op α → Option (Store α)
  | .store w => some w
  | _ => none

/-- The entries that a list gets from the stores of some operations, beginning empty. -/
def stored (cap : Nat) (ops : List (Op α)) : List α :=
  (ops.filterMap Op.toStore?).foldl (Store.apply cap) []

theorem mail_append (ops ops' : List (Op α)) :
    mail cap (ops ++ ops') =
      Run.exec (Mailbox.step ([], 0)) (mail cap ops) (ops'.map (Op.toMail cap)) := by
  rw [mail, List.map_append, Run.exec_append]
  rfl

/-- Without a publish, the stores add to the draft. -/
theorem draft_stores (cap : Nat) (m : Mailbox.State (List α × UInt32)) {mid : List (Op α)}
    (quiet : ∀ op ∈ mid, op.isPublish = false) :
    (Run.exec (Mailbox.step ([], 0)) m (mid.map (Op.toMail cap))).draft.1 =
      (mid.filterMap Op.toStore?).foldl (Store.apply cap) m.draft.1 := by
  induction mid generalizing m with
  | nil => rfl
  | cons op mid ih =>
    rw [List.map_cons, Run.exec_cons, ih _ fun op' h => quiet op' (by simp [h])]
    cases op with
    | store w => rfl
    | publish ms => cases quiet (.publish ms) (by simp)
    | take =>
      simp only [Op.toMail, Mailbox.step, List.filterMap_cons, Op.toStore?]
      split <;> rfl

/-- The window of a publish: what was stored since the publish before it. -/
theorem unread_after_publish (cap : Nat) {pre mid : List (Op α)} (ms : UInt32)
    (start : pre = [] ∨ ∃ pre' ms', pre = pre' ++ [.publish ms'])
    (quiet : ∀ op ∈ mid, op.isPublish = false) :
    ∃ w, (mail cap (pre ++ mid ++ [.publish ms])).unread = some w ∧ w.body = (stored cap mid, ms) := by
  have empty : (mail cap pre).draft.1 = [] := by
    rcases start with rfl | ⟨pre', ms', rfl⟩
    · rfl
    · rw [mail_append]
      rfl
  have draft := draft_stores cap (mail cap pre) quiet
  rw [empty] at draft
  refine ⟨_, by rw [mail_append]; rfl, ?_⟩
  dsimp only
  rw [mail_append, draft]
  rfl

/-- Stores leave the unread window alone. -/
theorem unread_stores (m : Mailbox.State (List α × UInt32)) (post : List (Store α)) :
    (Run.exec (Mailbox.step ([], 0)) m ((post.map Op.store).map (Op.toMail cap))).unread =
      m.unread := by
  induction post generalizing m with
  | nil => rfl
  | cons w post ih => exact ih _

theorem held_of_forall₂ {ls : List (ScanList α)} {ws : List (Mailbox.Parcel (List α × UInt32))}
    (all : List.Forall₂ Holds ls ws) {l : ScanList α} (member : l ∈ ls) : ∃ w ∈ ws, Holds l w := by
  induction all with
  | nil => cases member
  | cons first rest ih =>
    rcases List.mem_cons.mp member with rfl | later
    · exact ⟨_, by simp, first⟩
    · obtain ⟨w, there, holds⟩ := ih later
      exact ⟨w, by simp [there], holds⟩

/-- For every run of a session: the roles are three lists; the takes return the windows that the
mailbox delivers, in the order of their publishes and none twice; a take returns what was stored
between the two publishes before it; the list of the last take stays as it was; every publish is
delivered, dropped or fresh. The numbers are kept in 32 bits, and below that bound the delivered
sequence numbers increase. -/
theorem session_delivers_newest (cap : Nat) (b : Buffers α) (ops : List (Op α)) :
    let s := Run.exec (Session.step cap) (Session.init b) ops
    let m := mail cap ops
    s.buf.sb.Distinct ∧
    List.Forall₂ Holds s.got m.delivered ∧
    (m.delivered.Pairwise fun v w => v.number < w.number) ∧
    (∀ (pre mid : List (Op α)) (post : List (Store α)) (ms : UInt32),
      ops = pre ++ mid ++ [.publish ms] ++ post.map .store →
      (pre = [] ∨ ∃ pre' ms', pre = pre' ++ [.publish ms']) →
      (∀ op ∈ mid, op.isPublish = false) →
      ∃ l, (s.step cap .take).got = s.got ++ [l] ∧ l.window = stored cap mid ∧ l.windowMs = ms) ∧
    (∀ l, s.got.getLast? = some l → s.buf.lists s.buf.sb.held = l) ∧
    m.published = s.got.length + m.lost + (if s.buf.sb.fresh then 1 else 0) ∧
    s.buf.sb.seq = UInt32.ofNat m.published ∧
    s.buf.sb.dropped = UInt32.ofNat m.lost ∧
    (m.published < 2 ^ 32 → s.got.Pairwise fun k l => k.seq < l.seq) := by
  intro s m
  obtain ⟨r, sound⟩ := refines_run cap b ops
  refine ⟨r.distinct, r.got, sound.increasing, fun pre mid post ms split start quiet => ?_, r.held,
    ?_, r.seq, r.dropped, fun small => ?_⟩
  · obtain ⟨w, unread, body⟩ := unread_after_publish cap ms start quiet
    have now : m.unread = some w := by
      show (mail cap ops).unread = some w
      rw [split, mail_append, unread_stores, unread]
    have fresh : s.buf.sb.fresh = true := by rw [r.fresh, now]; rfl
    have holds := r.ready w now
    refine ⟨s.buf.lists s.buf.sb.ready, ?_, ?_, ?_⟩
    · simp [Session.step, Buffers.take, scanbufTake, fresh]
    · rw [holds.window, body]
    · rw [holds.windowMs, body]
  · rw [r.got.length_eq, sound.count, r.fresh]
    cases (mail cap ops).unread <;> rfl
  · -- Below 2 ^ 32 the numbers are their own remainders.
    have past : ∀ w ∈ m.delivered, w.number ≤ m.published := sound.past
    have increasing : m.delivered.Pairwise fun v w => v.number < w.number := sound.increasing
    have got : List.Forall₂ Holds s.got m.delivered := r.got
    generalize m.delivered = ws at got past increasing
    generalize s.got = ls at got ⊢
    induction got with
    | nil => exact .nil
    | @cons l w ls ws first rest ih =>
      obtain ⟨newer, later⟩ := List.pairwise_cons.mp increasing
      refine List.pairwise_cons.mpr
        ⟨fun k member => ?_, ih (fun v h => past v (by simp [h])) later⟩
      obtain ⟨v, there, holds⟩ := held_of_forall₂ rest member
      have := newer v there
      have := past v (by simp [there])
      rw [first.seq, holds.seq, UInt32.lt_iff_toNat_lt, UInt32.toNat_ofNat', UInt32.toNat_ofNat']
      omega

/-! ### The counters wrap -/

theorem exec_publishes (cap : Nat) (m : Mailbox.State (List α × UInt32)) (n : Nat) :
    (Run.exec (Mailbox.step ([], 0)) m
      ((List.replicate n (.publish 0 : Op α)).map (Op.toMail cap))).published = m.published + n ∧
    (Run.exec (Mailbox.step ([], 0)) m
      ((List.replicate n (.publish 0 : Op α)).map (Op.toMail cap))).delivered = m.delivered := by
  induction n generalizing m with
  | zero => exact ⟨rfl, rfl⟩
  | succ n ih =>
    rw [List.replicate_succ, List.map_cons, Run.exec_cons]
    obtain ⟨published, delivered⟩ := ih (Mailbox.step ([], 0) m ((Op.publish 0).toMail cap))
    refine ⟨published.trans ?_, delivered⟩
    show m.published + 1 + n = _
    omega

end

/-- One window is taken, `n + 1` more are published, and the newest of them is taken. -/
def wrapOps (n : Nat) : List (Op Unit) :=
  [Op.publish 0, Op.take] ++ List.replicate n (Op.publish 0) ++ [Op.publish 0, Op.take]

theorem wrapOps_delivered (n : Nat) :
    ((mail 16 (wrapOps n)).delivered.map fun w => w.number) = [1, n + 2] := by
  obtain ⟨published, delivered⟩ :=
    exec_publishes 16 (mail 16 [.publish 0, (.take : Op Unit)]) n
  rw [wrapOps, mail_append, mail_append]
  generalize Run.exec _ _ (List.map _ (List.replicate _ _)) = m at published delivered ⊢
  show ((m.delivered ++ [(⟨m.published + 1, _, _⟩ : Mailbox.Parcel (List Unit × UInt32))]).map
    fun w => w.number) = _
  rw [delivered, List.map_append, List.map_singleton, published]
  show [1, 1 + n + 1] = [1, n + 2]
  rw [Nat.add_comm 1 n]

theorem wrapOps_seq (n : Nat) (b : Buffers Unit) :
    ((Run.exec (Session.step 16) (Session.init b) (wrapOps n)).got.map fun l => l.seq) =
      [1, UInt32.ofNat (n + 2)] := by
  obtain ⟨r, -⟩ := refines_run 16 b (wrapOps n)
  have numbers : ∀ {ls : List (ScanList Unit)} {ws}, List.Forall₂ Holds ls ws →
      (ls.map fun l => l.seq) = ((ws.map fun w => w.number).map UInt32.ofNat) := by
    intro ls ws all
    induction all with
    | nil => rfl
    | cons first rest ih => rw [List.map_cons, List.map_cons, List.map_cons, ih, first.seq]
  rw [numbers r.got, wrapOps_delivered]
  rfl

/-- Sequence numbers of one session need not increase: with 2 ^ 32 windows between them, two takes
get the same one. -/
theorem seq_not_increasing :
    ¬ ∀ ops : List (Op Unit),
      (Run.exec (Session.step 16) (Session.init ⟨scanbufInit, fun _ => ⟨0, 0, 0, 0, fun _ => ()⟩⟩)
        ops).got.Pairwise fun k l => k.seq < l.seq := by
  intro all
  have seqs := wrapOps_seq (2 ^ 32 - 1) ⟨scanbufInit, fun _ => ⟨0, 0, 0, 0, fun _ => ()⟩⟩
  have increasing := all (wrapOps (2 ^ 32 - 1))
  generalize Session.got _ = ls at seqs increasing
  have numbers := List.pairwise_map.mpr increasing
  rw [seqs] at numbers
  exact absurd numbers (by decide)

end PicoOS.Scan
