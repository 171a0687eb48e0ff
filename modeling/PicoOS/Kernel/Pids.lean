import PicoOS.Kernel.Boot
import PicoOS.Lib.Cursor
import Mathlib

/-!
# Process ids

`task_alloc_pid` over any table of processes. Each range has a cursor that goes
round it, so over a run a PID comes up again only when the cursor has been past
all the others: each was handed out or belonged to a process.
-/
namespace PicoOS.Kernel

/-- `pid_range_t`. -/
inductive PidRange where
  | spawn
  | autorun
  | run
  | button
  deriving DecidableEq

/-- `pid_range_info_t`; `limit` is inclusive. -/
structure PidRangeInfo where
  base : UInt32
  limit : UInt32
  next : UInt32
  deriving DecidableEq

/-- `pid_ranges`. -/
def pidRanges : PidRange → PidRangeInfo
  | .spawn => ⟨10, 49, 10⟩
  | .autorun => ⟨50, 99, 50⟩
  | .run => ⟨100, 199, 100⟩
  | .button => ⟨200, 299, 200⟩

/-- A process uses the PID. -/
def pidUsed (k : KernelState) (pid : UInt32) : Bool := (taskFindProcess k pid).isSome

namespace PidRangeInfo

variable (r : PidRangeInfo)

/-- The PID after this one. -/
def after (pid : UInt32) : UInt32 := if pid = r.limit then r.base else pid + 1

def span : UInt32 := r.limit - r.base + 1

end PidRangeInfo

/-- The loop of `task_alloc_pid`: the candidate that no process uses, and `pid` behind it. -/
def pidLoop (k : KernelState) (r : PidRangeInfo) : Nat → UInt32 → Option (UInt32 × UInt32)
  | 0, _ => none
  | i + 1, pid =>
    let candidate := pid
    let pid := r.after pid
    if taskFindProcess k candidate = none then some (candidate, pid) else pidLoop k r i pid

def taskAllocPid (k : KernelState) (r : PidRangeInfo) : UInt32 × PidRangeInfo :=
  match pidLoop k r r.span.toNat r.next with
  | some (candidate, pid) => (candidate, { r with next := pid })
  | none => (0, r)

/-- The candidates that a call goes past, each used by a process. -/
def pidsPassed (k : KernelState) (r : PidRangeInfo) : List UInt32 :=
  Cursor.passed r.after (fun pid => !pidUsed k pid) r.span.toNat r.next

/-- The process table and the cursors. -/
structure PidState where
  k : KernelState
  ranges : PidRange → PidRangeInfo

def PidState.boot (k : KernelState) : PidState := ⟨k, pidRanges⟩

/-- A step: a PID of a range is allocated, or processes come and go. -/
inductive PidOp where
  | alloc (range : PidRange)
  | table (k : KernelState)

namespace PidState

variable (s : PidState)

/-- What a call returns. -/
def allocates (range : PidRange) : UInt32 := (taskAllocPid s.k (s.ranges range)).1

def step : PidOp → PidState
  | .alloc range =>
    { s with ranges := Function.update s.ranges range (taskAllocPid s.k (s.ranges range)).2 }
  | .table k => { s with k := k }

end PidState

/-! ### One call -/

theorem pidLoop_eq (k : KernelState) (r : PidRangeInfo) (n : Nat) (pid : UInt32) :
    pidLoop k r n pid =
      (Cursor.search r.after (fun pid => !pidUsed k pid) n pid).map fun pid => (pid, r.after pid) := by
  induction n generalizing pid with
  | zero => rfl
  | succ n ih =>
    simp only [pidLoop, Cursor.search]
    cases found : taskFindProcess k pid with
    | none => simp [pidUsed, found]
    | some p => simpa [pidUsed, found] using ih (r.after pid)

namespace PidRangeInfo

variable {r : PidRangeInfo}

/-- A PID of the range. -/
def Has (r : PidRangeInfo) (pid : UInt32) : Prop := r.base ≤ pid ∧ pid ≤ r.limit

/-- A range whose PIDs are not 0, and do not reach the last number. -/
structure Sound (r : PidRangeInfo) : Prop where
  positive : 0 < r.base
  ordered : r.base ≤ r.limit
  bounded : r.limit.toNat + 1 < 2 ^ 32

theorem Sound.span_toNat (h : r.Sound) : r.span.toNat = r.limit.toNat - r.base.toNat + 1 := by
  have bounded := h.bounded
  have width := UInt32.toNat_sub_of_le _ _ h.ordered
  rw [span, UInt32.toNat_add, UInt32.toNat_one, width]
  exact Nat.mod_eq_of_lt (by omega)

theorem Sound.after_toNat (h : r.Sound) {pid : UInt32} (member : r.Has pid) :
    (r.after pid).toNat = if pid.toNat = r.limit.toNat then r.base.toNat else pid.toNat + 1 := by
  have bounded := h.bounded
  have below := UInt32.le_iff_toNat_le.mp member.2
  rw [after]
  split
  next last =>
    rw [if_pos (congrArg UInt32.toNat last)]
  next other =>
    rw [if_neg fun same => other (UInt32.toNat_inj.mp same), UInt32.toNat_add, UInt32.toNat_one]
    exact Nat.mod_eq_of_lt (by omega)

theorem succ_mod (m : Nat) {n : Nat} (positive : 0 < n) :
    (m + 1) % n = if m % n + 1 = n then 0 else m % n + 1 := by
  have within := Nat.mod_lt m positive
  rw [← Nat.mod_add_mod]
  split
  next last => rw [last, Nat.mod_self]
  next => exact Nat.mod_eq_of_lt (by omega)

/-- After `n` PIDs, counted from the base. -/
theorem Sound.iterate_toNat (h : r.Sound) {pid : UInt32} (member : r.Has pid) (n : Nat) :
    r.Has (r.after^[n] pid) ∧
      (r.after^[n] pid).toNat = r.base.toNat + (pid.toNat - r.base.toNat + n) % r.span.toNat := by
  have width := h.span_toNat
  have low := UInt32.le_iff_toNat_le.mp member.1
  have high := UInt32.le_iff_toNat_le.mp member.2
  induction n with
  | zero =>
    refine ⟨member, ?_⟩
    rw [Function.iterate_zero_apply, Nat.add_zero, Nat.mod_eq_of_lt (by omega)]
    omega
  | succ n ih =>
    obtain ⟨before, place⟩ := ih
    have next : (r.after (r.after^[n] pid)).toNat =
        r.base.toNat + (pid.toNat - r.base.toNat + (n + 1)) % r.span.toNat := by
      rw [h.after_toNat before, place, ← Nat.add_assoc, succ_mod _ (by omega)]
      by_cases last : (pid.toNat - r.base.toNat + n) % r.span.toNat + 1 = r.span.toNat
      · rw [if_pos (by omega), if_pos last]
        rfl
      · rw [if_neg (by omega), if_neg last]
        rfl
    rw [Function.iterate_succ_apply']
    refine ⟨?_, next⟩
    have within := Nat.mod_lt (pid.toNat - r.base.toNat + (n + 1)) (show 0 < r.span.toNat by omega)
    exact ⟨UInt32.le_iff_toNat_le.mpr (by omega), UInt32.le_iff_toNat_le.mpr (by omega)⟩

/-- The cursor of a range goes round it. -/
theorem Sound.round (h : r.Sound) : Cursor.Round r.after r.Has r.span.toNat where
  closed pid member := (h.iterate_toNat member 1).1
  reaches a b first second := by
    have width := h.span_toNat
    have low := UInt32.le_iff_toNat_le.mp first.1
    have high := UInt32.le_iff_toNat_le.mp first.2
    have low' := UInt32.le_iff_toNat_le.mp second.1
    have high' := UInt32.le_iff_toNat_le.mp second.2
    by_cases ahead : a.toNat ≤ b.toNat
    · refine ⟨b.toNat - a.toNat, by omega, UInt32.toNat_inj.mp ?_⟩
      rw [(h.iterate_toNat first _).2, Nat.mod_eq_of_lt (by omega)]
      omega
    · refine ⟨b.toNat + r.span.toNat - a.toNat, by omega, UInt32.toNat_inj.mp ?_⟩
      have wrapped : a.toNat - r.base.toNat + (b.toNat + r.span.toNat - a.toNat) =
          b.toNat - r.base.toNat + r.span.toNat := by omega
      rw [(h.iterate_toNat first _).2, wrapped, Nat.add_mod_right, Nat.mod_eq_of_lt (by omega)]
      omega
  returns a i member positive near same := by
    have width := h.span_toNat
    have low := UInt32.le_iff_toNat_le.mp member.1
    have high := UInt32.le_iff_toNat_le.mp member.2
    have place := (h.iterate_toNat member i).2
    rw [same] at place
    by_cases inside : a.toNat - r.base.toNat + i < r.span.toNat
    · rw [Nat.mod_eq_of_lt inside] at place
      omega
    · rw [Nat.mod_eq_sub_mod (by omega), Nat.mod_eq_of_lt (by omega)] at place
      omega

end PidRangeInfo

theorem pidRanges_sound (range : PidRange) : (pidRanges range).Sound := by
  cases range <;> exact ⟨by decide, by decide, by decide⟩

theorem pidRanges_next (range : PidRange) : (pidRanges range).Has (pidRanges range).next := by
  cases range <;> exact ⟨by decide, by decide⟩

theorem taskAllocPid_eq (k : KernelState) (r : PidRangeInfo) :
    taskAllocPid k r =
      match Cursor.search r.after (fun pid => !pidUsed k pid) r.span.toNat r.next with
      | some pid => (pid, { r with next := r.after pid })
      | none => (0, r) := by
  rw [taskAllocPid, pidLoop_eq]
  cases Cursor.search r.after (fun pid => !pidUsed k pid) r.span.toNat r.next <;> rfl

/-- What a call returns and where it leaves the cursor, for a cursor in its range. -/
theorem taskAllocPid_spec (k : KernelState) {r : PidRangeInfo} (sound : r.Sound)
    (inside : r.Has r.next) :
    ((taskAllocPid k r).1 ≠ 0 → r.Has (taskAllocPid k r).1 ∧ pidUsed k (taskAllocPid k r).1 = false) ∧
      ((taskAllocPid k r).1 = 0 ↔ ∀ pid, r.Has pid → pidUsed k pid = true) ∧
      r.Has (taskAllocPid k r).2.next := by
  have none_iff : Cursor.search r.after (fun pid => !pidUsed k pid) r.span.toNat r.next = none ↔
      ∀ pid, r.Has pid → (!pidUsed k pid) = false := sound.round.search_none inside
  rw [taskAllocPid_eq]
  cases found : Cursor.search r.after (fun pid => !pidUsed k pid) r.span.toNat r.next with
  | none =>
    have all := none_iff.mp found
    refine ⟨fun other => absurd rfl other, iff_of_true rfl fun pid member => ?_, inside⟩
    simpa using all pid member
  | some pid =>
    obtain ⟨free, d, _, at_, _⟩ := Cursor.search_eq_some found
    have member : r.Has pid := at_ ▸ sound.round.iterate inside d
    have unused : pidUsed k pid = false := by simpa using free
    have positive : pid ≠ 0 := by
      rintro rfl
      exact UInt32.lt_irrefl _ (UInt32.lt_of_lt_of_le sound.positive member.1)
    refine ⟨fun _ => ⟨member, unused⟩, iff_of_false positive fun all => ?_,
      sound.round.closed pid member⟩
    rw [all pid member] at unused
    cases unused

/-! ### Runs -/

namespace PidState

variable {s : PidState} {range : PidRange}

/-- Each cursor is in its range. -/
structure Inside (s : PidState) : Prop where
  base : ∀ range, (s.ranges range).base = (pidRanges range).base
  limit : ∀ range, (s.ranges range).limit = (pidRanges range).limit
  cursor : ∀ range, (pidRanges range).Has (s.ranges range).next

namespace Inside

theorem boot (k : KernelState) : (boot k).Inside :=
  ⟨fun _ => rfl, fun _ => rfl, pidRanges_next⟩

theorem has_iff (h : s.Inside) (range : PidRange) (pid : UInt32) :
    (s.ranges range).Has pid ↔ (pidRanges range).Has pid := by
  rw [PidRangeInfo.Has, PidRangeInfo.Has, h.base, h.limit]

theorem sound (h : s.Inside) (range : PidRange) : (s.ranges range).Sound := by
  have sound := pidRanges_sound range
  constructor <;> simp only [h.base, h.limit]
  exacts [sound.positive, sound.ordered, sound.bounded]

theorem spec (h : s.Inside) (range : PidRange) :
    (s.allocates range ≠ 0 →
        (pidRanges range).Has (s.allocates range) ∧ pidUsed s.k (s.allocates range) = false) ∧
      (s.allocates range = 0 ↔ ∀ pid, (pidRanges range).Has pid → pidUsed s.k pid = true) ∧
      (pidRanges range).Has (taskAllocPid s.k (s.ranges range)).2.next := by
  have call := taskAllocPid_spec s.k (h.sound range) ((h.has_iff range _).mpr (h.cursor range))
  simp only [h.has_iff] at call
  exact call

theorem step (h : s.Inside) (op : PidOp) : (s.step op).Inside := by
  cases op with
  | table k => exact ⟨h.base, h.limit, h.cursor⟩
  | alloc range =>
    have bounds : (taskAllocPid s.k (s.ranges range)).2.base = (s.ranges range).base ∧
        (taskAllocPid s.k (s.ranges range)).2.limit = (s.ranges range).limit := by
      unfold taskAllocPid
      split <;> exact ⟨rfl, rfl⟩
    refine ⟨fun other => ?_, fun other => ?_, fun other => ?_⟩
    all_goals
      by_cases own : other = range
      · subst own
        simp only [PidState.step, Function.update_self]
        first
          | exact bounds.1.trans (h.base other)
          | exact bounds.2.trans (h.limit other)
          | exact (h.spec other).2.2
      · simp only [PidState.step, Function.update_of_ne own]
        first
          | exact h.base other
          | exact h.limit other
          | exact h.cursor other

theorem run (h : s.Inside) (ops : List PidOp) : (Run.exec PidState.step s ops).Inside :=
  Run.exec_invariant (I := Inside) (fun _ op h => step h op) h ops

end Inside

/-- The step hands the PID out, or goes past it while a process uses it. -/
def Meets (range : PidRange) (s : PidState) (op : PidOp) (pid : UInt32) : Prop :=
  op = .alloc range ∧
    (s.allocates range = pid ∨
      pid ∈ pidsPassed s.k (s.ranges range) ∧ pidUsed s.k pid = true)

theorem Inside.after_eq (h : s.Inside) (range : PidRange) :
    (s.ranges range).after = (pidRanges range).after := by
  funext pid
  rw [PidRangeInfo.after, PidRangeInfo.after, h.base, h.limit]

/-- The PIDs that a call meets, up to the one that it hands out, where there is one. -/
theorem Inside.ends (h : s.Inside) (range : PidRange) :
    (s.allocates range = 0 ∧ ((s.step (.alloc range)).ranges range).next = (s.ranges range).next) ∨
      ∃ d, (pidRanges range).after^[d] (s.ranges range).next = s.allocates range ∧
        ((s.step (.alloc range)).ranges range).next =
          (pidRanges range).after (s.allocates range) ∧
        ∀ i, i < d → Meets range s (.alloc range)
          ((pidRanges range).after^[i] (s.ranges range).next) := by
  have result := taskAllocPid_eq s.k (s.ranges range)
  rw [← h.after_eq]
  simp only [PidState.step, Function.update_self, allocates]
  cases found : Cursor.search (s.ranges range).after (fun pid => !pidUsed s.k pid)
      (s.ranges range).span.toNat (s.ranges range).next with
  | none =>
    rw [found] at result
    rw [result]
    exact .inl ⟨rfl, rfl⟩
  | some pid =>
    rw [found] at result
    obtain ⟨_, d, _, at_, past⟩ := Cursor.search_eq_some found
    rw [result]
    refine .inr ⟨d, at_, rfl, fun i before => ⟨rfl, .inr ?_⟩⟩
    have used := Cursor.not_free_of_passed (past i before)
    exact ⟨past i before, by simpa using used⟩

/-- A step moves the cursor over the PIDs that it meets, one after the other. -/
theorem Inside.moves (h : s.Inside) (range : PidRange) (op : PidOp) :
    ∃ d, ((s.step op).ranges range).next = (pidRanges range).after^[d] (s.ranges range).next ∧
      ∀ i, i < d → Meets range s op ((pidRanges range).after^[i] (s.ranges range).next) := by
  have stays {op : PidOp} (same : ((s.step op).ranges range).next = (s.ranges range).next) :
      ∃ d, ((s.step op).ranges range).next = (pidRanges range).after^[d] (s.ranges range).next ∧
        ∀ i, i < d → Meets range s op ((pidRanges range).after^[i] (s.ranges range).next) :=
    ⟨0, same, fun i before => absurd before (Nat.not_lt_zero i)⟩
  cases op with
  | table k => exact stays rfl
  | alloc other =>
    by_cases own : other = range
    · subst own
      rcases h.ends other with ⟨_, same⟩ | ⟨d, at_, behind, past⟩
      · exact stays same
      · refine ⟨d + 1, ?_, fun i before => ?_⟩
        · rw [behind, Function.iterate_succ_apply', at_]
        · by_cases last : i = d
          · subst last
            exact ⟨rfl, .inl at_.symm⟩
          · exact past i (by omega)
    · refine stays ?_
      simp only [PidState.step, Function.update_of_ne (Ne.symm own)]

end PidState

/-- Over any run `task_alloc_pid` returns a PID of the range that no process uses, and 0 if and only
if there is none; and it hands a PID out again only when every other one of the range has been
handed out since or was passed over while a process used it. -/
theorem taskAllocPid_rounds (k : KernelState) (ops : List PidOp) (range : PidRange) :
    let s := Run.exec PidState.step (.boot k) ops
    (pidRanges range).Has (s.ranges range).next ∧
      (s.allocates range ≠ 0 →
        (pidRanges range).Has (s.allocates range) ∧ pidUsed s.k (s.allocates range) = false) ∧
      (s.allocates range = 0 ↔ ∀ pid, (pidRanges range).Has pid → pidUsed s.k pid = true) ∧
      ∀ later, s.allocates range ≠ 0 →
        (Run.exec PidState.step (s.step (.alloc range)) later).allocates range =
          s.allocates range →
        ∀ pid, (pidRanges range).Has pid → pid ≠ s.allocates range →
          ∃ pre, pre ++ [.alloc range] <+: later ++ [.alloc range] ∧
            let t := Run.exec PidState.step (s.step (.alloc range)) pre
            t.allocates range = pid ∨
              pid ∈ pidsPassed t.k (t.ranges range) ∧ pidUsed t.k pid = true := by
  have inside := (PidState.Inside.boot k).run ops
  generalize Run.exec PidState.step (.boot k) ops = s at inside ⊢
  dsimp only
  obtain ⟨given, zero_iff, -⟩ := inside.spec range
  refine ⟨inside.cursor range, given, zero_iff, fun later some again pid member other => ?_⟩
  -- The cursor stands behind the PID, goes on in the run, and comes to the PID in the last call.
  have behind : ((s.step (.alloc range)).ranges range).next =
      (pidRanges range).after (s.allocates range) := by
    rcases inside.ends range with ⟨zero, _⟩ | ⟨_, _, behind, _⟩
    · exact absurd zero some
    · exact behind
  obtain ⟨n, there, met⟩ := Cursor.travel (fun s : PidState => (s.ranges range).next)
    (fun s op h => PidState.Inside.step h op) (fun s op h => PidState.Inside.moves h range op)
    (inside.step (.alloc range)) later
  rw [behind] at there met
  have end_inside := (inside.step (.alloc range)).run later
  rcases end_inside.ends range with ⟨zero, _⟩ | ⟨d, at_, _, past⟩
  · rw [again] at zero
    exact absurd zero some
  · rw [there, ← Function.iterate_add_apply, again] at at_
    obtain ⟨j, near, comes⟩ := (pidRanges_sound range).round.meets (given some).1 member other at_
    by_cases inRun : j < n
    · obtain ⟨pre, op, prefix_, isAlloc, meets⟩ := met j inRun
      rw [comes] at meets
      subst isAlloc
      exact ⟨pre, prefix_.trans (List.prefix_append _ _), meets⟩
    · have meets := past (j - n) (by omega)
      rw [there, ← Function.iterate_add_apply, Nat.sub_add_cancel (by omega), comes] at meets
      exact ⟨later, List.prefix_refl _, meets.2⟩

/-- The 41st PID of the 40 for spawned processes is the first one again, and 30 was in between. -/
theorem taskAllocPid_rounds_spawn :
    let s := PidState.boot taskInit
    let later : List PidOp := List.replicate 39 (.alloc .spawn)
    (Run.exec PidState.step (s.step (.alloc .spawn)) later).allocates .spawn = 10 ∧
      ∃ pre, pre ++ [.alloc .spawn] <+: later ++ [.alloc .spawn] ∧
        let t := Run.exec PidState.step (s.step (.alloc .spawn)) pre
        t.allocates .spawn = 30 ∨ 30 ∈ pidsPassed t.k (t.ranges .spawn) ∧ pidUsed t.k 30 = true := by
  refine ⟨by decide +kernel, ?_⟩
  exact (taskAllocPid_rounds taskInit [] .spawn).2.2.2 (List.replicate 39 (.alloc .spawn))
    (by decide +kernel) (by decide +kernel) 30 ⟨by decide, by decide⟩ (by decide +kernel)

end PicoOS.Kernel
