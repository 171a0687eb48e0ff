import Mathlib
import PicoOS.Apps.Message

/-!
# Foreign senders

`mcast_recv_cb` reads a sender from the digits in front of the first colon and skips
everything else there. What it queues is compared with what the field says as a
numeral. Where the digits overflow an `int` anything may be queued.
-/
namespace PicoOS.Apps

open CString Decimal PicoOS.Kernel

/-- The string that a datagram becomes. -/
def string (payload : List UInt8) : List UInt8 := payload.takeWhile (· ≠ 0)

/-- The sender field of a datagram. -/
def fieldOf (payload : List UInt8) : List UInt8 := payload.takeWhile (· ≠ 0x3A)

/-- A field that is a decimal numeral: digits only, and at least one. -/
def Numeral (field : List UInt8) : Prop := field ≠ [] ∧ ∀ c ∈ field, isDigit c = true

/-- A state in which the datagram may leave the node: the one that is computed, or any at all when
the computation is undefined. -/
def MayLeave (s : CrayState) (payload buf m : List UInt8) (s' : CrayState) : Prop :=
  ∀ r, receive s payload buf m = some r → s' = r

/-- The datagram can make the node queue an update. -/
def Queues (s : CrayState) (payload buf m : List UInt8) : Prop :=
  ∃ s', MayLeave s payload buf m s' ∧ s'.rxMq.count ≠ s.rxMq.count

/-- The field names another node of the cluster. -/
def NamesOther (s : CrayState) (field : List UInt8) : Prop :=
  Numeral field ∧ (value field : Int) < s.maxnodes ∧ (value field : Int) ≠ s.nodeid

/-- Nothing is queued, whatever the sender: the string has no colon, or no colours behind it, or the
queue is full. -/
def Refused (s : CrayState) (payload : List UInt8) : Prop :=
  0x3A ∉ string payload ∨ (string payload).dropWhile (· ≠ 0x3A) = [0x3A] ∨
    mqMaxMsg ≤ s.rxMq.count

/-- The number that the digits of the field make, without all that stands between them. -/
def digitsOf (field : List UInt8) : Nat := value (field.filter isDigit)

/-- The digits of the field make no other node of the cluster. -/
def DigitsMiss (s : CrayState) (field : List UInt8) : Prop :=
  (digitsOf field : Int) = s.nodeid ∨ s.maxnodes ≤ digitsOf field

/-! ### What is queued -/

theorem colorsOf_eq_nil {n : Nat} (some_room : 0 < n) (m : List UInt8) :
    colorsOf n m = [] ↔ m = [] := by
  obtain ⟨n, rfl⟩ : ∃ k, n = k + 1 := ⟨n - 1, by omega⟩
  rw [colorsOf]
  split <;> simp_all

/-- The count of the queue tells whether an update has been queued. -/
theorem rxUpdate_count (s : CrayState) (sender : Int) (rxColors m : List UInt8) :
    (rxUpdate s sender rxColors m).rxMq.count ≠ s.rxMq.count ↔
      rxColors ≠ [] ∧ sender ≠ s.nodeid ∧ (0 ≤ sender ∧ sender < s.maxnodes) ∧
        s.rxMq.count < mqMaxMsg := by
  constructor
  · intro queued
    rw [rxUpdate] at queued
    split at queued
    · exact absurd rfl queued
    · next held =>
      split at queued
      · split at queued <;> exact absurd rfl queued
      · next accepted =>
        have room : s.rxMq.count < mqMaxMsg := by
          refine Nat.lt_of_not_le fun full => queued ?_
          simp only [mqueueTrySend, if_pos full]
        refine ⟨fun none => held (by rw [none]; rfl), by omega, by omega, room⟩
  · rintro ⟨held, other, ⟨low, high⟩, room⟩
    rw [rxUpdate_queues m held other low high room]
    exact Nat.succ_ne_self _

theorem receive_eq (s : CrayState) {payload buf : List UInt8} (m : List UInt8)
    (atMost : payload.length ≤ wifiMcastMaxPayload)
    (sized : buf.length = wifiMcastMaxPayload + 1) :
    ∃ rest, receive s payload buf m = mcastRecvCb s (payload ++ 0 :: rest) m := by
  obtain ⟨rest, arrived⟩ := mcastRecv_string atMost sized
  refine ⟨rest, ?_⟩
  rw [receive, arrived]
  rfl

/-- The string ends at the first NUL, which the datagram may have itself. -/
theorem string_line (payload rest : List UInt8) :
    0 ∉ string payload ∧ ∃ rest', payload ++ 0 :: rest = string payload ++ 0 :: rest' := by
  by_cases nul : 0 ∈ payload
  · obtain ⟨w, t, rfl, clean⟩ := List.eq_append_cons_of_mem nul
    rw [string, (cut_before clean t).1]
    exact ⟨clean, t ++ 0 :: rest, by simp⟩
  · rw [string, (cut_nowhere nul).1]
    exact ⟨nul, rest, rfl⟩

/-- A string with a colon: the field of the datagram, and the colours. -/
theorem string_colon {payload : List UInt8} (colon : 0x3A ∈ string payload) :
    ∃ body, string payload = fieldOf payload ++ 0x3A :: body ∧ 0x3A ∉ fieldOf payload ∧
      (string payload).dropWhile (· ≠ 0x3A) = 0x3A :: body := by
  obtain ⟨w, body, split, clean⟩ := List.eq_append_cons_of_mem colon
  have whole := List.takeWhile_append_dropWhile (p := (· ≠ (0 : UInt8))) (l := payload)
  rw [← string, split, List.append_assoc, List.cons_append] at whole
  have field : fieldOf payload = w := by
    rw [fieldOf, ← whole]
    exact (cut_before clean _).1
  rw [field, split]
  exact ⟨body, rfl, clean, (cut_before clean body).2⟩

theorem queues_of_some {s r : CrayState} {payload buf m : List UInt8}
    (ran : receive s payload buf m = some r) :
    Queues s payload buf m ↔ r.rxMq.count ≠ s.rxMq.count := by
  constructor
  · rintro ⟨s', leaves, queued⟩
    cases leaves r ran
    exact queued
  · intro queued
    refine ⟨r, fun r' ran' => ?_, queued⟩
    exact Option.some.inj (ran.symm.trans ran')

/-- Anything may be queued where the callback has no meaning. -/
theorem queues_of_none {s : CrayState} {payload buf m : List UInt8}
    (ran : receive s payload buf m = none) : Queues s payload buf m := by
  refine ⟨{ s with rxMq := { s.rxMq with count := s.rxMq.count + 1 } }, fun r ran' => ?_,
    Nat.succ_ne_self _⟩
  cases ran.symm.trans ran'

/-- What has to come together for an update: a colon, and digits that overflow or make another node. -/
theorem queues_iff {s : CrayState} {payload buf : List UInt8} (m : List UInt8)
    (atMost : payload.length ≤ wifiMcastMaxPayload)
    (sized : buf.length = wifiMcastMaxPayload + 1) :
    Queues s payload buf m ↔ 0x3A ∈ string payload ∧
      (2 ^ 31 ≤ digitsOf (fieldOf payload) ∨
        ¬ Refused s payload ∧ ¬ DigitsMiss s (fieldOf payload)) := by
  obtain ⟨rest, received⟩ := receive_eq s m atMost sized
  obtain ⟨nul, rest', line⟩ := string_line payload rest
  rw [line] at received
  by_cases colon : 0x3A ∈ string payload
  · obtain ⟨body, split, clean, behind⟩ := string_colon colon
    have nul' := nul
    rw [split, List.mem_append, List.mem_cons, not_or, not_or] at nul'
    rw [split, mcastRecvCb_colon s rest' m nul'.1 clean nul'.2.2, ← digitsOf] at received
    by_cases small : digitsOf (fieldOf payload) < 2 ^ 31
    · rw [if_pos small] at received
      have body_nil : (0x3A :: body = [0x3A]) ↔ body = [] := by simp
      rw [queues_of_some received, rxUpdate_count, Ne, colorsOf_eq_nil (by decide), Refused,
        DigitsMiss, behind, body_nil]
      constructor
      · rintro ⟨held, other, range, room⟩
        refine ⟨colon, .inr ⟨?_, ?_⟩⟩
        · rintro (none | none | full)
          · exact none colon
          · exact held none
          · omega
        · rintro (own | high)
          · exact other own
          · omega
      · rintro ⟨-, large | ⟨accepted, other⟩⟩
        · omega
        · rw [not_or, not_or] at accepted
          rw [not_or] at other
          exact ⟨accepted.2.1, other.1, by omega, by omega⟩
    · -- the sum has overflowed on its way through the field
      rw [if_neg small] at received
      exact iff_of_true (queues_of_none received) ⟨colon, .inl (by omega)⟩
  · rw [mcastRecvCb_plain s rest' m nul colon] at received
    apply iff_of_false
    · rw [queues_of_some received]
      exact fun queued => queued rfl
    · exact fun both => colon both.1

theorem filter_numeral {field : List UInt8} (numeral : Numeral field) :
    digitsOf field = value field := by
  rw [digitsOf, List.filter_eq_self.mpr numeral.2]

/-- A datagram can make a node queue an update only if its sender field is a decimal numeral that names
another node, exactly when there is no colon in its string, or the digits of the field are an `int`
and the field is a numeral, or nothing is queued: whatever the sender, or because its digits make no
other node. -/
theorem foreign_senders_iff (s : CrayState) (payload buf m : List UInt8)
    (atMost : payload.length ≤ wifiMcastMaxPayload)
    (sized : buf.length = wifiMcastMaxPayload + 1) (nodes : s.maxnodes ≤ maxnodesMax) :
    (Queues s payload buf m → NamesOther s (fieldOf payload)) ↔
      0x3A ∉ string payload ∨ digitsOf (fieldOf payload) < 2 ^ 31 ∧
        (Numeral (fieldOf payload) ∨ Refused s payload ∨ DigitsMiss s (fieldOf payload)) := by
  have sixteen : (maxnodesMax : Int) = 16 := rfl
  rw [queues_iff m atMost sized]
  constructor
  · intro property
    by_cases colon : 0x3A ∈ string payload
    · right
      have small : digitsOf (fieldOf payload) < 2 ^ 31 := by
        by_contra large
        -- a numeral that overflows names no node
        obtain ⟨numeral, below, -⟩ := property ⟨colon, .inl (by omega)⟩
        rw [filter_numeral numeral] at large
        omega
      refine ⟨small, ?_⟩
      by_cases refused : Refused s payload ∨ DigitsMiss s (fieldOf payload)
      · exact .inr refused
      · rw [not_or] at refused
        exact .inl (property ⟨colon, .inr refused⟩).1
    · exact .inl colon
  · rintro (plain | ⟨small, accepts⟩) ⟨colon, large | ⟨accepted, hit⟩⟩
    · exact absurd colon plain
    · exact absurd colon plain
    · omega
    · rcases accepts with numeral | refused
      · rw [DigitsMiss, filter_numeral numeral, not_or] at hit
        exact ⟨numeral, by omega, hit.1⟩
      · exact absurd refused (not_or.mpr ⟨accepted, hit⟩)

/-- A number with a sign is taken for the number without it: node 0 of two queues the colour. -/
theorem signed_sender_queues :
    Queues nodeZero (text "-1:E0") (List.replicate 129 0) (List.replicate 16 0) ∧
      (text "-1:E0").length ≤ wifiMcastMaxPayload ∧
      ¬ NamesOther nodeZero (fieldOf (text "-1:E0")) := by
  have sized : (List.replicate 129 (0 : UInt8)).length = wifiMcastMaxPayload + 1 := rfl
  have short : (text "-1:E0").length ≤ wifiMcastMaxPayload := by decide +kernel
  have field : fieldOf (text "-1:E0") = [0x2D, 0x31] := by decide +kernel
  have str : string (text "-1:E0") = text "-1:E0" := by decide +kernel
  refine ⟨(queues_iff _ short sized).mpr ⟨?_, .inr ⟨?_, ?_⟩⟩, short, ?_⟩
  · rw [str]
    decide +kernel
  · rw [Refused, str]
    decide +kernel
  · rw [DigitsMiss, field]
    decide +kernel
  · rintro ⟨⟨-, digits⟩, -⟩
    rw [field] at digits
    exact absurd (digits 0x2D List.mem_cons_self) (by decide)

/-- A message of node 1 is queued, and its field names this node. -/
theorem foreign_senders_one :
    Queues nodeZero (text "1:E0") (List.replicate 129 0) (List.replicate 16 0) ∧
      NamesOther nodeZero (fieldOf (text "1:E0")) := by
  have sized : (List.replicate 129 (0 : UInt8)).length = wifiMcastMaxPayload + 1 := rfl
  have short : (text "1:E0").length ≤ wifiMcastMaxPayload := by decide +kernel
  have str : string (text "1:E0") = text "1:E0" := by decide +kernel
  have field : fieldOf (text "1:E0") = [0x31] := by decide +kernel
  have queued : Queues nodeZero (text "1:E0") (List.replicate 129 0) (List.replicate 16 0) := by
    refine (queues_iff _ short sized).mpr ⟨?_, .inr ⟨?_, ?_⟩⟩
    · rw [str]
      decide +kernel
    · rw [Refused, str]
      decide +kernel
    · rw [DigitsMiss, field]
      decide +kernel
  have only := (foreign_senders_iff nodeZero (text "1:E0") (List.replicate 129 0)
    (List.replicate 16 0) short sized (by decide)).mpr
    (.inr ⟨by decide +kernel, .inl ⟨by decide +kernel, by decide +kernel⟩⟩)
  exact ⟨queued, only queued⟩

end PicoOS.Apps
