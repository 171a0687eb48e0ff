import PicoOS.Lib.RingBuffer
import PicoOS.Kernel.Sections

/-!
# Message queues

A message queue is a bounded queue, whoever sends and receives: what the
receives return is what was sent, in the order in which the sections of the
sends ran. The ring of cells with its wrapping indices is the queue, and the
lock makes each section one step of it.
-/
namespace PicoOS.Kernel

/-- `mqueue_init`. -/
def mqueueInit (msgSize : UInt32) : Mqueue :=
  let size := if msgSize.toNat ≤ mqMsgSize then msgSize.toNat else mqMsgSize
  { buf := fun _ => List.replicate size 0, msgSize := size, head := 0, tail := 0, count := 0 }

/-- The list that `wake_one` wakes, between the section of its caller and the return. -/
def Pc.wakes : Pc → Option WaitList
  | .waking w | .unblocking _ (.one w) | .freeing _ _ (.waker (.one w)) => some w
  | _ => none

/-- The message that a send stores. -/
def Pc.message : Pc → Option (List UInt8)
  | .test (.mqueueSend _ msg) _ | .post (.mqueueTrySend _ msg) => some msg
  | _ => none

/-- The message that a send stores in this step: it goes on to wake a receiver. -/
def Machine.sends (m : Machine) (a : Addr) (e : Event) : Option (List UInt8) :=
  match m.acts e with
  | some (x, act) => if act.pc.wakes = some (.recv a) then x.pc.message else none
  | none => none

/-- What a receive returns in this step. -/
def Machine.returns (m : Machine) (a : Addr) (e : Event) : Option Ret :=
  match m.acts e with
  | some (x, act) => if x.pc.wakes = some (.send a) ∧ act.pc = .user then some act.ret else none
  | none => none

/-- What the receive on a core is about to return. -/
def Machine.receiving (m : Machine) (a : Addr) (c : Core) : List Ret :=
  match (m.cpu c).holder with
  | some x => if x.pc.wakes = some (.send a) then [x.ret] else []
  | none => []

namespace Mqueue

def ring (q : Mqueue) : RingBuffer (List UInt8) := ⟨q.buf, q.head, q.count⟩

/-- The messages that are queued, oldest first. -/
def contents (q : Mqueue) : List (List UInt8) := q.ring.items mqMaxMsg

/-- The indices agree with the count. -/
structure Ok (q : Mqueue) : Prop where
  bound : q.count ≤ mqMaxMsg
  tail : q.tail = (q.head + q.count) % mqMaxMsg
  head : q.head < mqMaxMsg

variable {q : Mqueue}

theorem length_contents : q.contents.length = q.count := RingBuffer.length_items

theorem Ok.put (ok : q.Ok) (room : q.count < mqMaxMsg) (msg : List UInt8) :
    (mqueuePut q msg).Ok ∧ (mqueuePut q msg).contents = q.contents ++ [msg.take q.msgSize] := by
  have ring : (mqueuePut q msg).ring = q.ring.put mqMaxMsg (msg.take q.msgSize) := by
    simp [mqueuePut, Mqueue.ring, RingBuffer.put, RingBuffer.tail, ok.tail]
  refine ⟨⟨room, ?_, ok.head⟩, ?_⟩
  · have wraps := q.ring.tail_put mqMaxMsg (msg.take q.msgSize)
    rw [← ring] at wraps
    exact (congrArg (fun i => (i + 1) % mqMaxMsg) ok.tail).trans wraps.symm
  · rw [contents, ring]
    exact RingBuffer.items_put room _

theorem Ok.get (ok : q.Ok) (some : 0 < q.count) :
    (mqueueGet q).1.Ok ∧ q.contents = (mqueueGet q).2 :: (mqueueGet q).1.contents := by
  refine ⟨⟨?_, ?_, Nat.mod_lt _ (by decide)⟩, RingBuffer.items_drop (r := q.ring) ok.head some⟩
  · exact Nat.le_trans (Nat.sub_le ..) ok.bound
  · exact ok.tail.trans (q.ring.tail_drop mqMaxMsg some).symm

end Mqueue

/-! ### One step -/

section
variable {m : Machine} {c : Core} {x : Ctx} {act : Act} {a : Addr} {w : WaitList}

theorem queues_prims {k k' : KernelState} (same : k'.prims = k.prims) :
    k'.queues = k.queues := congrArg (fun p => p.2.2.2) same

theorem wakes_stripe {pc : Pc} (h : pc.wakes = some w) :
    pc.stripe = some (primPoolAssign w.addr) := by
  unfold Pc.wakes at h
  split at h <;> cases h <;> rfl

theorem wakePc_wakes {k : KernelState} {wakes : Option WaitList}
    (h : (wakePc k wakes).wakes = some w) : wakes = some w := by
  cases wakes with
  | none => cases h
  | some v => cases v <;> first | exact h | cases h

/-- `wake_one` returns what the section has got, whoever it wakes. -/
theorem wake_loop (h : m.act c x = some act) (inside : x.pc.wakes = some w) :
    act.ret = x.ret ∧ act.k.prims = m.k.prims ∧ (act.pc.wakes = some w ∨ act.pc = .user) := by
  obtain ⟨self, pc, ret⟩ := x
  cases pc with
  | waking v =>
    refine ⟨?_, act_prims h rfl, ?_⟩ <;> cases h <;> unfold wakeStep <;> split
    · rfl
    · rfl
    · exact .inr rfl
    · exact .inl inside
  | unblocking t loop =>
    have prims := act_prims h rfl
    simp only [Machine.act, Option.ite_none_right_eq_some] at h
    obtain ⟨⟨k, live⟩, _, rfl⟩ := Option.map_eq_some_iff.mp h.2
    refine ⟨rfl, prims, ?_⟩
    cases loop with
    | one => cases live <;> first | exact .inl inside | exact .inr rfl
    | all => cases inside
  | freeing t stage caller =>
    refine ⟨?_, act_prims h rfl, ?_⟩ <;> cases h <;> unfold freeingStep <;> split
    · rfl
    · rfl
    · cases caller with
      | killer => cases inside
      | waker loop => cases loop <;> exact .inl inside
    · cases caller with
      | killer => cases inside
      | waker loop =>
        cases loop with
        | one => exact .inl inside
        | all => cases inside
  | _ => cases inside

/-- It is reached from the section of a call only. -/
theorem wakes_entered (h : m.act c x = some act) (inside : act.pc.wakes = some w) :
    x.pc.wakes = some w ∨ x.pc.enters = true := by
  rcases act_stripe h (wakes_stripe inside) with before | ⟨enters, _⟩
  · refine .inl ?_
    obtain ⟨self, pc, ret⟩ := x
    cases pc with
    | blocking op =>
      simp only [Machine.act, Option.ite_none_right_eq_some] at h
      obtain ⟨cur, _, h⟩ := Option.bind_eq_some_iff.mp h.2
      obtain ⟨k, _, rfl⟩ := Option.map_eq_some_iff.mp h
      cases inside
    | waking v =>
      cases h
      unfold wakeStep at inside
      split at inside <;> first | exact inside | cases inside
    | scanning e prev cur =>
      cases h
      unfold scanStep at inside
      split at inside
      next => cases inside
      next => split at inside <;> cases inside
    | unblocking t loop =>
      simp only [Machine.act, Option.ite_none_right_eq_some] at h
      obtain ⟨⟨k, live⟩, _, rfl⟩ := Option.map_eq_some_iff.mp h.2
      cases live <;> cases loop <;> first | exact inside | cases inside
    | freeing t stage caller =>
      cases h
      unfold freeingStep at inside
      split at inside
      all_goals
        cases caller with
        | killer => cases inside
        | waker loop => cases loop <;> exact inside
    | _ => cases before
  · exact .inr enters

/-- What the section of a call does to the queue; `msg` is what the call sends. -/
inductive QueueSection (k : KernelState) (a : Addr) (msg : Option (List UInt8)) (s : Section) :
    Prop where
  | put (sent : List UInt8) (sends : msg = some sent) (room : (k.queues a).count < mqMaxMsg)
      (queue : s.k.queues a = mqueuePut (k.queues a) sent) (wakes : s.wakes = some (.recv a))
  | get (filled : 0 < (k.queues a).count) (queue : s.k.queues a = (mqueueGet (k.queues a)).1)
      (wakes : s.wakes = some (.send a)) (ret : s.ret = .msg (mqueueGet (k.queues a)).2)
  | other (queue : s.k.queues a = k.queues a)
      (wakes : s.wakes ≠ some (.send a) ∧ s.wakes ≠ some (.recv a))

theorem waitTake_queue {k : KernelState} {t : Slot} {op : WaitOp} {s : Section}
    (h : waitTake k t op = some s) (a : Addr) (again : Bool) :
    QueueSection k a (Pc.test op again).message s := by
  cases op with
  | mqueueSend q msg =>
    simp only [waitTake, Option.ite_none_right_eq_some, Option.some.injEq] at h
    obtain ⟨room, rfl⟩ := h
    by_cases same : q = a
    · subst same
      exact .put msg rfl room (by simp [setQueue]) rfl
    · exact .other (by simp [setQueue, Ne.symm same]) (by simp [same])
  | mqueueRecv q =>
    simp only [waitTake, Option.ite_none_right_eq_some, Option.some.injEq] at h
    obtain ⟨filled, rfl⟩ := h
    by_cases same : q = a
    · subst same
      exact .get filled (by simp [setQueue]) rfl rfl
    · exact .other (by simp [setQueue, Ne.symm same]) (by simp [same])
  | _ =>
    simp only [waitTake, Option.ite_none_right_eq_some, Option.some.injEq] at h
    obtain ⟨_, rfl⟩ := h
    exact .other rfl (by simp)

theorem postTake_queue (k : KernelState) (op : PostOp) (a : Addr) :
    QueueSection k a (Pc.post op).message (postTake k op) := by
  cases op with
  | mqueueTrySend q msg =>
    simp only [postTake]
    split
    next => exact .other rfl (by simp)
    next room =>
      by_cases same : q = a
      · subst same
        exact .put msg rfl (Nat.lt_of_not_le room) (by simp [setQueue]) rfl
      · exact .other (by simp [setQueue, Ne.symm same]) (by simp [same])
  | mqueueTryRecv q =>
    simp only [postTake]
    split
    next => exact .other rfl (by simp)
    next filled =>
      by_cases same : q = a
      · subst same
        exact .get (Nat.pos_of_ne_zero filled) (by simp [setQueue]) rfl rfl
      · exact .other (by simp [setQueue, Ne.symm same]) (by simp [same])
  | _ => exact .other rfl (by simp [postTake])

/-- What a step of a thread does to the queue. -/
inductive QueueStep (m : Machine) (c : Core) (a : Addr) (x : Ctx) (act : Act) : Prop where
  /-- The section of a send. -/
  | put (msg : List UInt8) (sends : x.pc.message = some msg) (outside : x.pc.wakes = none)
      (room : (m.k.queues a).count < mqMaxMsg)
      (queue : act.k.queues a = mqueuePut (m.k.queues a) msg) (wakes : act.pc.wakes = some (.recv a))
  /-- The section of a receive. -/
  | get (outside : x.pc.wakes = none) (filled : 0 < (m.k.queues a).count)
      (queue : act.k.queues a = (mqueueGet (m.k.queues a)).1)
      (wakes : act.pc.wakes = some (.send a)) (ret : act.ret = .msg (mqueueGet (m.k.queues a)).2)
  /-- A receive inside `wake_one`. -/
  | wake (inside : x.pc.wakes = some (.send a)) (queue : act.k.queues a = m.k.queues a)
      (ret : act.ret = x.ret) (goes : act.pc.wakes = some (.send a) ∨ act.pc = .user)
  | other (outside : x.pc.wakes ≠ some (.send a)) (queue : act.k.queues a = m.k.queues a)
      (goes : act.pc.wakes ≠ some (.send a)) (silent : act.pc.wakes = some (.recv a) → x.pc.message = none)

theorem Pc.enters_outside {pc : Pc} (enters : pc.enters = true) : pc.wakes = none := by
  cases pc <;> first | rfl | cases enters

/-- A section is a step of its thread. -/
theorem QueueSection.queueStep {s : Section} (h : QueueSection m.k a x.pc.message s)
    (enters : x.pc.enters = true) :
    QueueStep m c a x ⟨s.k, wakePc s.k s.wakes, s.ret, false⟩ := by
  have outside := Pc.enters_outside enters
  cases h with
  | put msg sends room queue wakes =>
    exact .put msg sends outside room queue (by rw [wakes]; rfl)
  | get filled queue wakes ret => exact .get outside filled queue (by rw [wakes]; rfl) ret
  | other queue wakes =>
    refine .other (by rw [outside]; nofun) queue (fun inside => ?_) fun inside => ?_
    · exact absurd (wakePc_wakes inside) wakes.1
    · exact absurd (wakePc_wakes inside) wakes.2

theorem act_queue (h : m.act c x = some act) (a : Addr) : QueueStep m c a x act := by
  by_cases enters : x.pc.enters = true
  · cases at_ : x.pc with
    | test op again =>
      obtain ⟨cur, _, ⟨s, taken, rfl⟩ | ⟨_, same, blocks, _⟩⟩ := test_cases at_ h
      · exact QueueSection.queueStep (at_ ▸ waitTake_queue taken a again) enters
      · refine .other (by rw [at_]; nofun) (by rw [queues_prims same.prims]) ?_ ?_ <;>
          rw [blocks] <;> nofun
    | post op =>
      rw [post_cases at_ h]
      exact QueueSection.queueStep (at_ ▸ postTake_queue m.k op a) enters
    | _ => rw [at_] at enters; cases enters
  · have prims := act_prims h (by simpa using enters)
    have queue : act.k.queues a = m.k.queues a := by rw [queues_prims prims]
    by_cases inside : x.pc.wakes = some (.send a)
    · obtain ⟨ret, _, goes⟩ := wake_loop h inside
      exact .wake inside queue ret goes
    · refine .other inside queue (fun now => ?_) fun _ => ?_
      · rcases wakes_entered h now with before | now
        · exact inside before
        · exact enters now
      · cases at_ : x.pc with
        | test | post => rw [at_] at enters; exact absurd rfl enters
        | _ => rfl

end

/-! ### Runs -/

/-- The machine, with the messages that were sent to a queue, in the order in which the sections of
the sends ran, and what the receives have returned. -/
structure Traffic where
  sys : Machine
  sent : List (List UInt8)
  returned : List Ret

namespace Traffic

variable {a : Addr} {size : Nat} {t : Traffic} {e : Event}

def step (a : Addr) (t : Traffic) (e : Event) : Traffic where
  sys := t.sys.step e
  sent := t.sent ++ (t.sys.sends a e).toList
  returned := t.returned ++ (t.sys.returns a e).toList

def start (m : Machine) : Traffic := ⟨m, [], []⟩

/-- What was sent has been returned, is about to be returned or is queued, in this order. -/
structure Fifo (a : Addr) (size : Nat) (t : Traffic) : Prop where
  order : (t.sent.map fun msg => Ret.msg (msg.take size)) =
    t.returned ++ (t.sys.receiving a 0 ++ t.sys.receiving a 1) ++
      (t.sys.k.queues a).contents.map .msg
  ok : (t.sys.k.queues a).Ok
  size : (t.sys.k.queues a).msgSize = size

/-- What the calls that do not block find, and that a call returns what its section has got. -/
structure Answers (a : Addr) (t : Traffic) (e : Event) : Prop where
  trySend : ∀ x act msg, t.sys.acts e = some (x, act) → x.pc = .post (.mqueueTrySend a msg) →
    if (t.sys.k.queues a).contents.length = mqMaxMsg then
      act.ret = .bool false ∧ act.pc = .user
    else
      act.ret = .bool true ∧ act.pc.wakes = some (.recv a)
  tryRecv : ∀ x act, t.sys.acts e = some (x, act) → x.pc = .post (.mqueueTryRecv a) →
    if (t.sys.k.queues a).contents.length = 0 then
      act.ret = .bool false ∧ act.pc = .user
    else
      (∃ bytes, act.ret = .msg bytes) ∧ act.pc.wakes = some (.send a)
  keeps : ∀ x act w, t.sys.acts e = some (x, act) → x.pc.wakes = some w →
    act.ret = x.ret ∧ (act.pc.wakes = some w ∨ act.pc = .user)

section
variable {m : Machine} {c : Core} {x : Ctx}

theorem receiving_thread (at_ : m.cpu c = .thread x) (a : Addr) :
    m.receiving a c = if x.pc.wakes = some (.send a) then [x.ret] else [] := by
  unfold Machine.receiving
  rw [at_]
  by_cases inside : x.pc.wakes = some (.send a)
  · simp [Cpu.holder, wakes_stripe inside]
  · simp only [Cpu.holder, if_neg inside]
    split
    next held =>
      split at held <;> cases held
      exact if_neg inside
    next => rfl

/-- While a receive is under way on one core, none is on the other. -/
theorem receiving_other (masked : Masked m) (at_ : m.cpu c = .thread x)
    (inside : x.pc.wakes = some (.send a)) : m.receiving a c.other = [] := by
  have mine : m.heldStripe c = some (primPoolAssign a) := by
    have held := wakes_stripe inside
    simp only [Machine.heldStripe, at_]
    exact held
  have free := masked.apart c _ mine
  unfold Machine.receiving
  split
  next y held =>
    refine if_neg fun both => free ?_
    have other := wakes_stripe both
    rw [heldStripe_eq, held]
    exact other
  next => rfl

theorem receiving_both (other : m.receiving a c.other = []) :
    m.receiving a 0 ++ m.receiving a 1 = m.receiving a c := by
  rcases Core.eq_or_other 0 c with rfl | rfl
  · have one : m.receiving a 1 = [] := other
    rw [one, List.append_nil]
  · have zero : m.receiving a 0 = [] := other
    rw [zero]
    rfl

end

theorem fifo_step (masked : Masked t.sys) (fifo : Fifo a size t) : Fifo a size (t.step a e) := by
  have stepped := step_stepped t.sys e
  have masked' : Masked (t.step a e).sys := step_masked masked e
  obtain ⟨order, ok, sized⟩ := fifo
  generalize next : t.sys.step e = m' at stepped
  cases stepped with
  | rest _ rest =>
    have sys : (t.step a e).sys = m' := next
    have queue : m'.k.queues a = t.sys.k.queues a := by rw [queues_prims rest.prims]
    have receiving (c : Core) : m'.receiving a c = t.sys.receiving a c := by
      simp only [Machine.receiving, rest.holder masked.outside c]
    refine ⟨?_, by rwa [sys, queue], by rwa [sys, queue]⟩
    rw [sys, receiving, receiving, queue]
    simp [step, Machine.sends, Machine.returns, rest.idle, order]
  | act c runs h =>
    rename_i x act
    have sys : (t.step a (.run c)).sys = t.sys.commit c x act := next
    have before := receiving_thread (executes_eq_some.mp runs).1 a
    have at_ : (t.step a (.run c)).sys.cpu c = .thread ⟨x.self, act.pc, act.ret⟩ := by
      simp [sys, Machine.commit]
    have now := receiving_thread at_ a
    have other : (t.step a (.run c)).sys.receiving a c.other = t.sys.receiving a c.other := by
      simp [sys, Machine.receiving, Machine.commit, Core.other_ne]
    -- What a core is about to return stays as it is, on both cores.
    have steady (same : (t.step a (.run c)).sys.receiving a c = t.sys.receiving a c) (d : Core) :
        (t.step a (.run c)).sys.receiving a d = t.sys.receiving a d := by
      rcases Core.eq_or_other c d with rfl | rfl
      · exact same
      · exact other
    have acts := acts_of runs h
    have sent : (t.step a (.run c)).sent =
        t.sent ++ (if act.pc.wakes = some (.recv a) then x.pc.message else none).toList := by
      simp only [step, Machine.sends, acts]
    have returned : (t.step a (.run c)).returned = t.returned ++
        (if x.pc.wakes = some (.send a) ∧ act.pc = .user then some act.ret else none).toList := by
      simp only [step, Machine.returns, acts]
    have kernel : (t.step a (.run c)).sys.k = act.k := by rw [sys]; rfl
    rcases act_queue h a with
      ⟨msg, sends, outside, room, queue, wakes⟩ | ⟨outside, filled, queue, wakes, ret⟩ |
        ⟨inside, queue, ret, goes⟩ | ⟨outside, queue, goes, silent⟩
    · obtain ⟨ok', contents⟩ := ok.put room msg
      rw [← queue, ← kernel] at ok' contents
      refine ⟨?_, ok', ?_⟩
      · have same := steady (by rw [before, now, outside, wakes]; simp)
        rw [sent, returned, same, same, contents, if_pos wakes, sends, sized]
        simp [outside, order]
      · rw [kernel, queue]
        exact sized
    · obtain ⟨ok', contents⟩ := ok.get filled
      rw [← queue, ← kernel] at ok' contents
      refine ⟨?_, ok', ?_⟩
      · have alone := receiving_other masked' at_ wakes
        rw [outside, if_neg (by rintro ⟨⟩)] at before
        rw [wakes, if_pos rfl] at now
        rw [receiving_both (other ▸ alone), before, contents] at order
        rw [sent, returned, receiving_both alone, now, ret]
        simp [outside, wakes, order]
      · rw [kernel, queue]
        exact sized
    · rw [kernel.symm] at queue
      refine ⟨?_, by rwa [queue], by rwa [queue]⟩
      rw [inside, if_pos rfl] at before
      have alone := receiving_other masked (executes_eq_some.mp runs).1 inside
      rw [receiving_both alone, before] at order
      rw [sent, returned, receiving_both (other.trans alone), now, queue]
      rcases goes with stays | leaves
      · have inside' : act.pc ≠ .user := fun user => by rw [user] at stays; cases stays
        simp [stays, inside', ret, order]
      · have outside : Pc.user.wakes = none := rfl
        simp [leaves, outside, inside, ret, order]
    · rw [kernel.symm] at queue
      refine ⟨?_, by rwa [queue], by rwa [queue]⟩
      have same := steady (by rw [before, now, if_neg outside, if_neg goes])
      rw [sent, returned, same, same, queue]
      by_cases wakes : act.pc.wakes = some (.recv a)
      · simp [wakes, silent wakes, outside, order]
      · simp [wakes, outside, order]

theorem answers (fifo : Fifo a size t) : Answers a t e where
  trySend x act msg acts at_ := by
    obtain ⟨c, rfl, runs, h⟩ := acts_run acts
    have full : (t.sys.k.queues a).contents.length = mqMaxMsg ↔
        mqMaxMsg ≤ (t.sys.k.queues a).count := by
      rw [Mqueue.length_contents]
      exact ⟨Nat.le_of_eq ∘ Eq.symm, Nat.le_antisymm fifo.ok.bound⟩
    rw [post_cases at_ h]
    simp only [postStep, postTake, full]
    split <;> exact ⟨rfl, rfl⟩
  tryRecv x act acts at_ := by
    obtain ⟨c, rfl, runs, h⟩ := acts_run acts
    rw [post_cases at_ h, Mqueue.length_contents]
    simp only [postStep, postTake]
    split
    next empty => exact ⟨rfl, rfl⟩
    next => exact ⟨⟨_, rfl⟩, rfl⟩
  keeps x act w acts inside := by
    obtain ⟨c, rfl, runs, h⟩ := acts_run acts
    obtain ⟨ret, _, goes⟩ := wake_loop h inside
    exact ⟨ret, goes⟩

end Traffic

/-- A queue that was initialised, with no receive on it under way, is a bounded queue of messages,
whatever the threads do: the receives return the first `msg_size` bytes of what was sent, in the
order of the sections of the sends, each once; and a `mqueue_try_send` fails exactly on 16 messages,
a `mqueue_try_recv` exactly on none. -/
theorem mqueue_fifo {m : Machine} (masked : Masked m) {a : Addr} {msgSize : UInt32}
    (small : msgSize.toNat ≤ mqMsgSize) (init : m.k.queues a = mqueueInit msgSize)
    (unused : ∀ c, m.receiving a c = []) (es : List Event) :
    Traffic.Fifo a msgSize.toNat (Run.exec (Traffic.step a) (.start m) es) ∧
      Run.Along (Traffic.step a) (Traffic.Answers a) (.start m) es := by
  have first : Masked (Traffic.start m).sys ∧ Traffic.Fifo a msgSize.toNat (.start m) := by
    have size : (mqueueInit msgSize).msgSize = msgSize.toNat := if_pos small
    have empty : (mqueueInit msgSize).contents = [] := rfl
    refine ⟨masked, ?_, ?_, ?_⟩
    · simp [Traffic.start, unused, init, empty]
    · exact init ▸ ⟨Nat.zero_le _, rfl, Nat.zero_lt_succ _⟩
    · exact init ▸ size
  have stays (t : Traffic) (e : Event)
      (inv : Masked t.sys ∧ Traffic.Fifo a msgSize.toNat t) :
      Masked (t.step a e).sys ∧ Traffic.Fifo a msgSize.toNat (t.step a e) :=
    ⟨step_masked inv.1 e, Traffic.fifo_step inv.1 inv.2⟩
  exact ⟨(Run.exec_invariant stays first es).2,
    Run.along_of_invariant stays (fun _ _ inv => Traffic.answers inv.2) first es⟩

/-- Two senders and a receiver on a queue of messages of two bytes. -/
def exchange : List Event :=
  Event.call 0 (.wait (.mqueueRecv 0)) :: List.replicate 7 (Event.run 0) ++
    Event.call 1 (.wait (.mqueueSend 0 [1, 2, 3])) :: List.replicate 3 (Event.run 1) ++
    Event.call 1 (.post (.mqueueTrySend 0 [4, 5, 6])) :: List.replicate 3 (Event.run 1) ++
    sliceEnd 0 ++ List.replicate 12 (Event.run 0)

/-- The threads of `threeThreads` and a fresh queue. -/
def freshQueue : Machine := { threeThreads with k := setQueue threeThreads.k 0 (mqueueInit 2) }

theorem exchange_fifo :
    Traffic.Fifo 0 2 (Run.exec (Traffic.step 0) (.start freshQueue) exchange) ∧
      Run.Along (Traffic.step 0) (Traffic.Answers 0) (.start freshQueue) exchange := by
  have boot : AtBoot freshQueue := by decide +kernel
  have fresh : freshQueue.k.queues 0 = mqueueInit 2 := by simp [freshQueue, setQueue]
  exact mqueue_fifo boot.masked (by decide) fresh (by decide +kernel) exchange

end PicoOS.Kernel
