import PicoOS.Fs.Flash
import PicoOS.Kernel.Objects

/-!
# Producer and consumer

The demo of `demo.c`: the producer sends a counter and adds a permit, the
consumer takes a permit and receives. The permits count the messages that are
queued, so the consumer never blocks on the queue, prints every value once and
in order, and the two never wait for each other. This rests on a flag that only the
boot clears.
-/
namespace PicoOS.Apps.Demo

open PicoOS.Kernel (Objects Addr mqMaxMsg Ret)
open PicoOS.Fs (wordByte loadWord)

/-- The bytes of a `demo_message_t`. -/
def messageBytes (value : UInt32) : List UInt8 := (List.range 4).map (wordByte value)

/-- The `value` of the bytes that were received. -/
def messageValue (bytes : List UInt8) : UInt32 := loadWord (fun i => bytes.getD i 0) 0

inductive ProducerPc where
  /-- The parts of `demo_ipc_init`. -/
  | initSem
  | initQueue
  | setReady
  | sleeping
  | sending (msg : List UInt8)
  | signalling

inductive ConsumerPc where
  /-- In the loop that waits for `demo_ipc_ready`. -/
  | polling
  | waiting
  | receiving
  deriving DecidableEq

/-- The addresses of `producer_sem` and `producer_queue`. -/
structure Ipc where
  producerSem : Addr
  producerQueue : Addr

/-- The statics of `demo.c` and its two threads, with what the consumer has printed. -/
structure State where
  demoIpcReady : Bool
  objects : Objects
  producer : ProducerPc
  counter : UInt32
  consumer : ConsumerPc
  received : List UInt32

inductive Event where
  | producer
  | consumer

section
variable (ipc : Ipc) (s : State)

def producerStep : State :=
  let o := s.objects
  match s.producer with
  | .initSem =>
    { s with
      objects := { o with permits := Function.update o.permits ipc.producerSem 0 }
      producer := .initQueue }
  | .initQueue =>
    { s with
      objects := { o with
        size := Function.update o.size ipc.producerQueue 4
        queue := Function.update o.queue ipc.producerQueue [] }
      producer := .setReady }
  | .setReady => { s with demoIpcReady := true, producer := .sleeping }
  | .sleeping =>
    { s with producer := .sending (messageBytes s.counter), counter := s.counter + 1 }
  | .sending msg =>
    match o.wait 0 (.mqueueSend ipc.producerQueue msg) with
    | none => s
    | some (o, _) => { s with objects := o, producer := .signalling }
  | .signalling =>
    { s with objects := (o.post (.ksemaphoreSignal ipc.producerSem)).1, producer := .sleeping }

def consumerStep : State :=
  match s.consumer with
  | .polling => if s.demoIpcReady then { s with consumer := .waiting } else s
  | .waiting =>
    match s.objects.wait 0 (.ksemaphoreWait ipc.producerSem) with
    | none => s
    | some (o, _) => { s with objects := o, consumer := .receiving }
  | .receiving =>
    match s.objects.wait 0 (.mqueueRecv ipc.producerQueue) with
    | some (o, .msg bytes) =>
      { s with objects := o, consumer := .waiting, received := s.received ++ [messageValue bytes] }
    | _ => s

def step (s : State) : Event → State
  | .producer => producerStep ipc s
  | .consumer => consumerStep ipc s

end

/-- Both threads at their start, with `demo_ipc_ready` as the last run has left it: nothing but the
boot makes it false. -/
def start (ready : Bool) (o : Objects) : State := ⟨ready, o, .initSem, 0, .polling, []⟩

theorem length_messageBytes (value : UInt32) : (messageBytes value).length = 4 := by
  simp [messageBytes]

theorem messageValue_bytes (value : UInt32) : messageValue (messageBytes value) = value := by
  apply PicoOS.Fs.loadWord_wordByte
  intro k small
  simp [messageBytes, small]

/-! ### What holds in every state -/

/-- The message that was sent and has no permit yet. -/
def ProducerPc.pending : ProducerPc → Nat
  | .signalling => 1
  | _ => 0

/-- The message whose permit was taken. -/
def ConsumerPc.pending : ConsumerPc → Nat
  | .receiving => 1
  | _ => 0

/-- `n` messages were sent: the first ones have been received, the rest are queued, and there is a
permit for each that has been signalled and not been waited for. -/
structure Piped (ipc : Ipc) (s : State) (n : Nat) : Prop where
  size : s.objects.size ipc.producerQueue = 4
  received : s.received = (List.range s.received.length).map UInt32.ofNat
  behind : s.received.length ≤ n
  queue : s.objects.queue ipc.producerQueue =
    (List.range' s.received.length (n - s.received.length)).map fun i => messageBytes (.ofNat i)
  bound : n - s.received.length ≤ mqMaxMsg
  permits : (s.objects.permits ipc.producerSem).toInt + s.producer.pending + s.consumer.pending =
    n - s.received.length
  nonneg : 0 ≤ (s.objects.permits ipc.producerSem).toInt

/-- The consumer has touched nothing yet. -/
structure Untouched (s : State) : Prop where
  ready : s.demoIpcReady = false
  polling : s.consumer = .polling
  received : s.received = []
  counter : s.counter = 0

inductive Inv (ipc : Ipc) (s : State) : Prop where
  | initSem (at_ : s.producer = .initSem) (untouched : Untouched s)
  | initQueue (at_ : s.producer = .initQueue) (untouched : Untouched s)
      (permits : s.objects.permits ipc.producerSem = 0)
  | setReady (at_ : s.producer = .setReady) (untouched : Untouched s)
      (permits : s.objects.permits ipc.producerSem = 0)
      (queue : s.objects.queue ipc.producerQueue = [])
      (size : s.objects.size ipc.producerQueue = 4)
  | sleeping (at_ : s.producer = .sleeping) (n : Nat) (piped : Piped ipc s n)
      (counter : s.counter = .ofNat n)
  | sending (n : Nat) (at_ : s.producer = .sending (messageBytes (.ofNat n)))
      (piped : Piped ipc s n) (counter : s.counter = .ofNat (n + 1))
  | signalling (at_ : s.producer = .signalling) (n : Nat) (piped : Piped ipc s n)
      (counter : s.counter = .ofNat n)

section
variable {ipc : Ipc} {s : State}

theorem wait_recv {o : Objects} {q : Addr} {msg : List UInt8} {rest : List (List UInt8)}
    (queue : o.queue q = msg :: rest) :
    o.wait 0 (.mqueueRecv q) =
      some ({ o with queue := Function.update o.queue q rest }, .msg msg) := by
  simp only [Objects.wait, queue]

/-- Before `demo_ipc_ready` is set the consumer waits for it. -/
theorem untouched_consumer (untouched : Untouched s) : consumerStep ipc s = s := by
  simp [consumerStep, untouched.polling, untouched.ready]

theorem Piped.length_queue {n : Nat} (piped : Piped ipc s n) :
    (s.objects.queue ipc.producerQueue).length = n - s.received.length := by
  rw [piped.queue, List.length_map, List.length_range']

/-- A step of the consumer keeps the pipe, and leaves the producer alone. -/
theorem Piped.consume {n : Nat} (piped : Piped ipc s n) :
    Piped ipc (consumerStep ipc s) n ∧ (consumerStep ipc s).producer = s.producer ∧
      (consumerStep ipc s).counter = s.counter := by
  obtain ⟨size, received, behind, queue, bound, permits, nonneg⟩ := piped
  unfold consumerStep
  cases at_ : s.consumer with
  | polling =>
    simp only [at_, ConsumerPc.pending] at permits
    dsimp only
    split
    next => exact ⟨⟨size, received, behind, queue, bound, permits, nonneg⟩, rfl, rfl⟩
    next =>
      exact ⟨⟨size, received, behind, queue, bound, by rw [at_]; exact permits, nonneg⟩, rfl, rfl⟩
  | waiting =>
    simp only [at_, ConsumerPc.pending] at permits
    dsimp only
    split
    next =>
      exact ⟨⟨size, received, behind, queue, bound, by rw [at_]; exact permits, nonneg⟩, rfl, rfl⟩
    next o ret takes =>
      simp only [Objects.wait, Option.ite_none_right_eq_some, Option.some.injEq,
        Prod.mk.injEq] at takes
      obtain ⟨enabled, rfl, _⟩ := takes
      have less := Kernel.permit_taken (by simpa [Int32.lt_iff_toInt_lt] using enabled)
      have positive : 0 < (s.objects.permits ipc.producerSem).toInt := by
        simpa [Int32.lt_iff_toInt_lt] using enabled
      refine ⟨⟨size, received, behind, queue, bound, ?_, ?_⟩, rfl, rfl⟩
      · simp only [Function.update_self, less, ConsumerPc.pending]
        push_cast at permits ⊢
        omega
      · simp only [Function.update_self, less]
        omega
  | receiving =>
    simp only [at_, ConsumerPc.pending] at permits
    -- The permit that was taken stands for a message in the queue.
    have waits : 0 < n - s.received.length := by omega
    obtain ⟨k, more⟩ := Nat.exists_eq_succ_of_ne_zero (Nat.ne_of_gt waits)
    rw [more, List.range'_succ, List.map_cons] at queue
    rw [wait_recv queue]
    dsimp only
    have length (v : UInt32) : (s.received ++ [v]).length = s.received.length + 1 := by simp
    refine ⟨⟨size, ?_, ?_, ?_, ?_, ?_, nonneg⟩, rfl, rfl⟩
    · rw [length, List.range_succ, List.map_append, ← received, messageValue_bytes]
      rfl
    · rw [length]
      omega
    · dsimp only
      rw [length, Function.update_self, show n - (s.received.length + 1) = k by omega]
    · rw [length]
      omega
    · dsimp only
      rw [length]
      simp only [ConsumerPc.pending]
      push_cast at permits ⊢
      omega

/-- Before the queue is ready a step of the consumer does nothing; after that it keeps the pipe. -/
theorem consumerStep_inv (inv : Inv ipc s) : Inv ipc (consumerStep ipc s) := by
  cases inv with
  | initSem at_ untouched =>
    rw [untouched_consumer untouched]
    exact .initSem at_ untouched
  | initQueue at_ untouched permits =>
    rw [untouched_consumer untouched]
    exact .initQueue at_ untouched permits
  | setReady at_ untouched permits queue size =>
    rw [untouched_consumer untouched]
    exact .setReady at_ untouched permits queue size
  | sleeping at_ n piped counter =>
    obtain ⟨piped, producer, same⟩ := piped.consume
    exact .sleeping (producer.trans at_) n piped (same.trans counter)
  | sending n at_ piped counter =>
    obtain ⟨piped, producer, same⟩ := piped.consume
    exact .sending n (producer.trans at_) piped (same.trans counter)
  | signalling at_ n piped counter =>
    obtain ⟨piped, producer, same⟩ := piped.consume
    exact .signalling (producer.trans at_) n piped (same.trans counter)

theorem ofNat_succ (n : Nat) : UInt32.ofNat n + 1 = UInt32.ofNat (n + 1) := by
  rw [UInt32.ofNat_add]
  rfl

/-- A message goes behind those that are queued. -/
theorem Piped.send {n : Nat} (piped : Piped ipc s n)
    (at_ : s.producer = .sending (messageBytes (.ofNat n)))
    (room : n - s.received.length < mqMaxMsg) :
    Piped ipc { s with
      objects := { s.objects with
        queue := Function.update s.objects.queue ipc.producerQueue
          (s.objects.queue ipc.producerQueue ++
            [(messageBytes (.ofNat n)).take (s.objects.size ipc.producerQueue)]) }
      producer := .signalling } (n + 1) := by
  obtain ⟨size, received, behind, queue, bound, permits, nonneg⟩ := piped
  simp only [at_, ProducerPc.pending] at permits
  refine ⟨size, received, by simpa using Nat.le_succ_of_le behind, ?_, ?_, ?_, nonneg⟩
  · -- the four bytes of a counter are the message size, so nothing is cut off
    have whole : (messageBytes (.ofNat n)).take 4 = messageBytes (.ofNat n) :=
      List.take_of_length_le (length_messageBytes _).le
    have last : s.received.length + 1 * (n - s.received.length) = n := by omega
    simp only [Function.update_self, size, whole, queue]
    rw [Nat.succ_sub behind, List.range'_concat, List.map_append, last]
    rfl
  · dsimp only
    omega
  · simp only [ProducerPc.pending]
    push_cast at permits ⊢
    omega

theorem producerStep_inv (inv : Inv ipc s) : Inv ipc (producerStep ipc s) := by
  unfold producerStep
  cases inv with
  | initSem at_ untouched =>
    obtain ⟨ready, polling, received, counter⟩ := untouched
    simp only [at_]
    exact .initQueue rfl ⟨ready, polling, received, counter⟩ (Function.update_self ..)
  | initQueue at_ untouched permits =>
    obtain ⟨ready, polling, received, counter⟩ := untouched
    simp only [at_]
    exact .setReady rfl ⟨ready, polling, received, counter⟩ permits (Function.update_self ..)
      (Function.update_self ..)
  | setReady at_ untouched permits queue size =>
    obtain ⟨ready, polling, received, counter⟩ := untouched
    simp only [at_]
    refine .sleeping rfl 0 ⟨size, ?_, ?_, ?_, ?_, ?_, ?_⟩ counter <;>
      simp [received, queue, permits, polling, ProducerPc.pending, ConsumerPc.pending]
  | sleeping at_ n piped counter =>
    obtain ⟨size, received, behind, queue, bound, permits, nonneg⟩ := piped
    simp only [at_, counter]
    simp only [at_, ProducerPc.pending] at permits
    exact .sending n rfl ⟨size, received, behind, queue, bound, permits, nonneg⟩ (ofNat_succ n)
  | sending n at_ piped counter =>
    simp only [at_]
    split
    next => exact .sending n at_ piped counter
    next o ret sends =>
      simp only [Objects.wait, Option.ite_none_right_eq_some, Option.some.injEq,
        Prod.mk.injEq, piped.length_queue] at sends
      obtain ⟨room, rfl, _⟩ := sends
      exact .signalling rfl (n + 1) (piped.send at_ room) counter
  | signalling at_ n piped counter =>
    obtain ⟨size, received, behind, queue, bound, permits, nonneg⟩ := piped
    simp only [at_]
    simp only [at_, ProducerPc.pending] at permits
    -- the queue bounds the permits, so the count cannot wrap
    have few : mqMaxMsg = 16 := rfl
    have more := Kernel.permit_added nonneg (by push_cast at permits; omega)
    refine .sleeping rfl n ⟨size, received, behind, queue, bound, ?_, ?_⟩ counter
    · simp only [Objects.post, Function.update_self, more, ProducerPc.pending]
      push_cast at permits ⊢
      omega
    · simp only [Objects.post, Function.update_self, more]
      omega

theorem step_inv (inv : Inv ipc s) (e : Event) : Inv ipc (step ipc s e) := by
  cases e with
  | producer => exact producerStep_inv inv
  | consumer => exact consumerStep_inv inv

/-! ### The pipe -/

/-- The values that were produced and sent: those printed and those on their way. -/
def sent (ipc : Ipc) (s : State) : List UInt32 :=
  s.received ++ (s.objects.queue ipc.producerQueue).map messageValue

/-- What the consumer prints, and what neither thread has to wait for. -/
structure Sound (ipc : Ipc) (s : State) : Prop where
  /-- The values printed are the first ones of the counter, each once and in order. -/
  inOrder : s.received = (List.range s.received.length).map UInt32.ofNat
  /-- None is lost on the way, where at most a queue of them is. -/
  complete : s.consumer ≠ .polling → ∃ n, sent ipc s = (List.range n).map UInt32.ofNat ∧
    n ≤ s.received.length + mqMaxMsg ∧ (s.producer = .sleeping → s.counter = .ofNat n)
  /-- A permit comes with a message. -/
  receives : s.consumer = .receiving →
    (s.objects.wait 0 (.mqueueRecv ipc.producerQueue)).isSome = true
  /-- While the producer waits for room the consumer can go on. -/
  moves : ∀ msg, s.producer = .sending msg → s.consumer = .waiting →
    s.objects.wait 0 (.mqueueSend ipc.producerQueue msg) = none →
    (s.objects.wait 0 (.ksemaphoreWait ipc.producerSem)).isSome = true

theorem Piped.sent_eq {n : Nat} (piped : Piped ipc s n) :
    sent ipc s = (List.range n).map UInt32.ofNat := by
  have values : (s.objects.queue ipc.producerQueue).map messageValue =
      (List.range' s.received.length (n - s.received.length)).map UInt32.ofNat := by
    rw [piped.queue, List.map_map]
    apply List.map_congr_left
    intro i _
    exact messageValue_bytes _
  have parts : List.range n = List.range s.received.length ++
      List.range' s.received.length (n - s.received.length) := by
    have joined := List.range'_append_1 (s := 0) (m := s.received.length)
      (n := n - s.received.length)
    rw [Nat.zero_add, Nat.add_sub_cancel' piped.behind] at joined
    rw [List.range_eq_range', List.range_eq_range', joined]
  rw [sent, values, parts, List.map_append, ← piped.received]

theorem Untouched.sound (untouched : Untouched s) : Sound ipc s where
  inOrder := by simp [untouched.received]
  complete polled := absurd untouched.polling polled
  receives at_ := by rw [untouched.polling] at at_; cases at_
  moves _ _ at_ := by rw [untouched.polling] at at_; cases at_

theorem Piped.sound {n : Nat} (piped : Piped ipc s n)
    (counter : s.producer = .sleeping → s.counter = .ofNat n) : Sound ipc s where
  inOrder := piped.received
  complete _ := ⟨n, piped.sent_eq, by have := piped.bound; omega, counter⟩
  receives at_ := by
    have permits := piped.permits
    have nonneg := piped.nonneg
    simp only [at_, ConsumerPc.pending] at permits
    have filled : 0 < (s.objects.queue ipc.producerQueue).length := by
      rw [piped.length_queue]
      omega
    obtain ⟨msg, rest, queue⟩ := List.exists_cons_of_length_pos filled
    rw [wait_recv queue]
    rfl
  moves msg at_ waits full := by
    have permits := piped.permits
    simp only [at_, waits, ProducerPc.pending, ConsumerPc.pending] at permits
    simp only [Objects.wait, piped.length_queue, ite_eq_right_iff, reduceCtorEq, imp_false] at full
    have few : mqMaxMsg = 16 := rfl
    have enabled : 0 < s.objects.permits ipc.producerSem := by
      rw [Int32.lt_iff_toInt_lt, show (0 : Int32).toInt = 0 from rfl]
      push_cast at permits
      omega
    simp [Objects.wait, enabled]

theorem Inv.sound (inv : Inv ipc s) : Sound ipc s := by
  cases inv with
  | initSem _ untouched | initQueue _ untouched | setReady _ untouched => exact untouched.sound
  | sleeping _ n piped counter => exact piped.sound fun _ => counter
  | sending n at_ piped =>
    apply piped.sound
    intro sleeping
    rw [at_] at sleeping
    cases sleeping
  | signalling at_ n piped counter => exact piped.sound fun _ => counter

/-- Whatever order the two threads run in at their first start since the boot, and on whatever objects:
the consumer prints the values of the counter in order, without a gap or a value twice, at most a
queue behind; it never blocks in `mqueue_recv`, and the two threads never wait for each other. -/
theorem demo_pipe_sound (ipc : Ipc) (o : Objects) (es : List Event) :
    Sound ipc (Run.exec (step ipc) (start false o) es) :=
  (Run.exec_invariant (I := Inv ipc) (fun _ e inv => step_inv inv e)
    (.initSem rfl ⟨rfl, rfl, rfl, rfl⟩) es).sound

/-- A later start is not safe: the flag is still set, and a consumer that runs first prints what the
last run has left in the queue. -/
theorem restart_prints_stale (ipc : Ipc) {o : Objects} {bytes : List UInt8} {rest : List (List UInt8)}
    (permit : 0 < o.permits ipc.producerSem) (queue : o.queue ipc.producerQueue = bytes :: rest) :
    (Run.exec (step ipc) (start true o) [.consumer, .consumer, .consumer]).received =
      [messageValue bytes] := by
  simp [start, step, consumerStep, Objects.wait, permit, queue]

end

end PicoOS.Apps.Demo
