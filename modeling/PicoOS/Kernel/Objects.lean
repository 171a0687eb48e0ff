import PicoOS.Kernel.Contexts
import PicoOS.Kernel.Messages

/-!
# The primitives as their callers see them

A mutex with its owner, a number of permits, a set of flags, a bounded list of
messages: on these, each call of `sync.c` is one step, which a blocking call
takes when it is enabled. The kernel refines that. Whatever the scheduler does
in between, a call takes effect once, in its section, and returns what it got
there, and what it finds is what the sections before it have left.
-/
namespace PicoOS.Kernel

structure Objects where
  owner : Addr → Option UInt32
  permits : Addr → Int32
  flags : Addr → UInt32
  /-- The size of the messages of a queue, and the messages, oldest first. -/
  size : Addr → Nat
  queue : Addr → List (List UInt8)

namespace Objects

/-- A blocking call by the thread `tid`, and what it returns; `none` while it is not enabled. -/
def wait (o : Objects) (tid : UInt32) : WaitOp → Option (Objects × Ret)
  | .kmutexLock m =>
    match o.owner m with
    | none => some ({ o with owner := Function.update o.owner m (some tid) }, .none)
    | some _ => none
  | .ksemaphoreWait s =>
    if 0 < o.permits s then
      some ({ o with permits := Function.update o.permits s (o.permits s - 1) }, .none)
    else
      none
  | .eventFlagsWait e mask waitForAll =>
    if flagsSatisfied (o.flags e) mask waitForAll then some (o, .word (o.flags e)) else none
  | .mqueueSend q msg =>
    if (o.queue q).length < mqMaxMsg then
      some ({ o with queue :=
        Function.update o.queue q (o.queue q ++ [msg.take (o.size q)]) }, .none)
    else
      none
  | .mqueueRecv q =>
    match o.queue q with
    | [] => none
    | msg :: rest => some ({ o with queue := Function.update o.queue q rest }, .msg msg)

/-- A call that does not block. -/
def post (o : Objects) : PostOp → Objects × Ret
  | .kmutexUnlock m => ({ o with owner := Function.update o.owner m none }, .none)
  | .ksemaphoreSignal s =>
    ({ o with permits := Function.update o.permits s (o.permits s + 1) }, .none)
  | .eventFlagsSet e mask =>
    ({ o with flags := Function.update o.flags e (o.flags e ||| mask) }, .none)
  | .eventFlagsClear e mask =>
    ({ o with flags := Function.update o.flags e (o.flags e &&& ~~~mask) }, .none)
  | .mqueueTrySend q msg =>
    if (o.queue q).length < mqMaxMsg then
      ({ o with queue :=
        Function.update o.queue q (o.queue q ++ [msg.take (o.size q)]) }, .bool true)
    else
      (o, .bool false)
  | .mqueueTryRecv q =>
    match o.queue q with
    | [] => (o, .bool false)
    | msg :: rest => ({ o with queue := Function.update o.queue q rest }, .msg msg)

/-- A call of `sync.c`. -/
def call (o : Objects) (tid : UInt32) : Call → Option (Objects × Ret)
  | .wait op => o.wait tid op
  | .post op => some (o.post op)
  | _ => none

end Objects

/-- A call that has taken effect, and what it got. -/
structure Entry where
  thread : Slot
  tid : UInt32
  call : Call
  ret : Ret

/-- The calls of the log, made one after the other, get what the log says. -/
inductive Objects.Follows (o : Objects) : List Entry → Objects → Prop where
  | nil : o.Follows [] o
  | snoc {log : List Entry} {o₁ o₂ : Objects} {n : Entry} (before : o.Follows log o₁)
      (call : o₁.call n.tid n.call = some (o₂, n.ret)) : o.Follows (log ++ [n]) o₂

/-- The thread that `owner_tid` names. -/
def Kmutex.owner (v : Kmutex) : Option UInt32 :=
  if v.ownerTid = noOwner then none else some v.ownerTid

/-- What the primitives of the kernel are to their callers. -/
def KernelState.objects (k : KernelState) : Objects where
  owner a := (k.mutexes a).owner
  permits := k.semaphores
  flags := k.eventFlags
  size a := (k.queues a).msgSize
  queue a := (k.queues a).contents

/-- The indices of every queue agree with its count. -/
def KernelState.QueuesOk (k : KernelState) : Prop := ∀ a, (k.queues a).Ok

/-! ### Sections -/

section
variable {k k' : KernelState} {t : Slot}

theorem objects_prims (same : k'.prims = k.prims) : k'.objects = k.objects := by
  simp only [KernelState.prims, Prod.mk.injEq] at same
  obtain ⟨mutexes, semaphores, flags, queues⟩ := same
  simp [KernelState.objects, mutexes, semaphores, flags, queues]

theorem KernelState.QueuesOk.prims (ok : k.QueuesOk) (same : k'.prims = k.prims) :
    k'.QueuesOk := by
  intro a
  rw [queues_prims same]
  exact ok a

theorem KernelState.QueuesOk.setQueue (ok : k.QueuesOk) {a : Addr} {q : Mqueue} (new : q.Ok) :
    (setQueue k a q).QueuesOk := by
  intro b
  by_cases eq : b = a
  · subst eq
    simpa [PicoOS.Kernel.setQueue] using new
  · simpa [PicoOS.Kernel.setQueue, eq] using ok b

/-- A value of each cell, where one cell is written. -/
theorem update_comp {α β : Type} (f : α → β) (g : Addr → α) (a : Addr) (v : α) :
    (fun b => f (Function.update g a v b)) = Function.update (fun b => f (g b)) a (f v) := by
  funext b
  by_cases eq : b = a
  · subst eq
    simp
  · simp [eq]

theorem objects_setQueue (k : KernelState) (a : Addr) (q : Mqueue)
    (size : q.msgSize = (k.queues a).msgSize) :
    (setQueue k a q).objects =
      { k.objects with queue := Function.update k.objects.queue a q.contents } := by
  simp only [KernelState.objects, setQueue, update_comp Mqueue.contents,
    update_comp Mqueue.msgSize, size]
  congr
  exact Function.update_eq_self a fun b => (k.queues b).msgSize

theorem objects_setMutex (k : KernelState) (a : Addr) (v : Kmutex) :
    (setMutex k a v).objects =
      { k.objects with owner := Function.update k.objects.owner a v.owner } := by
  simp only [KernelState.objects, setMutex, update_comp Kmutex.owner]

theorem length_queue (k : KernelState) (q : Addr) :
    (k.objects.queue q).length = (k.queues q).count := Mqueue.length_contents

theorem objects_put (ok : k.QueuesOk) {q : Addr} (room : (k.queues q).count < mqMaxMsg)
    (msg : List UInt8) :
    (setQueue k q (mqueuePut (k.queues q) msg)).objects =
      { k.objects with queue :=
        Function.update k.objects.queue q (k.objects.queue q ++ [msg.take (k.objects.size q)]) } := by
  rw [objects_setQueue k q (mqueuePut (k.queues q) msg) rfl, ((ok q).put room msg).2]
  rfl

theorem objects_get (k : KernelState) (q : Addr) :
    (setQueue k q (mqueueGet (k.queues q)).1).objects =
      { k.objects with queue :=
        Function.update k.objects.queue q (mqueueGet (k.queues q)).1.contents } :=
  objects_setQueue k q (mqueueGet (k.queues q)).1 rfl

theorem queue_filled (ok : k.QueuesOk) {q : Addr} (filled : 0 < (k.queues q).count) :
    k.objects.queue q = (mqueueGet (k.queues q)).2 :: (mqueueGet (k.queues q)).1.contents :=
  ((ok q).get filled).2

theorem queue_empty {q : Addr} (empty : (k.queues q).count = 0) : k.objects.queue q = [] := by
  apply List.length_eq_zero_iff.mp
  rw [length_queue, empty]

/-- The section of a wait loop is the call on the objects: it blocks exactly while that is not
enabled, and else does it and gets what it returns. -/
theorem waitTake_objects (ok : k.QueuesOk) (real : k.tid t ≠ noOwner) (op : WaitOp) :
    (waitTake k t op).map (fun s => (s.k.objects, s.ret)) = k.objects.wait (k.tid t) op := by
  cases op with
  | kmutexLock m =>
    by_cases free : (k.mutexes m).ownerTid = noOwner
    · have unowned : k.objects.owner m = none := if_pos free
      have claimed : (⟨(k.tcb t).tid, 1⟩ : Kmutex).owner = some (k.tid t) := if_neg real
      simp only [waitTake, Objects.wait, free, unowned, if_true, Option.map_some]
      rw [objects_setMutex, claimed]
    · have owned : k.objects.owner m = some (k.mutexes m).ownerTid := if_neg free
      simp [waitTake, Objects.wait, owned, free]
  | ksemaphoreWait s =>
    by_cases some : 0 < k.semaphores s
    · simp [waitTake, Objects.wait, KernelState.objects, some, setSemaphore]
    · simp [waitTake, Objects.wait, KernelState.objects, some]
  | eventFlagsWait e mask waitForAll =>
    by_cases sat : flagsSatisfied (k.eventFlags e) mask waitForAll = true
    · simp [waitTake, Objects.wait, KernelState.objects, sat]
    · simp [waitTake, Objects.wait, KernelState.objects, sat]
  | mqueueSend q msg =>
    by_cases room : (k.queues q).count < mqMaxMsg
    · simp only [waitTake, Objects.wait, length_queue, room, if_true, Option.map_some]
      rw [objects_put ok room]
    · simp [waitTake, Objects.wait, length_queue, room]
  | mqueueRecv q =>
    by_cases filled : 0 < (k.queues q).count
    · simp only [waitTake, Objects.wait, queue_filled ok filled, filled, if_true, Option.map_some]
      rw [objects_get]
    · have empty := queue_empty (Nat.eq_zero_of_not_pos filled)
      simp [waitTake, Objects.wait, empty, filled]

theorem waitTake_queuesOk (ok : k.QueuesOk) {op : WaitOp} {s : Section}
    (h : waitTake k t op = some s) : s.k.QueuesOk := by
  cases op <;>
    simp only [waitTake, Option.ite_none_right_eq_some, Option.some.injEq] at h <;>
    obtain ⟨enabled, rfl⟩ := h
  case mqueueSend q msg => exact ok.setQueue ((ok q).put enabled msg).1
  case mqueueRecv q => exact ok.setQueue ((ok q).get enabled).1
  all_goals exact ok

/-- The section of a call that does not block is the call on the objects. -/
theorem postTake_objects (ok : k.QueuesOk) (op : PostOp) :
    ((postTake k op).k.objects, (postTake k op).ret) = k.objects.post op := by
  cases op with
  | kmutexUnlock m =>
    have free : (⟨noOwner, 0⟩ : Kmutex).owner = none := if_pos rfl
    simp only [postTake, Objects.post, objects_setMutex, free]
  | mqueueTrySend q msg =>
    by_cases room : (k.queues q).count < mqMaxMsg
    · simp only [postTake, Objects.post, length_queue, room, if_true,
        if_neg (Nat.not_le.mpr room)]
      rw [objects_put ok room]
    · simp [postTake, Objects.post, length_queue, room, Nat.not_lt.mp room]
  | mqueueTryRecv q =>
    by_cases filled : 0 < (k.queues q).count
    · simp only [postTake, Objects.post, queue_filled ok filled, if_neg (Nat.ne_of_gt filled)]
      rw [objects_get]
    · have none := Nat.eq_zero_of_not_pos filled
      simp [postTake, Objects.post, queue_empty none, none]
  | _ => rfl

theorem postTake_queuesOk (ok : k.QueuesOk) (op : PostOp) : (postTake k op).k.QueuesOk := by
  cases op with
  | mqueueTrySend q msg =>
    simp only [postTake]
    split
    next => exact ok
    next room => exact ok.setQueue ((ok q).put (Nat.lt_of_not_le room) msg).1
  | mqueueTryRecv q =>
    simp only [postTake]
    split
    next => exact ok
    next filled => exact ok.setQueue ((ok q).get (Nat.pos_of_ne_zero filled)).1
  | _ => exact ok

end

/-! ### Steps -/

/-- In a call of `sync.c` before its section. -/
def Pc.waits : Pc → Bool
  | .test _ _ | .blocking _ | .yielding _ | .yielded _ | .post _ => true
  | _ => false

/-- In a call of `sync.c` between its section and the return. -/
def Pc.leaves : Pc → Bool
  | .waking _ | .scanning _ _ _ | .unblocking _ _ | .freeing _ _ (.waker _) => true
  | _ => false

/-- The call that takes effect in a step of a thread. -/
def Machine.effect (m : Machine) (x : Ctx) (a : Act) : Option Entry :=
  match x.pc with
  | .test op _ =>
    if a.pc = .blocking op then none else some ⟨x.self, m.k.tid x.self, .wait op, a.ret⟩
  | .post op => some ⟨x.self, m.k.tid x.self, .post op, a.ret⟩
  | _ => none

/-- The call that takes effect in an event. -/
def Machine.serves (m : Machine) (e : Event) : Option Entry :=
  (m.acts e).bind fun (x, a) => m.effect x a

/-- Where a step takes a thread, seen from the calls of `sync.c`. -/
inductive Phase (m : Machine) (x : Ctx) (a : Act) : Prop where
  /-- It goes on to wait, and leaves the objects alone. -/
  | waits (before : x.pc.waits = true) (after : a.pc.waits = true) (idle : m.effect x a = none)
      (objects : a.k.prims = m.k.prims)
  /-- Its call takes effect. -/
  | serves (n : Entry) (before : x.pc.waits = true) (after : a.pc.waits = false)
      (effect : m.effect x a = some n) (self : n.thread = x.self) (ret : n.ret = a.ret)
  /-- It is on its way out. -/
  | leaves (before : x.pc.leaves = true) (after : a.pc.waits = false) (idle : m.effect x a = none)
      (ret : a.ret = x.ret) (objects : a.k.prims = m.k.prims)
  /-- It is in no call of `sync.c`. -/
  | out (before : x.pc.waits = false ∧ x.pc.leaves = false)
      (after : a.pc.waits = false ∧ a.pc.leaves = false) (idle : m.effect x a = none)
      (objects : a.k.prims = m.k.prims)

section
variable {m : Machine} {c : Core} {x : Ctx} {a : Act}

theorem wakePc_waits (k : KernelState) (wakes : Option WaitList) :
    (wakePc k wakes).waits = false := by
  cases wakes with
  | none => rfl
  | some w => cases w <;> rfl

theorem act_phase (h : m.act c x = some a) : Phase m x a := by
  obtain ⟨self, pc, ret⟩ := x
  cases pc with
  | test op again =>
    obtain ⟨cur, _, ⟨s, taken, rfl⟩ | ⟨_, same, blocks, _⟩⟩ := test_cases rfl h
    · have goes : wakePc s.k s.wakes ≠ .blocking op := by
        intro eq
        have waits := wakePc_waits s.k s.wakes
        rw [eq] at waits
        cases waits
      refine .serves ⟨self, m.k.tid self, .wait op, s.ret⟩ rfl (wakePc_waits _ _) ?_ rfl rfl
      simp only [Machine.effect, if_neg goes]
    · exact .waits rfl (by rw [blocks]; rfl) (by simp [Machine.effect, blocks]) same.prims
  | post op =>
    rw [post_cases rfl h]
    exact .serves _ rfl (wakePc_waits _ _) rfl rfl rfl
  | blocking op =>
    have prims := act_prims h rfl
    simp only [Machine.act, Option.ite_none_right_eq_some] at h
    obtain ⟨cur, _, h⟩ := Option.bind_eq_some_iff.mp h.2
    obtain ⟨k, _, rfl⟩ := Option.map_eq_some_iff.mp h
    exact .waits rfl rfl rfl prims
  | yielding | yielded =>
    have prims := act_prims h rfl
    cases h
    exact .waits rfl rfl rfl prims
  | waking w =>
    refine .leaves rfl ?_ rfl ?_ (act_prims h rfl) <;> cases h <;> unfold wakeStep <;> split <;> rfl
  | scanning e prev cur =>
    refine .leaves rfl ?_ rfl ?_ (act_prims h rfl) <;> cases h <;> unfold scanStep <;> split <;>
      first | rfl | (split <;> rfl)
  | unblocking t loop =>
    have prims := act_prims h rfl
    simp only [Machine.act, Option.ite_none_right_eq_some] at h
    obtain ⟨⟨k, live⟩, _, rfl⟩ := Option.map_eq_some_iff.mp h.2
    refine .leaves rfl ?_ rfl rfl prims
    cases live <;> cases loop <;> rfl
  | freeing t stage caller =>
    have prims := act_prims h rfl
    cases caller with
    | waker loop =>
      refine .leaves rfl ?_ rfl ?_ prims <;> cases h <;> unfold freeingStep <;> split <;>
        first | rfl | (cases loop <;> rfl)
    | killer rest yield =>
      refine .out ⟨rfl, rfl⟩ ?_ rfl prims
      cases h
      unfold freeingStep
      split <;> exact ⟨rfl, rfl⟩
  | index r u =>
    have prims := act_prims h rfl
    refine .out ⟨rfl, rfl⟩ ?_ rfl prims
    simp only [Machine.act] at h
    rcases (indexStep_cases h).2 with
      ⟨_, pc⟩ | pc | pc | pc | ⟨_, _, pc⟩ | ⟨_, _, pc⟩ <;> rw [pc] <;> exact ⟨rfl, rfl⟩
  | access p u =>
    have prims := act_prims h rfl
    refine .out ⟨rfl, rfl⟩ ?_ rfl prims
    simp only [Machine.act] at h
    rcases accessStep_cases h with pc | ⟨_, pc⟩ | ⟨_, _, pc⟩ | pc | pc <;> rw [pc] <;>
      exact ⟨rfl, rfl⟩
  | killLock t r rest yield =>
    have prims := act_prims h rfl
    simp only [Machine.act, Option.ite_none_right_eq_some] at h
    obtain ⟨⟨k, now⟩, _, rfl⟩ := Option.map_eq_some_iff.mp h.2
    refine .out ⟨rfl, rfl⟩ ?_ rfl prims
    cases now <;> exact ⟨rfl, rfl⟩
  | sleepLock =>
    have prims := act_prims h rfl
    simp only [Machine.act, Option.ite_none_right_eq_some] at h
    obtain ⟨cur, _, h⟩ := Option.bind_eq_some_iff.mp h.2
    obtain ⟨k, _, rfl⟩ := Option.map_eq_some_iff.mp h
    exact .out ⟨rfl, rfl⟩ ⟨rfl, rfl⟩ rfl prims
  | createAdd t =>
    have prims := act_prims h rfl
    simp only [Machine.act, Option.ite_none_right_eq_some] at h
    obtain ⟨k, _, rfl⟩ := Option.map_eq_some_iff.mp h.2
    exact .out ⟨rfl, rfl⟩ ⟨rfl, rfl⟩ rfl prims
  | user => cases h
  | _ =>
    have prims := act_prims h rfl
    refine .out ⟨rfl, rfl⟩ ?_ rfl prims
    cases h
    simp only [killFindStep, killNextStep, snapshotStep, createFindStep, createAllocStep,
      createInitStep, createCountStep, procFindStep]
    repeat' split
    all_goals exact ⟨rfl, rfl⟩

theorem serves_acts {e : Event} {n : Entry} (h : m.serves e = some n) :
    ∃ x a, m.acts e = some (x, a) ∧ m.effect x a = some n ∧ n.thread = x.self := by
  obtain ⟨⟨x, a⟩, acts, effect⟩ := Option.bind_eq_some_iff.mp h
  obtain ⟨c, rfl, runs, h⟩ := acts_run acts
  refine ⟨x, a, acts, effect, ?_⟩
  cases act_phase h with
  | serves n' _ _ effect' self =>
    obtain rfl : n' = n := Option.some.inj (effect'.symm.trans effect)
    exact self
  | waits _ _ idle | leaves _ _ idle | out _ _ idle => cases idle.symm.trans effect

/-- The call that takes effect does so on the objects. -/
theorem effect_call (s : Scheduled m) (ok : m.k.QueuesOk) (real : ∀ t, m.k.tid t ≠ noOwner)
    (runs : m.executes c = some x) (h : m.act c x = some a) {n : Entry}
    (effect : m.effect x a = some n) :
    m.k.objects.call n.tid n.call = some (a.k.objects, n.ret) ∧ a.k.QueuesOk := by
  unfold Machine.effect at effect
  split at effect
  next op again at_ =>
    split at effect
    next => cases effect
    next goes =>
      cases effect
      obtain ⟨cur, current, ⟨sec, taken, rfl⟩ | ⟨_, _, blocks, _⟩⟩ := test_cases at_ h
      · -- the thread is the core's current one, so the section takes for it
        have self : cur = x.self := by
          have live := s.live c x (executes_eq_some.mp runs).1
          exact Option.some.inj (current.symm.trans live)
        subst self
        refine ⟨?_, waitTake_queuesOk ok taken⟩
        have same := waitTake_objects ok (real x.self) op
        rw [taken] at same
        exact same.symm
      · exact absurd blocks goes
  next op at_ =>
    cases effect
    rw [post_cases at_ h]
    exact ⟨congrArg some (postTake_objects ok op).symm, postTake_queuesOk ok op⟩
  next => cases effect

/-- A call that blocks is not enabled on the objects. -/
theorem blocks_disabled (s : Scheduled m) (ok : m.k.QueuesOk) (real : ∀ t, m.k.tid t ≠ noOwner)
    (runs : m.executes c = some x) (h : m.act c x = some a) {op : WaitOp}
    (blocks : a.pc = .blocking op) : m.k.objects.wait (m.k.tid x.self) op = none := by
  have waits : x.pc.waits = true := by
    cases act_phase h with
    | waits before => exact before
    | serves _ before => exact before
    | leaves _ after =>
      rw [blocks] at after
      cases after
    | out _ after =>
      rw [blocks] at after
      cases after.1
  obtain ⟨self, pc, ret⟩ := x
  cases pc with
  | test op' again =>
    obtain ⟨cur, current, ⟨sec, taken, rfl⟩ | ⟨refused, _, goes, _⟩⟩ := test_cases rfl h
    · have waits := wakePc_waits sec.k sec.wakes
      rw [show wakePc sec.k sec.wakes = .blocking op from blocks] at waits
      cases waits
    · -- the section looks at the thread that runs it
      have self : cur = self := by
        have live := s.live c _ (executes_eq_some.mp runs).1
        exact Option.some.inj (current.symm.trans live)
      subst self
      obtain rfl : op' = op := by
        rw [goes] at blocks
        cases blocks
        rfl
      have same := waitTake_objects ok (real cur) op'
      rw [refused] at same
      exact same.symm
  | blocking op' =>
    simp only [Machine.act, Option.ite_none_right_eq_some] at h
    obtain ⟨cur, _, h⟩ := Option.bind_eq_some_iff.mp h.2
    obtain ⟨k, _, rfl⟩ := Option.map_eq_some_iff.mp h
    cases blocks
  | yielding | yielded =>
    cases h
    cases blocks
  | post op' =>
    rw [post_cases rfl h] at blocks
    have waits := wakePc_waits (postTake m.k op').k (postTake m.k op').wakes
    rw [show wakePc (postTake m.k op').k (postTake m.k op').wakes = .blocking op from blocks] at waits
    cases waits
  | _ => cases waits

end

/-! ### Runs -/

/-- The machine, with the calls that have taken effect, in the order of their sections, and what
each thread's call has got, once it has taken effect. -/
structure Ledger where
  sys : Machine
  log : List Entry
  got : Slot → Option Ret

namespace Ledger

/-- What the calls have got: nothing yet where a new one starts. -/
def gets (l : Ledger) (e : Event) : Slot → Option Ret :=
  match e with
  | .call c _ =>
    match l.sys.caller c with
    | some x => Function.update l.got x.self none
    | none => l.got
  | _ =>
    match l.sys.serves e with
    | some n => Function.update l.got n.thread (some n.ret)
    | none => l.got

def step (l : Ledger) (e : Event) : Ledger where
  sys := l.sys.step e
  log := l.log ++ (l.sys.serves e).toList
  got := l.gets e

def start (m : Machine) : Ledger := ⟨m, [], fun _ => none⟩

/-- What one event does to the calls of `sync.c`: a call takes effect once, it blocks only while it
is not enabled, and it returns what it got when it took effect. -/
structure Answers (l : Ledger) (e : Event) : Prop where
  once : ∀ n, l.sys.serves e = some n → l.got n.thread = none
  blocks : ∀ x a op, l.sys.acts e = some (x, a) → a.pc = .blocking op →
    l.sys.k.objects.wait (l.sys.k.tid x.self) op = none
  returns : ∀ x a, l.sys.acts e = some (x, a) → x.pc.waits = true ∨ x.pc.leaves = true →
    a.pc = .user → (l.step e).got x.self = some a.ret

/-- What holds of the machine and its log in every state. -/
structure Kept (o : Objects) (l : Ledger) : Prop where
  scheduled : Scheduled l.sys
  queues : l.sys.k.QueuesOk
  follows : o.Follows l.log l.sys.k.objects
  waiting : ∀ x, l.sys.Carries x → x.pc.waits = true → l.got x.self = none
  leaving : ∀ x, l.sys.Carries x → x.pc.leaves = true → l.got x.self = some x.ret

variable {o : Objects} {l : Ledger} {e : Event}

/-- A thread that does not move in an event keeps what its call has got. -/
theorem gets_other {t : Slot} (other : l.sys.mover e ≠ some t) : l.gets e t = l.got t := by
  unfold gets
  split
  next c call =>
    cases caller : l.sys.caller c with
    | none => rfl
    | some x =>
      have elsewhere : t ≠ x.self := fun eq => other (by simp [Machine.mover, caller, eq])
      exact Function.update_of_ne elsewhere ..
  next =>
    cases serves : l.sys.serves e with
    | none => rfl
    | some n =>
      obtain ⟨x, a, acts, _, self⟩ := serves_acts serves
      have elsewhere : t ≠ n.thread := fun eq => by
        obtain ⟨c, rfl, _, _⟩ := acts_run acts
        exact other (by simp [Machine.mover, acts, eq, self])
      exact Function.update_of_ne elsewhere ..

/-- What a thread has got after its own step. -/
theorem gets_effect {x : Ctx} {a : Act} (acts : l.sys.acts e = some (x, a)) :
    l.gets e = match l.sys.effect x a with
      | some n => Function.update l.got n.thread (some n.ret)
      | none => l.got := by
  obtain ⟨c, rfl, _, _⟩ := acts_run acts
  simp only [gets, Machine.serves, acts, Option.bind_some]

theorem kept_step (real : ∀ t, l.sys.k.tid t ≠ noOwner) (kept : Kept o l) :
    Kept o (l.step e) := by
  obtain ⟨scheduled, queues, follows, waiting, leaving⟩ := kept
  -- only a section that takes or posts touches the objects, and it adds its call to the log
  have objects : (l.step e).sys.k.QueuesOk ∧ o.Follows (l.step e).log (l.step e).sys.k.objects := by
    have stepped := step_stepped l.sys e
    generalize next : l.sys.step e = m' at stepped
    have sys : (l.step e).sys = m' := next
    rw [sys]
    cases stepped with
    | rest _ rest =>
      have log : (l.step e).log = l.log := by simp [step, Machine.serves, rest.idle]
      rw [log, objects_prims rest.prims]
      exact ⟨queues.prims rest.prims, follows⟩
    | act c runs h =>
      rename_i x a
      have log : (l.step (.run c)).log = l.log ++ (l.sys.effect x a).toList := by
        simp [step, Machine.serves, acts_of runs h]
      rw [log]
      change a.k.QueuesOk ∧ o.Follows _ a.k.objects
      cases act_phase h with
      | serves n _ _ effect =>
        obtain ⟨call, ok⟩ := effect_call scheduled queues real runs h effect
        rw [effect]
        exact ⟨ok, follows.snoc call⟩
      | waits _ _ idle prims | leaves _ _ idle _ prims | out _ _ idle prims =>
        rw [idle, Option.toList_none, List.append_nil, objects_prims prims]
        exact ⟨queues.prims prims, follows⟩
  refine ⟨step_scheduled scheduled e, objects.1, objects.2, fun x carried waits => ?_,
    fun x carried leaves => ?_⟩
  · -- a context that waits has had no call of its own answered
    change l.gets e x.self = none
    cases step_origin scheduled e carried with
    | stays was other => rw [gets_other other, waiting x was waits]
    | acts y a acts eq =>
      obtain ⟨c, rfl, runs, h⟩ := acts_run acts
      have at_ : l.sys.Carries y := .inl ⟨c, (executes_eq_some.mp runs).1⟩
      subst eq
      rw [gets_effect acts]
      cases act_phase h with
      | waits before _ idle => simpa only [idle] using waiting y at_ before
      | serves _ _ after | leaves _ after =>
        rw [show a.pc.waits = true from waits] at after
        cases after
      | out _ after =>
        rw [show a.pc.waits = true from waits] at after
        cases after.1
    | calls c call y event caller eq =>
      subst event eq
      simp [gets, caller]
    | fresh t eq =>
      subst eq
      cases waits
  · change l.gets e x.self = some x.ret
    cases step_origin scheduled e carried with
    | stays was other => rw [gets_other other, leaving x was leaves]
    | acts y a acts eq =>
      obtain ⟨c, rfl, runs, h⟩ := acts_run acts
      have at_ : l.sys.Carries y := .inl ⟨c, (executes_eq_some.mp runs).1⟩
      subst eq
      rw [gets_effect acts]
      cases act_phase h with
      | waits _ after =>
        cases pc : a.pc <;> simp_all [Pc.waits, Pc.leaves]
      | serves n _ _ effect self ret => simp [effect, self, ret]
      | leaves before _ idle ret => simpa only [idle, ret] using leaving y at_ before
      | out _ after =>
        rw [show a.pc.leaves = true from leaves] at after
        cases after.2
    | calls c call y event caller eq =>
      subst event eq
      cases call <;> cases leaves
    | fresh t eq =>
      subst eq
      cases leaves

theorem answers_of (real : ∀ t, l.sys.k.tid t ≠ noOwner) (kept : Kept o l) : Answers l e where
  once n serves := by
    obtain ⟨x, a, acts, effect, self⟩ := serves_acts serves
    obtain ⟨c, rfl, runs, h⟩ := acts_run acts
    have at_ : l.sys.Carries x := .inl ⟨c, (executes_eq_some.mp runs).1⟩
    rw [self]
    cases act_phase h with
    | serves _ before => exact kept.waiting x at_ before
    | waits _ _ idle | leaves _ _ idle | out _ _ idle =>
      rw [idle] at effect
      cases effect
  blocks x a op acts blocks := by
    obtain ⟨c, rfl, runs, h⟩ := acts_run acts
    exact blocks_disabled kept.scheduled kept.queues real runs h blocks
  returns x a acts inside user := by
    obtain ⟨c, rfl, runs, h⟩ := acts_run acts
    have at_ : l.sys.Carries x := .inl ⟨c, (executes_eq_some.mp runs).1⟩
    change l.gets (.run c) x.self = some a.ret
    rw [gets_effect acts]
    cases act_phase h with
    | waits _ after =>
      rw [user] at after
      cases after
    | serves n _ _ effect self ret => simp [effect, self, ret]
    | leaves before _ idle ret => simpa only [idle, ret] using kept.leaving x at_ before
    | out before =>
      rw [before.1, before.2] at inside
      rcases inside with h | h <;> cases h

end Ledger

/-- What holds of the log of every run from the start of the system. -/
theorem ledger_run {m : Machine} (boot : AtBoot m) (queues : m.k.QueuesOk) {es : List Event}
    (real : Run.Along Machine.step (fun m _ => ∀ t, m.k.tid t ≠ noOwner) m es) :
    m.k.objects.Follows (Run.exec Ledger.step (.start m) es).log
        (Run.exec Machine.step m es).k.objects ∧
      Run.Along Ledger.step Ledger.Answers (.start m) es := by
  -- At the start no thread is in a call.
  have outside {x : Ctx} (carried : m.Carries x) : x.pc = .user := by
    rcases carried with ⟨c, at_⟩ | ⟨t, saved, _⟩
    · obtain ⟨t, boots, _⟩ := boot.1 c
      rw [boots] at at_
      cases at_
      rfl
    · rcases boot.2.1 t with empty | fresh
      · rw [empty] at saved
        cases saved
      · rw [fresh] at saved
        cases saved
        rfl
  have first : Ledger.Kept m.k.objects (.start m) := by
    refine ⟨boot.started.scheduled, queues, .nil, fun _ _ _ => rfl, fun x carried leaves => ?_⟩
    rw [outside carried] at leaves
    cases leaves
  have steps (l : Ledger) (e : Event) : (l.step e).sys = l.sys.step e := rfl
  have along := (Run.along_map steps (.start m) es).mp real
  have stays (l : Ledger) (e : Event) (kept : Ledger.Kept m.k.objects l)
      (real : ∀ t, l.sys.k.tid t ≠ noOwner) := Ledger.kept_step (e := e) real kept
  refine ⟨?_, along.gives stays (fun _ _ kept real => Ledger.answers_of real kept) first⟩
  have sys := Run.exec_map steps (.start m) es
  rw [show Run.exec Machine.step m es = (Run.exec Ledger.step (.start m) es).sys from sys.symm]
  exact (along.invariant stays first).follows

/-- The kernel refines the objects. In every run of the two cores in which no thread has the tid
0xFFFFFFFF, preemptions, wake-ups and kills included: the calls of `sync.c`, one after the other in
the order of their sections, take the objects from what they were to what they are; each call takes
effect once, blocks only while the objects do not enable it, and returns what it got. -/
theorem sync_calls_atomic {m : Machine} (boot : AtBoot m) (queues : m.k.QueuesOk) {es : List Event}
    (real : Run.Along Machine.step (fun m _ => ∀ t, m.k.tid t ≠ noOwner) m es) :
    m.k.objects.Follows (Run.exec Ledger.step (.start m) es).log
        (Run.exec Machine.step m es).k.objects ∧
      Run.Along Ledger.step Ledger.Answers (.start m) es :=
  ledger_run boot queues real

theorem freshQueue_queuesOk : freshQueue.k.QueuesOk := by
  have empty (size : Nat) (buf : Nat → List UInt8) : Mqueue.Ok ⟨buf, size, 0, 0, 0⟩ :=
    ⟨Nat.zero_le _, rfl, Nat.zero_lt_succ _⟩
  exact KernelState.QueuesOk.setQueue (fun _ => empty _ _) (empty _ _)

/-- The threads of `threeThreads` on a fresh queue: a receiver that blocks and two senders. -/
theorem exchange_atomic :
    freshQueue.k.objects.Follows (Run.exec Ledger.step (.start freshQueue) exchange).log
        (Run.exec Machine.step freshQueue exchange).k.objects ∧
      Run.Along Ledger.step Ledger.Answers (.start freshQueue) exchange :=
  sync_calls_atomic (by decide +kernel) freshQueue_queuesOk (by decide +kernel)

/-! ### Permits -/

/-- The call takes a permit of a semaphore. -/
def Call.takesPermit (s : Addr) : Call → Bool
  | .wait (.ksemaphoreWait a) => a = s
  | _ => false

/-- The call adds a permit to a semaphore. -/
def Call.addsPermit (s : Addr) : Call → Bool
  | .post (.ksemaphoreSignal a) => a = s
  | _ => false

/-- The `ksemaphore_wait` calls of a log that have returned, and its `ksemaphore_signal` calls. -/
def permitsTaken (s : Addr) (log : List Entry) : Nat := log.countP fun n => n.call.takesPermit s

def permitsAdded (s : Addr) (log : List Entry) : Nat := log.countP fun n => n.call.addsPermit s

/-- What a call does to the permits of a semaphore. -/
inductive PermitStep (s : Addr) (call : Call) (before after : Int32) : Prop where
  | takes (takes : call.takesPermit s = true) (adds : call.addsPermit s = false)
      (enabled : 0 < before) (now : after = before - 1)
  | adds (takes : call.takesPermit s = false) (adds : call.addsPermit s = true)
      (now : after = before + 1)
  | apart (takes : call.takesPermit s = false) (adds : call.addsPermit s = false)
      (now : after = before)

theorem waitTake_permits {k : KernelState} {t : Slot} {op : WaitOp} {sec : Section} (s : Addr)
    (h : waitTake k t op = some sec) :
    PermitStep s (.wait op) (k.semaphores s) (sec.k.semaphores s) := by
  cases op <;>
    simp only [waitTake, Option.ite_none_right_eq_some, Option.some.injEq] at h <;>
    obtain ⟨enabled, rfl⟩ := h
  case ksemaphoreWait a =>
    by_cases eq : a = s
    · subst eq
      exact .takes (by simp [Call.takesPermit]) rfl enabled (by simp [setSemaphore])
    · exact .apart (by simp [Call.takesPermit, eq]) rfl (by simp [setSemaphore, Ne.symm eq])
  all_goals exact .apart rfl rfl rfl

theorem postTake_permits (k : KernelState) (op : PostOp) (s : Addr) :
    PermitStep s (.post op) (k.semaphores s) ((postTake k op).k.semaphores s) := by
  cases op with
  | ksemaphoreSignal a =>
    by_cases eq : a = s
    · subst eq
      exact .adds rfl (by simp [Call.addsPermit]) (by simp [postTake, setSemaphore])
    · exact .apart rfl (by simp [Call.addsPermit, eq]) (by simp [postTake, setSemaphore, Ne.symm eq])
  | mqueueTrySend | mqueueTryRecv =>
    simp only [postTake]
    split <;> exact .apart rfl rfl rfl
  | _ => exact .apart rfl rfl rfl

/-- The call that takes effect in a step of a thread does to a semaphore what it has to. -/
theorem effect_permits {m : Machine} {c : Core} {x : Ctx} {a : Act} {n : Entry} (s : Addr)
    (h : m.act c x = some a) (effect : m.effect x a = some n) :
    PermitStep s n.call (m.k.semaphores s) (a.k.semaphores s) := by
  unfold Machine.effect at effect
  split at effect
  next op again at_ =>
    split at effect
    next => cases effect
    next goes =>
      cases effect
      obtain ⟨cur, _, ⟨sec, taken, rfl⟩ | ⟨_, _, blocks, _⟩⟩ := test_cases at_ h
      · exact waitTake_permits s taken
      · exact absurd blocks goes
  next op at_ =>
    cases effect
    rw [post_cases at_ h]
    exact postTake_permits m.k op s
  next => cases effect

theorem semaphores_prims {k k' : KernelState} (same : k'.prims = k.prims) :
    k'.semaphores = k.semaphores := congrArg (fun p => p.2.1) same

/-- An event adds nothing to the log and leaves a semaphore alone, or adds the call that has changed
it. -/
theorem permits_step (l : Ledger) (e : Event) (s : Addr) :
    ((l.step e).log = l.log ∧ (l.step e).sys.k.semaphores s = l.sys.k.semaphores s) ∨
      ∃ n, (l.step e).log = l.log ++ [n] ∧
        PermitStep s n.call (l.sys.k.semaphores s) ((l.step e).sys.k.semaphores s) := by
  have stepped := step_stepped l.sys e
  generalize next : l.sys.step e = m' at stepped
  have sys : (l.step e).sys = m' := next
  rw [sys]
  cases stepped with
  | rest _ rest =>
    have log : (l.step e).log = l.log := by simp [Ledger.step, Machine.serves, rest.idle]
    exact .inl ⟨log, by rw [semaphores_prims rest.prims]⟩
  | act c runs h =>
    rename_i x a
    have log : (l.step (.run c)).log = l.log ++ (l.sys.effect x a).toList := by
      simp [Ledger.step, Machine.serves, acts_of runs h]
    rw [log]
    cases act_phase h with
    | serves n _ _ effect =>
      rw [effect]
      exact .inr ⟨n, rfl, effect_permits s h effect⟩
    | waits _ _ idle prims | leaves _ _ idle _ prims | out _ _ idle prims =>
      rw [idle]
      have same := semaphores_prims prims
      exact .inl ⟨List.append_nil _, congrFun same s⟩

theorem permit_added {n : Int32} (nonneg : 0 ≤ n.toInt) (room : n.toInt + 1 < 2 ^ 31) :
    (n + 1).toInt = n.toInt + 1 := by
  rw [Int32.toInt_add, show (1 : Int32).toInt = 1 from rfl]
  exact Int.bmod_eq_of_le (by omega) (by omega)

theorem permit_taken {n : Int32} (positive : 0 < n.toInt) : (n - 1).toInt = n.toInt - 1 := by
  have bound := n.toInt_lt
  rw [Int32.toInt_sub, show (1 : Int32).toInt = 1 from rfl]
  exact Int.bmod_eq_of_le (by omega) (by omega)

/-- The permits of a semaphore are those at the start and those added, less those taken, and never
negative, as long as the signals of the log cannot overflow the count. -/
def PermitsKept (s : Addr) (n : Int) (l : Ledger) : Prop :=
  n + permitsAdded s l.log < 2 ^ 31 →
    (l.sys.k.semaphores s).toInt = n + permitsAdded s l.log - permitsTaken s l.log ∧
      0 ≤ (l.sys.k.semaphores s).toInt

theorem PermitsKept.step {s : Addr} {n : Int} {l : Ledger} (e : Event) (h : PermitsKept s n l) :
    PermitsKept s n (l.step e) := by
  rcases permits_step l e s with ⟨log, same⟩ | ⟨entry, log, call⟩
  · rw [PermitsKept, log, same]
    exact h
  · rw [PermitsKept, log]
    have added : permitsAdded s (l.log ++ [entry]) =
        permitsAdded s l.log + if entry.call.addsPermit s then 1 else 0 := by
      simp [permitsAdded, List.countP_append, List.countP_cons]
    have taken : permitsTaken s (l.log ++ [entry]) =
        permitsTaken s l.log + if entry.call.takesPermit s then 1 else 0 := by
      simp [permitsTaken, List.countP_append, List.countP_cons]
    rw [added, taken]
    intro room
    -- no overflow now means none before
    obtain ⟨count, nonneg⟩ := h (by split at room <;> omega)
    cases call with
    | takes takes adds enabled now =>
      have positive : 0 < (l.sys.k.semaphores s).toInt := by
        simpa [Int32.lt_iff_toInt_lt] using enabled
      have less := permit_taken positive
      simp only [takes, adds, if_true, Bool.false_eq_true, if_false, now, less]
      omega
    | adds takes adds now =>
      rw [adds, if_pos rfl] at room
      have more := permit_added nonneg (by omega)
      simp only [takes, adds, if_true, Bool.false_eq_true, if_false, now, more]
      omega
    | apart takes adds now =>
      simp only [takes, adds, Bool.false_eq_true, if_false, now]
      omega

/-- No permit of a semaphore is lost or handed out twice: in every run of the two cores from a count
that is not negative, whose signals cannot overflow it, the count is what it was, plus the signals,
less the waits that have taken a permit, and there are never more of these than permits. -/
theorem semaphore_permits_conserved (m : Machine) (es : List Event) (s : Addr)
    (start : 0 ≤ (m.k.semaphores s).toInt)
    (room : (m.k.semaphores s).toInt +
      permitsAdded s (Run.exec Ledger.step (.start m) es).log < 2 ^ 31) :
    let log := (Run.exec Ledger.step (.start m) es).log
    let count := ((Run.exec Machine.step m es).k.semaphores s).toInt
    count = (m.k.semaphores s).toInt + permitsAdded s log - permitsTaken s log ∧ 0 ≤ count := by
  have first : PermitsKept s (m.k.semaphores s).toInt (.start m) := by
    intro _
    simpa [Ledger.start, permitsAdded, permitsTaken] using start
  have kept := Run.exec_invariant (fun _ e h => PermitsKept.step e h) first es
  have steps (l : Ledger) (e : Event) : (l.step e).sys = l.sys.step e := rfl
  have sys := Run.exec_map steps (.start m) es
  intro log count
  have same : count = ((Run.exec Ledger.step (.start m) es).sys.k.semaphores s).toInt := by
    rw [sys]
    rfl
  rw [same]
  exact kept room

/-- One thread waits for a permit, another signals. -/
def handover : List Event :=
  Event.call 0 (.wait (.ksemaphoreWait 0)) :: List.replicate 7 (Event.run 0) ++
    Event.call 1 (.post (.ksemaphoreSignal 0)) :: List.replicate 3 (Event.run 1) ++
    sliceEnd 0 ++ List.replicate 12 (Event.run 0)

theorem handover_conserved :
    let log := (Run.exec Ledger.step (.start freshQueue) handover).log
    let count := ((Run.exec Machine.step freshQueue handover).k.semaphores 0).toInt
    count = 0 + permitsAdded 0 log - permitsTaken 0 log ∧ 0 ≤ count :=
  semaphore_permits_conserved freshQueue handover 0 (by decide) (by decide +kernel)

end PicoOS.Kernel
