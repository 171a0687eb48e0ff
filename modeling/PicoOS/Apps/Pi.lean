import PicoOS.Kernel.Objects

/-!
# The π estimate

`pi.c`: four workers throw darts, each from a seed of its own. The coordinator
waits for one permit for each worker that it could start, and adds up. Whatever
order the threads run in, it adds up what the workers have finished, and it
never returns while one of them still writes to the shared arguments.
-/
namespace PicoOS.Apps.Pi

open PicoOS.Kernel (Objects Addr)

abbrev numWorkers : Nat := 4
def totalSamples : UInt32 := 10000000
def perWorker : UInt32 := totalSamples / 4
def radius : UInt32 := 32767

abbrev Worker := Fin numWorkers

/-- The seeds that `pi_estimate` gives its workers. -/
def seeds : Worker → UInt32 := ![0xDEAD1337, 0xCAFEBABE, 0x8BADF00D, 0xFEEDFACE]

/-! ### Darts -/

def lcg (state : UInt32) : UInt32 := state * 1664525 + 1013904223

def coordinate (state : UInt32) : UInt32 := (state >>> 17) &&& radius

/-- One turn of the worker's loop: the next state and the hits. -/
def throwDart (state hits : UInt32) : UInt32 × UInt32 :=
  let state := lcg state
  let x := coordinate state
  let state := lcg state
  let y := coordinate state
  (state, if x * x + y * y ≤ radius * radius then hits + 1 else hits)

/-- Where a dart lands: its coordinates are two states of the generator in turn. -/
def dart (seed : UInt32) (i : Nat) : Nat × Nat :=
  ((coordinate (lcg^[2 * i + 1] seed)).toNat, (coordinate (lcg^[2 * i + 2] seed)).toNat)

/-- In the quarter circle. -/
def inside (p : Nat × Nat) : Bool := p.1 ^ 2 + p.2 ^ 2 ≤ 32767 ^ 2

/-- How many of the first `n` darts land inside. -/
def hitCount (seed : UInt32) (n : Nat) : Nat := (List.range n).countP fun i => inside (dart seed i)

theorem coordinate_le (state : UInt32) : (coordinate state).toNat ≤ 32767 := by
  rw [coordinate, UInt32.toNat_and]
  exact Nat.and_le_right

theorem hitCount_le (seed : UInt32) (n : Nat) : hitCount seed n ≤ n :=
  List.countP_le_length.trans_eq List.length_range

theorem hitCount_succ (seed : UInt32) (n : Nat) :
    hitCount seed (n + 1) = hitCount seed n + if inside (dart seed n) then 1 else 0 := by
  simp [hitCount, List.range_succ, List.countP_append, List.countP_cons]

/-- The test in 32 bits does not wrap: it is the test of the quarter circle. -/
theorem hits_iff (x y : UInt32) (hx : x.toNat ≤ 32767) (hy : y.toNat ≤ 32767) :
    x * x + y * y ≤ radius * radius ↔ inside (x.toNat, y.toNat) = true := by
  have xx : x.toNat * x.toNat ≤ 32767 * 32767 := Nat.mul_le_mul hx hx
  have yy : y.toNat * y.toNat ≤ 32767 * 32767 := Nat.mul_le_mul hy hy
  have sum : (x * x + y * y).toNat = x.toNat * x.toNat + y.toNat * y.toNat := by
    simp only [UInt32.toNat_add, UInt32.toNat_mul]
    omega
  have square : (radius * radius).toNat = 32767 * 32767 := rfl
  rw [UInt32.le_iff_toNat_le, sum, square, inside, decide_eq_true_eq]
  simp only [pow_two]

theorem toNat_succ {hits : UInt32} (room : hits.toNat < 2 ^ 32 - 1) :
    (hits + 1).toNat = hits.toNat + 1 := by
  have one : (1 : UInt32).toNat = 1 := rfl
  rw [UInt32.toNat_add, one]
  omega

/-- A turn of the loop throws the next dart. -/
theorem throwDart_eq (seed : UInt32) (i : Nat) {hits : UInt32} (room : hits.toNat < 2 ^ 32 - 1) :
    (throwDart (lcg^[2 * i] seed) hits).1 = lcg^[2 * (i + 1)] seed ∧
      (throwDart (lcg^[2 * i] seed) hits).2.toNat =
        hits.toNat + if inside (dart seed i) then 1 else 0 := by
  have first : lcg (lcg^[2 * i] seed) = lcg^[2 * i + 1] seed :=
    (Function.iterate_succ_apply' lcg (2 * i) seed).symm
  have second : lcg (lcg^[2 * i + 1] seed) = lcg^[2 * i + 2] seed :=
    (Function.iterate_succ_apply' lcg (2 * i + 1) seed).symm
  have test : _ ↔ inside (dart seed i) = true :=
    hits_iff _ _ (coordinate_le (lcg^[2 * i + 1] seed)) (coordinate_le (lcg^[2 * i + 2] seed))
  constructor
  · calc (throwDart (lcg^[2 * i] seed) hits).1
        = lcg (lcg (lcg^[2 * i] seed)) := rfl
      _ = lcg^[2 * (i + 1)] seed := by rw [first, second, Nat.mul_succ]
  simp only [throwDart, first, second, test]
  split
  next => exact toNat_succ room
  next => rfl

/-! ### The threads -/

/-- `pi_worker_arg_t`, but for the affinity. -/
structure WorkerArg where
  seed : UInt32
  n : UInt32
  hits : UInt32

inductive WorkerPc where
  /-- Not created. -/
  | absent
  | created
  /-- In the loop: `i`, `state` and `hits`. -/
  | throwing (i state hits : UInt32)
  /-- The hits are stored. -/
  | signalling
  | finished
  deriving DecidableEq

/-- The last lines of `pi_estimate`. -/
structure Report where
  totalHits : UInt32
  piInt : UInt32
  piFrac : UInt32

inductive CoordPc where
  /-- About to create worker `i`. -/
  | creating (i : Nat)
  /-- `i` of the `started` workers have been waited for. -/
  | waiting (i started : Nat)
  | aborted (started : Nat)
  | printed (r : Report)

/-- The statics of `pi.c` and its threads. `done` is the address of `pi_done`. -/
structure State where
  args : Worker → WorkerArg
  objects : Objects
  workers : Worker → WorkerPc
  coord : CoordPc

inductive Event where
  /-- A step of the coordinator; `made` is whether `task_create_thread` gives a thread. -/
  | coord (made : Bool)
  | worker (w : Worker)

/-- The sum and the division of `pi_estimate`. -/
def report (args : Worker → WorkerArg) : Report :=
  let totalHits := (List.finRange numWorkers).foldl (fun sum w => sum + (args w).hits) 0
  let piScaled := 4 * totalHits
  { totalHits := totalHits
    piInt := piScaled / totalSamples
    piFrac := ((piScaled % totalSamples).toUInt64 * 10000 / totalSamples.toUInt64).toUInt32 }

section
variable (done : Addr) (s : State)

def workerStep (w : Worker) : State :=
  let a := s.args w
  match s.workers w with
  | .absent | .finished => s
  | .created => { s with workers := Function.update s.workers w (.throwing 0 a.seed 0) }
  | .throwing i state hits =>
    if i < a.n then
      let (state, hits) := throwDart state hits
      { s with workers := Function.update s.workers w (.throwing (i + 1) state hits) }
    else
      { s with
        args := Function.update s.args w { a with hits := hits }
        workers := Function.update s.workers w .signalling }
  | .signalling =>
    { s with
      objects := (s.objects.post (.ksemaphoreSignal done)).1
      workers := Function.update s.workers w .finished }

def coordStep (made : Bool) : State :=
  match s.coord with
  | .creating i =>
    if h : i < numWorkers then
      let args := Function.update s.args ⟨i, h⟩ ⟨seeds ⟨i, h⟩, perWorker, 0⟩
      if made then
        { s with
          args := args
          workers := Function.update s.workers ⟨i, h⟩ .created
          coord := .creating (i + 1) }
      else
        { s with args := args, coord := .waiting 0 i }
    else
      { s with coord := .waiting 0 i }
  | .waiting i started =>
    if i < started then
      match s.objects.wait 0 (.ksemaphoreWait done) with
      | none => s
      | some (objects, _) => { s with objects := objects, coord := .waiting (i + 1) started }
    else if started < numWorkers then
      { s with coord := .aborted started }
    else
      { s with coord := .printed (report s.args) }
  | .aborted _ | .printed _ => s

def step (s : State) : Event → State
  | .coord made => coordStep done s made
  | .worker w => workerStep done s w

/-- `pi_estimate` after `ksemaphore_init(&pi_done, 0)`; the arguments are those of an earlier run. -/
def start (o : Objects) (args : Worker → WorkerArg) : State where
  args := args
  objects := { o with permits := Function.update o.permits done 0 }
  workers _ := .absent
  coord := .creating 0

end

/-! ### What holds in every state -/

/-- The workers that have been created, and the permits that the coordinator has taken. -/
def CoordPc.started : CoordPc → Nat
  | .creating i => i
  | .waiting _ n | .aborted n => n
  | .printed _ => numWorkers

def CoordPc.taken : CoordPc → Nat
  | .creating _ => 0
  | .waiting i _ => i
  | .aborted n => n
  | .printed _ => numWorkers

/-- A worker has stored its hits. -/
def WorkerPc.stored : WorkerPc → Bool
  | .signalling | .finished => true
  | _ => false

/-- The workers that have signalled. -/
def finished (workers : Worker → WorkerPc) : Finset Worker :=
  Finset.univ.filter fun w => workers w = .finished

/-- Where a worker is in its loop. -/
structure WorkerOk (seed : UInt32) (a : WorkerArg) (pc : WorkerPc) : Prop where
  args : pc ≠ .absent → a.seed = seed ∧ a.n = perWorker
  loop : ∀ i state hits, pc = .throwing i state hits →
    i ≤ perWorker ∧ state = lcg^[2 * i.toNat] seed ∧ hits.toNat = hitCount seed i.toNat
  hits : pc.stored = true → a.hits.toNat = hitCount seed perWorker.toNat

structure Inv (done : Addr) (s : State) : Prop where
  worker : ∀ w, WorkerOk (seeds w) (s.args w) (s.workers w)
  created : ∀ w, s.workers w = .absent ↔ s.coord.started ≤ w
  bound : s.coord.taken ≤ s.coord.started ∧ s.coord.started ≤ numWorkers
  permits : (s.objects.permits done).toInt + s.coord.taken = (finished s.workers).card
  nonneg : 0 ≤ (s.objects.permits done).toInt
  ended : ∀ r, s.coord = .printed r → r = report s.args

section
variable {done : Addr} {s : State}

/-- The workers that were created. -/
def made (s : State) : Finset Worker := Finset.univ.filter fun w => (w : Nat) < s.coord.started

theorem finished_made (inv : Inv done s) : finished s.workers ⊆ made s := by
  intro w member
  have ends : s.workers w = .finished := (Finset.mem_filter.mp member).2
  refine Finset.mem_filter.mpr ⟨Finset.mem_univ w, Nat.lt_of_not_le fun late => ?_⟩
  rw [(inv.created w).mpr late] at ends
  cases ends

theorem card_made_le (s : State) : (made s).card ≤ s.coord.started := by
  rw [made, Fin.card_filter_val_lt]
  exact Nat.min_le_right ..

/-- Where a permit has been taken for every worker that was created, they are all done. -/
theorem all_finished (inv : Inv done s) (all : s.coord.taken = s.coord.started) {w : Worker}
    (early : w < s.coord.started) : s.workers w = .finished := by
  have few := card_made_le s
  have permits := inv.permits
  have nonneg := inv.nonneg
  have same : finished s.workers = made s :=
    Finset.eq_of_subset_of_card_le (finished_made inv) (by omega)
  have member : w ∈ finished s.workers := by
    rw [same]
    exact Finset.mem_filter.mpr ⟨Finset.mem_univ w, early⟩
  exact (Finset.mem_filter.mp member).2

/-- A step of a worker that does not end it leaves the others' arguments and all permits alone. -/
theorem Inv.worker_moves (inv : Inv done s) {w : Worker} {a : WorkerArg} {pc : WorkerPc}
    (ok : WorkerOk (seeds w) a pc) (was : s.workers w ≠ .absent) (now : pc ≠ .absent)
    (going : s.workers w ≠ .finished) (goes : pc ≠ .finished)
    (running : ∀ r, s.coord ≠ .printed r) :
    Inv done { s with
      args := Function.update s.args w a
      workers := Function.update s.workers w pc } := by
  have same : finished (Function.update s.workers w pc) = finished s.workers := by
    ext v
    by_cases eq : v = w
    · subst eq
      simp [finished, going, goes]
    · simp [finished, eq]
  refine ⟨fun v => ?_, fun v => ?_, inv.bound, ?_, inv.nonneg, fun r printed => absurd printed (running r)⟩
  · by_cases eq : v = w
    · subst eq
      simpa using ok
    · simpa [eq] using inv.worker v
  · by_cases eq : v = w
    · subst eq
      have early := mt (inv.created v).mpr was
      simpa [now] using early
    · simpa [eq] using inv.created v
  · rw [same]
    exact inv.permits

/-- The coordinator has printed only when all workers are done. -/
theorem not_printed (inv : Inv done s) {w : Worker} (going : s.workers w ≠ .finished) (r : Report) :
    s.coord ≠ .printed r := by
  intro printed
  have taken : s.coord.taken = s.coord.started := by rw [printed]; rfl
  have early : (w : Nat) < s.coord.started := by rw [printed]; exact w.isLt
  exact going (all_finished inv taken early)

theorem permits_small (inv : Inv done s) : (s.objects.permits done).toInt ≤ 4 := by
  have few : (finished s.workers).card ≤ 4 := Finset.card_le_univ _
  have := inv.permits
  omega

theorem workerStep_inv (inv : Inv done s) (w : Worker) : Inv done (workerStep done s w) := by
  have ok := inv.worker w
  unfold workerStep
  cases at_ : s.workers w with
  | absent | finished => exact inv
  | created =>
    have args := ok.args (by rw [at_]; nofun)
    have loads : WorkerOk (seeds w) (s.args w) (.throwing 0 (s.args w).seed 0) := by
      refine ⟨fun _ => args, fun i state hits at_ => ?_, nofun⟩
      cases at_
      exact ⟨by decide, args.1, rfl⟩
    have moved := inv.worker_moves loads (by rw [at_]; nofun) nofun (by rw [at_]; nofun) nofun
      (not_printed inv (w := w) (by rw [at_]; nofun))
    simpa using moved
  | throwing i state hits =>
    obtain ⟨bound, isState, isHits⟩ := ok.loop i state hits at_
    have args := ok.args (by rw [at_]; nofun)
    have running := not_printed inv (w := w) (by rw [at_]; nofun)
    dsimp only
    split
    next more =>
      have less : i.toNat < perWorker.toNat := by
        rw [args.2] at more
        exact UInt32.lt_iff_toNat_lt.mp more
      have small : perWorker.toNat = 2500000 := rfl
      have succ : (i + 1).toNat = i.toNat + 1 := toNat_succ (by omega)
      have few := hitCount_le (seeds w) i.toNat
      obtain ⟨next, count⟩ := throwDart_eq (seeds w) i.toNat
        (show hits.toNat < 2 ^ 32 - 1 by omega)
      rw [← isState] at next count
      have throws : WorkerOk (seeds w) (s.args w)
          (.throwing (i + 1) (throwDart state hits).1 (throwDart state hits).2) := by
        refine ⟨fun _ => args, fun j state' hits' at_ => ?_, nofun⟩
        cases at_
        refine ⟨?_, ?_, ?_⟩
        · rw [UInt32.le_iff_toNat_le, succ]
          exact less
        · rw [succ, next]
        · rw [succ, count, isHits, hitCount_succ]
      have moved := inv.worker_moves throws (by rw [at_]; nofun) nofun (by rw [at_]; nofun) nofun
        running
      simpa using moved
    next last =>
      -- The loop ends after exactly `n` turns.
      have all : i.toNat = perWorker.toNat := by
        rw [args.2, UInt32.lt_iff_toNat_lt] at last
        have := UInt32.le_iff_toNat_le.mp bound
        omega
      have stores : WorkerOk (seeds w) { s.args w with hits := hits } .signalling :=
        ⟨fun _ => args, nofun, fun _ => by rw [← all]; exact isHits⟩
      exact inv.worker_moves stores (by rw [at_]; nofun) nofun (by rw [at_]; nofun) nofun running
  | signalling =>
    have args := ok.args (by rw [at_]; nofun)
    have hits := ok.hits (by rw [at_]; rfl)
    have small := permits_small inv
    have nonneg := inv.nonneg
    have more := Kernel.permit_added nonneg (by omega)
    have notIn : w ∉ finished s.workers := by simp [finished, at_]
    have grown : finished (Function.update s.workers w .finished) =
        insert w (finished s.workers) := by
      ext v
      by_cases eq : v = w
      · subst eq
        simp [finished]
      · simp [finished, eq]
    refine ⟨fun v => ?_, fun v => ?_, inv.bound, ?_, ?_, fun r printed => ?_⟩
    · by_cases eq : v = w
      · subst eq
        simpa using ⟨fun _ => args, nofun, fun _ => hits⟩
      · simpa [eq] using inv.worker v
    · by_cases eq : v = w
      · subst eq
        have early := mt (inv.created v).mpr (by rw [at_]; nofun)
        simpa using early
      · simpa [eq] using inv.created v
    · rw [grown, Finset.card_insert_of_notMem notIn]
      have permits := inv.permits
      simp only [Objects.post, Function.update_self, more]
      omega
    · simp only [Objects.post, Function.update_self, more]
      omega
    · exact absurd printed (not_printed inv (w := w) (by rw [at_]; nofun) r)

theorem coordStep_inv (inv : Inv done s) (made : Bool) : Inv done (coordStep done s made) := by
  obtain ⟨worker, created, bound, permits, nonneg, ended⟩ := inv
  unfold coordStep
  cases at_ : s.coord with
  | creating i =>
    simp only [at_, CoordPc.started, CoordPc.taken] at created bound permits
    dsimp only
    split
    next h =>
      have absent : s.workers ⟨i, h⟩ = .absent := (created _).mpr le_rfl
      split
      next =>
        -- a worker that is just created has not finished
        have same : finished (Function.update s.workers ⟨i, h⟩ .created) = finished s.workers := by
          ext v
          by_cases eq : v = ⟨i, h⟩
          · subst eq
            simp [finished, absent]
          · simp [finished, eq]
        refine ⟨fun v => ?_, fun v => ?_, ⟨Nat.zero_le _, h⟩, ?_, nonneg, by simp⟩
        · by_cases eq : v = ⟨i, h⟩
          · subst eq
            simpa using ⟨fun _ => ⟨rfl, rfl⟩, by simp, by simp [WorkerPc.stored]⟩
          · simpa [eq] using worker v
        · by_cases eq : v = ⟨i, h⟩
          · subst eq
            simp [CoordPc.started]
          · have apart : (v : Nat) ≠ i := fun same => eq (Fin.ext same)
            simp only [Function.update_of_ne eq, created v, CoordPc.started]
            omega
        · rw [same]
          exact permits
      next =>
        refine ⟨fun v => ?_, created, ⟨Nat.zero_le _, bound.2⟩, permits, nonneg, by simp⟩
        by_cases eq : v = ⟨i, h⟩
        · subst eq
          rw [absent]
          exact ⟨fun not => absurd rfl not, by simp, by simp [WorkerPc.stored]⟩
        · simpa [eq] using worker v
    next => exact ⟨worker, created, ⟨Nat.zero_le _, bound.2⟩, permits, nonneg, by simp⟩
  | waiting i started =>
    simp only [at_, CoordPc.started, CoordPc.taken] at created bound permits
    dsimp only
    split
    next more =>
      split
      next => exact ⟨worker, by rw [at_]; exact created, by rw [at_]; exact bound,
        by rw [at_]; exact permits, nonneg, ended⟩
      next objects ret takes =>
        simp only [Objects.wait, Option.ite_none_right_eq_some, Option.some.injEq,
          Prod.mk.injEq] at takes
        obtain ⟨enabled, rfl, _⟩ := takes
        have positive : 0 < (s.objects.permits done).toInt := by
          simpa [Int32.lt_iff_toInt_lt] using enabled
        have less := Kernel.permit_taken positive
        refine ⟨worker, created, ⟨more, bound.2⟩, ?_, ?_, by simp⟩
        · simp only [Function.update_self, less, CoordPc.taken]
          push_cast
          omega
        · simp only [Function.update_self, less]
          omega
    next last =>
      -- one wait for each worker that was started
      have all : i = started := by omega
      subst all
      split
      next => exact ⟨worker, created, ⟨le_rfl, bound.2⟩, permits, nonneg, by simp⟩
      next full =>
        -- only with all four is there a report
        obtain rfl : i = numWorkers := by omega
        refine ⟨worker, created, ⟨le_rfl, le_rfl⟩, permits, nonneg, fun r printed => ?_⟩
        cases printed
        rfl
  | aborted n =>
    exact ⟨worker, created, bound, permits, nonneg, ended⟩
  | printed r =>
    exact ⟨worker, created, bound, permits, nonneg, ended⟩

theorem step_inv (inv : Inv done s) (e : Event) : Inv done (step done s e) := by
  cases e with
  | coord made => exact coordStep_inv inv made
  | worker w => exact workerStep_inv inv w

/-! ### The end of a worker -/

/-- The steps that a worker has left. -/
def WorkerPc.left : WorkerPc → Nat
  | .absent | .finished => 0
  | .created => perWorker.toNat + 3
  | .throwing i _ _ => perWorker.toNat - i.toNat + 2
  | .signalling => 1

theorem left_le (pc : WorkerPc) : pc.left ≤ perWorker.toNat + 3 := by
  cases pc <;> simp only [WorkerPc.left] <;> omega

/-- A step of the worker. -/
def Event.of (w : Worker) : Event → Bool
  | .worker v => v = w
  | .coord _ => false

theorem workerStep_left (inv : Inv done s) (w : Worker) :
    ((workerStep done s w).workers w).left = (s.workers w).left - 1 := by
  unfold workerStep
  cases at_ : s.workers w with
  | absent | finished => simp [at_, WorkerPc.left]
  | created => simp [WorkerPc.left]
  | throwing i state hits =>
    obtain ⟨bound, -⟩ := (inv.worker w).loop i state hits at_
    have args := (inv.worker w).args (by rw [at_]; nofun)
    rw [UInt32.le_iff_toNat_le] at bound
    dsimp only
    rw [args.2]
    split
    next more =>
      have less := UInt32.lt_iff_toNat_lt.mp more
      have small : perWorker.toNat = 2500000 := rfl
      have succ : (i + 1).toNat = i.toNat + 1 := toNat_succ (by omega)
      simp only [Function.update_self, WorkerPc.left, succ]
      omega
    next last =>
      rw [UInt32.lt_iff_toNat_lt] at last
      simp only [Function.update_self, WorkerPc.left]
      omega
  | signalling => simp [WorkerPc.left]

/-- A worker that has been created is not made again. -/
theorem workerStep_there (w : Worker) (there : s.workers w ≠ .absent) :
    (workerStep done s w).workers w ≠ .absent := by
  unfold workerStep
  cases at_ : s.workers w with
  | absent => exact absurd at_ there
  | finished => simp [at_]
  | throwing =>
    dsimp only
    split <;> simp
  | _ => simp

theorem step_other (inv : Inv done s) {w : Worker} {e : Event} (other : e.of w = false)
    (there : s.workers w ≠ .absent) : (step done s e).workers w = s.workers w := by
  cases e with
  | worker v =>
    have apart : w ≠ v := fun eq => by simp [Event.of, eq] at other
    simp only [step, workerStep]
    split
    · rfl
    · rfl
    · exact Function.update_of_ne apart ..
    · split <;> exact Function.update_of_ne apart ..
    · exact Function.update_of_ne apart ..
  | coord made =>
    simp only [step, coordStep]
    split
    next i at_ =>
      -- the worker that is created was not there
      have early : (w : Nat) < i := by
        have began := mt (inv.created w).mpr there
        rw [at_] at began
        exact Nat.lt_of_not_le began
      split
      next more =>
        have apart : w ≠ ⟨i, more⟩ := fun eq => by
          rw [eq] at early
          exact Nat.lt_irrefl i early
        split
        · exact Function.update_of_ne apart ..
        · rfl
      · rfl
    · split
      · split <;> rfl
      · split <;> rfl
    · rfl
    · rfl

/-- A worker is over after as many steps of its own as it has left, whatever the others do. -/
theorem worker_ends (inv : Inv done s) {w : Worker} (there : s.workers w ≠ .absent)
    {es : List Event} (enough : (s.workers w).left ≤ es.countP (·.of w)) :
    (Run.exec (step done) s es).workers w = .finished := by
  induction es generalizing s with
  | nil =>
    rw [List.countP_nil] at enough
    change s.workers w = .finished
    cases at_ : s.workers w with
    | absent => exact absurd at_ there
    | finished => rfl
    | _ => simp [at_, WorkerPc.left] at enough
  | cons e es ih =>
    rw [List.countP_cons] at enough
    cases own : e.of w with
    | false =>
      -- a step of another thread leaves the worker where it is
      have same := step_other inv own there
      rw [own] at enough
      exact ih (step_inv inv e) (by rwa [same]) (by rw [same]; simpa using enough)
    | true =>
      obtain rfl : e = .worker w := by
        cases e with
        | worker v => exact congrArg Event.worker (by simpa [Event.of] using own)
        | coord _ => cases own
      rw [own, if_pos rfl] at enough
      -- its own step leaves one step less
      have less := workerStep_left inv w
      exact ih (step_inv inv (.worker w)) (workerStep_there w there)
        (by rw [step, less]; omega)

theorem start_inv (done : Addr) (o : Objects) (args : Worker → WorkerArg) :
    Inv done (start done o args) := by
  have none : finished (start done o args).workers = ∅ := by
    ext w
    simp [finished, start]
  refine ⟨fun w => ⟨fun not => absurd rfl not, nofun, nofun⟩, fun w => by simp [start, CoordPc.started],
    ⟨le_rfl, Nat.zero_le _⟩, ?_, ?_, nofun⟩
  · rw [none]
    simp [start, CoordPc.taken]
  · simp [start]

end

/-! ### The report -/

/-- No addition wraps. -/
theorem report_total {args : Worker → WorkerArg}
    (small : ∀ w, (args w).hits.toNat ≤ perWorker.toNat) :
    (report args).totalHits.toNat = ∑ w, (args w).hits.toNat := by
  have zero := small 0
  have one := small 1
  have two := small 2
  have three := small 3
  have limit : perWorker.toNat = 2500000 := rfl
  rw [limit] at zero one two three
  have order : List.finRange numWorkers = [0, 1, 2, 3] := by decide
  simp only [report, order, List.foldl_cons, List.foldl_nil, Fin.sum_univ_four, UInt32.toNat_add,
    show (0 : UInt32).toNat = 0 from rfl]
  omega

/-- What is printed is the estimate, cut off after four digits. -/
theorem report_digits {args : Worker → WorkerArg}
    (small : (report args).totalHits.toNat ≤ totalSamples.toNat) :
    (report args).piFrac.toNat < 10000 ∧
      (report args).piInt.toNat * 10000 + (report args).piFrac.toNat =
        4 * (report args).totalHits.toNat * 10000 / totalSamples.toNat := by
  generalize total : (report args).totalHits = t at small ⊢
  have limit : totalSamples.toNat = 10000000 := rfl
  have int : (report args).piInt = 4 * t / totalSamples := by rw [← total]; rfl
  have frac : (report args).piFrac =
      ((4 * t % totalSamples).toUInt64 * 10000 / totalSamples.toUInt64).toUInt32 := by
    rw [← total]
    rfl
  -- 4 * 10,000,000 still fits an `unsigned int`, the digits need 64 bits
  have four : (4 * t).toNat = 4 * t.toNat := by
    rw [UInt32.toNat_mul, show (4 : UInt32).toNat = 4 from rfl]
    omega
  have intNat : (report args).piInt.toNat = 4 * t.toNat / 10000000 := by
    rw [int, UInt32.toNat_div, four, limit]
  have fracNat : (report args).piFrac.toNat = 4 * t.toNat % 10000000 * 10000 / 10000000 := by
    rw [frac]
    simp only [UInt64.toNat_toUInt32, UInt64.toNat_div, UInt64.toNat_mul, UInt32.toNat_toUInt64,
      UInt32.toNat_mod, four, limit, show (10000 : UInt64).toNat = 10000 from rfl]
    have rest : 4 * t.toNat % 10000000 < 10000000 := Nat.mod_lt _ (by decide)
    have product : 4 * t.toNat % 10000000 * 10000 % 2 ^ 64 = 4 * t.toNat % 10000000 * 10000 :=
      Nat.mod_eq_of_lt (by omega)
    rw [product]
    exact Nat.mod_eq_of_lt (by omega)
  rw [intNat, fracNat, limit]
  omega

/-- The report adds up the hits of all workers, each over all its darts. -/
theorem Inv.reported {done : Addr} {s : State} (inv : Inv done s) {r : Report}
    (printed : s.coord = .printed r) :
    r.totalHits.toNat = ∑ w, hitCount (seeds w) perWorker.toNat ∧
      r.totalHits.toNat ≤ totalSamples.toNat := by
  have all : s.coord.taken = s.coord.started := by rw [printed]; rfl
  have hits (w : Worker) : (s.args w).hits.toNat = hitCount (seeds w) perWorker.toNat := by
    have early : (w : Nat) < s.coord.started := by rw [printed]; exact w.isLt
    exact (inv.worker w).hits (by rw [all_finished inv all early]; rfl)
  have few (w : Worker) : (s.args w).hits.toNat ≤ perWorker.toNat := by
    rw [hits w]
    exact hitCount_le _ _
  have total := report_total few
  rw [inv.ended r printed]
  constructor
  · exact total.trans (Finset.sum_congr rfl fun w _ => hits w)
  · rw [total]
    exact (Finset.sum_le_sum fun w _ => few w).trans (by decide)

/-- Once the workers that it waits for have finished, there is a permit for each that it has not
taken. -/
theorem Inv.permit {done : Addr} {s : State} (inv : Inv done s) {i n : Nat}
    (waits : s.coord = .waiting i n) (more : i < n)
    (all : ∀ w : Worker, w < n → s.workers w = .finished) : 0 < s.objects.permits done := by
  have permits := inv.permits
  have bound := inv.bound
  rw [waits] at permits bound
  simp only [CoordPc.taken, CoordPc.started] at permits bound
  have same : finished s.workers = made s := by
    refine Finset.Subset.antisymm (finished_made inv) fun w member => ?_
    have early : (w : Nat) < s.coord.started := (Finset.mem_filter.mp member).2
    rw [waits] at early
    exact Finset.mem_filter.mpr ⟨Finset.mem_univ w, all w early⟩
  have count : (made s).card = n := by
    rw [made, Fin.card_filter_val_lt, waits]
    exact Nat.min_eq_right bound.2
  rw [Int32.lt_iff_toInt_lt, show (0 : Int32).toInt = 0 from rfl]
  rw [same, count] at permits
  omega

/-- What `pi_estimate` promises. -/
structure Sound (done : Addr) (s : State) : Prop where
  /-- It does not return while a worker that it has started runs. -/
  joined : (∃ n, s.coord = .aborted n) ∨ (∃ r, s.coord = .printed r) →
    ∀ w, s.workers w = .absent ∨ s.workers w = .finished
  /-- The report is that of all darts of all workers, to four digits. -/
  adds : ∀ r, s.coord = .printed r →
    let hits := ∑ w, hitCount (seeds w) perWorker.toNat
    r.totalHits.toNat = hits ∧ r.piFrac.toNat < 10000 ∧
      r.piInt.toNat * 10000 + r.piFrac.toNat = 4 * hits * 10000 / totalSamples.toNat
  /-- A worker that it has started finishes. -/
  ends : ∀ w, s.workers w ≠ .absent → ∀ es : List Event, perWorker.toNat + 3 ≤ es.countP (·.of w) →
    (Run.exec (step done) s es).workers w = .finished
  /-- And it does not wait for a permit of one that has. -/
  wakes : ∀ i n, s.coord = .waiting i n → i < n → (∀ w : Worker, w < n → s.workers w = .finished) →
    (s.objects.wait 0 (.ksemaphoreWait done)).isSome = true

theorem Inv.sound {done : Addr} {s : State} (inv : Inv done s) : Sound done s where
  joined ended w := by
    have all : s.coord.taken = s.coord.started := by
      rcases ended with ⟨n, aborted⟩ | ⟨r, printed⟩
      · rw [aborted]
        rfl
      · rw [printed]
        rfl
    by_cases early : (w : Nat) < s.coord.started
    · exact .inr (all_finished inv all early)
    · exact .inl ((inv.created w).mpr (Nat.le_of_not_lt early))
  adds r printed := by
    obtain ⟨sum, bound⟩ := inv.reported printed
    rw [inv.ended r printed] at sum bound ⊢
    obtain ⟨small, digits⟩ := report_digits bound
    rw [sum] at digits
    exact ⟨sum, small, digits⟩
  ends w there es enough := worker_ends inv there ((left_le _).trans enough)
  wakes i n waits more all := by
    have enabled := inv.permit waits more all
    simp [Objects.wait, enabled]

/-- Whatever order the coordinator and its workers run in, and wherever a thread cannot be created: if
`pi_estimate` prints an estimate, it is that of all darts of all four workers; it returns only when
none of its workers is left; each of them finishes within its own steps, and when those it waits for
have, it goes on. -/
theorem pi_estimate_sound (done : Addr) (o : Objects) (args : Worker → WorkerArg)
    (es : List Event) : Sound done (Run.exec (step done) (start done o args) es) :=
  (Run.exec_invariant (I := Inv done) (fun _ e inv => step_inv inv e)
    (start_inv done o args) es).sound

end PicoOS.Apps.Pi
