import OSimFlow.Lib.Run
import OSimFlow.Lib.Slots

/-!
# The upload queue

Producers put files into a bounded queue, workers take them out and upload them, and
`close` drains the queue, abandons what a deadline leaves and stops the workers with one
marker each. The threads share the queue, the closed flag and the list of errors; each
step of one of them is an event here, and a run is any interleaving.

> `Accounted`: a pair whose `upload_file` call returned is in the queue, in the hands of
> a worker, uploaded, failed or abandoned; uploaded, failed or abandoned once `close` has
> ended; and uploaded if it was to raise and did not.
>
> `Waits`: past its deadline, `close` is stuck until an upload gets on.

A pair is lost only where the threads pass each other in one of four ways (`Guard`): a
producer that has seen the queue open puts its pair behind the last marker; the markers
of a `close` that is late do not fit into the queue; `close` gives up on a worker that is
still uploading; and it abandons pairs although it was to raise.
-/

namespace OSimFlow.Storage.UploadQueue

open OSimFlow.Lib

/-- `(local_path, remote_path)`. -/
abbrev Pair := String × String

/-- The arguments of the constructor and of the one call of `close`. -/
structure Config where
  maxQueueSize : Int
  workerCount : Int
  maxRetries : Int
  /-- `timeout_s is not None`. -/
  timed : Bool
  raiseOnFailure : Bool
  /-- The backend is `AzureBlobStorage`. -/
  azure : Bool

namespace Config

/-- `maxsize`. -/
def maxsize (cfg : Config) : Nat := (max 1 cfg.maxQueueSize).toNat

/-- `_worker_count`. -/
def workers (cfg : Config) : Nat := (max 1 cfg.workerCount).toNat

/-- `_max_retries`. -/
def retries (cfg : Config) : Nat := (max 0 cfg.maxRetries).toNat

end Config

/-- Where a worker is in `_worker_loop`. -/
inductive Worker where
  /-- In `get`. -/
  | waiting
  /-- In `_upload_once`, or asleep before it. -/
  | uploading (pair : Pair) (attempt : Nat)
  /-- Before `_errors.append`. -/
  | recording (pair : Pair) (lastError : String)
  /-- Before the `task_done` of a pair. -/
  | finishing
  /-- Before the `task_done` of a marker. -/
  | stopping
  | exited
deriving DecidableEq

/-- Where a producer is in `upload_file`. The rest are the files that its `upload_dir`
still has to enqueue. -/
inductive Producer where
  | idle
  /-- Before the first `_raise_if_failed`. -/
  | called (pair : Pair) (rest : List Pair)
  /-- Before it reads the closed flag. -/
  | unfailed (pair : Pair) (rest : List Pair)
  /-- In `put`. -/
  | putting (pair : Pair) (rest : List Pair)
  /-- Before the last `_raise_if_failed`. -/
  | queued (pair : Pair) (rest : List Pair)
deriving DecidableEq

/-- Where `close` is. -/
inductive Closer where
  | notCalled
  /-- In `_drain`. -/
  | draining
  /-- In `_abandon_pending`. -/
  | sweeping
  /-- In `_stop_workers`, with so many markers to put. -/
  | stopping (markers : Nat)
  /-- With so many workers joined. -/
  | joining (joined : Nat)
  /-- Before the shutdown of the executor. -/
  | shutdown
  /-- Before it reads the errors. -/
  | finishing
  | ended (outcome : Except String Unit)

/-- What the threads share, where each of them is, and for the account what was put and
accepted, uploaded and taken away. -/
structure State where
  queue : List (Option Pair)
  /-- `unfinished_tasks`. -/
  unfinished : Nat
  closed : Bool
  errors : List (Pair × String)
  workers : List Worker
  producers : List Producer
  closer : Closer
  drained : Bool
  /-- The deadline of `close` has passed. -/
  late : Bool
  put : List Pair
  /-- The calls that returned. -/
  accepted : List Pair
  uploaded : List Pair
  abandoned : List (Option Pair)

inductive Event where
  /-- A thread calls `upload_file`, or `upload_dir` with these files. -/
  | upload (i : Nat) (files : List Pair)
  /-- The next step of a producer. -/
  | producer (i : Nat)
  /-- The next step of a worker; if it uploads, with the text of the exception. -/
  | worker (j : Nat) (error : Option String)
  /-- The next step of `close`, the call of it included. -/
  | closer
  | deadline
  /-- The join of the draining thread ends with the deadline. -/
  | drainTimeout
  /-- The joins of the workers end with theirs. -/
  | joinTimeout

/-! ## The threads -/

/-- The text of a failed upload. -/
def failure (e : Pair × String) : String := e.1.1 ++ " -> " ++ e.1.2 ++ ": " ++ e.2

/-- `_raise_if_failed`: the text of what it raises. -/
def raiseIfFailed (errors : List (Pair × String)) : Option String :=
  if errors.isEmpty then none
  else
    some ("result storage uploader has failed uploads: " ++
      String.intercalate "; " ((errors.take 3).map failure))

/-- A producer before the next of its files. -/
def Producer.next : List Pair → Producer
  | [] => .idle
  | pair :: rest => .called pair rest

namespace State

def setProducer (s : State) (i : Nat) (p : Producer) : State :=
  { s with producers := s.producers.set i p }

def setWorker (s : State) (j : Nat) (w : Worker) : State :=
  { s with workers := s.workers.set j w }

end State

variable (cfg : Config)

/-- `upload_file`, in its thread. -/
def producerStep (s : State) (i : Nat) : Producer → State
  | .idle => s
  | .called pair rest =>
    match raiseIfFailed s.errors with
    | some _ => s.setProducer i .idle
    | none => s.setProducer i (.unfailed pair rest)
  | .unfailed pair rest =>
    if s.closed then s.setProducer i .idle
    else s.setProducer i (.putting pair rest)
  | .putting pair rest =>
    if s.queue.length < cfg.maxsize then
      { s.setProducer i (.queued pair rest) with
        queue := s.queue ++ [some pair]
        unfinished := s.unfinished + 1
        put := pair :: s.put }
    else s
  | .queued pair rest =>
    match raiseIfFailed s.errors with
    | some _ => s.setProducer i .idle
    | none => { s.setProducer i (.next rest) with accepted := pair :: s.accepted }

/-- `_worker_loop`. -/
def workerStep (s : State) (j : Nat) (error : Option String) : Worker → State
  | .waiting =>
    match s.queue with
    | [] => s
    | none :: queue => { s.setWorker j .stopping with queue := queue }
    | some pair :: queue => { s.setWorker j (.uploading pair 0) with queue := queue }
  | .uploading pair attempt =>
    match error with
    | none => { s.setWorker j .finishing with uploaded := pair :: s.uploaded }
    | some text =>
      if attempt < cfg.retries then s.setWorker j (.uploading pair (attempt + 1))
      else s.setWorker j (.recording pair text)
  | .recording pair text => { s.setWorker j .finishing with errors := s.errors ++ [(pair, text)] }
  | .finishing => { s.setWorker j .waiting with unfinished := s.unfinished - 1 }
  | .stopping => { s.setWorker j .exited with unfinished := s.unfinished - 1 }
  | .exited => s

namespace Worker

def isUploading : Worker → Bool
  | uploading .. => true
  | _ => false

/-- It has a pair that is neither uploaded nor recorded. -/
def inFlight : Worker → Bool
  | uploading .. | recording .. => true
  | _ => false

def holds (pair : Pair) : Worker → Bool
  | uploading p _ | recording p _ => p == pair
  | _ => false

/-- It owes a `task_done`. -/
def busy : Worker → Bool
  | waiting | exited => false
  | _ => true

/-- It has not taken a marker. -/
def live : Worker → Bool
  | stopping | exited => false
  | _ => true

end Worker

/-- `close`. -/
def closerStep (s : State) : State :=
  match s.closer with
  | .notCalled => { s with closed := true, closer := .draining }
  -- `Queue.join`
  | .draining =>
    if s.unfinished = 0 then { s with drained := true, closer := .stopping cfg.workers } else s
  | .sweeping =>
    match s.queue with
    | [] => { s with closer := .stopping cfg.workers }
    | item :: queue =>
      { s with
        queue := queue
        unfinished := s.unfinished - 1
        abandoned := item :: s.abandoned }
  | .stopping 0 => { s with closer := .joining 0 }
  | .stopping (markers + 1) =>
    if s.queue.length < cfg.maxsize then
      { s with
        queue := s.queue ++ [none]
        unfinished := s.unfinished + 1
        closer := .stopping markers }
    else s
  | .joining joined =>
    match s.workers[joined]? with
    | none => { s with closer := .shutdown }
    | some .exited => { s with closer := .joining (joined + 1) }
    | some _ => s
  -- the executor is waited for if the queue was drained
  | .shutdown =>
    if cfg.azure ∧ s.drained ∧ s.workers.any Worker.isUploading then s
    else { s with closer := .finishing }
  | .finishing =>
    match cfg.raiseOnFailure, raiseIfFailed s.errors with
    | true, some text => { s with closer := .ended (.error text) }
    | _, _ => { s with closer := .ended (.ok ()) }
  | .ended _ => s

def step (s : State) : Event → State
  | .upload i files =>
    match s.producers[i]? with
    | some .idle => s.setProducer i (.next files)
    | _ => s
  | .producer i =>
    match s.producers[i]? with
    | some p => producerStep cfg s i p
    | none => s
  | .worker j error =>
    match s.workers[j]? with
    | some w => workerStep cfg s j error w
    | none => s
  | .closer => closerStep cfg s
  | .deadline =>
    match s.closer with
    | .notCalled => s
    | _ => { s with late := cfg.timed }
  | .drainTimeout =>
    match s.closer with
    | .draining => if s.late then { s with closer := .sweeping } else s
    | _ => s
  | .joinTimeout =>
    match s.closer with
    | .joining _ => if cfg.timed then { s with closer := .shutdown } else s
    | _ => s

/-- An uploader with so many threads that call it. -/
def start (producers : Nat) : State where
  queue := []
  unfinished := 0
  closed := false
  errors := []
  workers := List.replicate cfg.workers .waiting
  producers := List.replicate producers .idle
  closer := .notCalled
  drained := false
  late := false
  put := []
  accepted := []
  uploaded := []
  abandoned := []

/-! ## The properties -/

/-- How often the pair was uploaded, recorded as failed or counted as abandoned. -/
def State.settled (s : State) (pair : Pair) : Nat :=
  s.uploaded.count pair + (s.errors.map Prod.fst).count pair + s.abandoned.count (some pair)

/-- How often it is in the queue or with a worker. -/
def State.pending (s : State) (pair : Pair) : Nat :=
  s.queue.count (some pair) + s.workers.countP (Worker.holds pair)

structure Accounted (s : State) : Prop where
  kept : ∀ pair, s.accepted.count pair ≤ s.settled pair + s.pending pair
  ended : ∀ outcome, s.closer = .ended outcome → ∀ pair, s.accepted.count pair ≤ s.settled pair
  uploaded : cfg.raiseOnFailure = true → s.closer = .ended (.ok ()) →
    ∀ pair, s.accepted.count pair ≤ s.uploaded.count pair

/-- `close` cannot get on before an upload does: it has a marker to put, the queue is full
and every worker that could take from it uploads; or it waits for the executor. -/
def Waits (s : State) : Prop :=
  (∃ markers, s.closer = .stopping (markers + 1) ∧ cfg.maxsize ≤ s.queue.length ∧
    ∀ w ∈ s.workers, w.live = true → w.isUploading = true) ∨
  s.closer = .shutdown ∧ cfg.azure = true ∧ s.drained = true ∧
    s.workers.any Worker.isUploading = true

/-- No pair is in the queue or with a worker. -/
def Quiet (s : State) : Prop :=
  s.queue.countP Option.isSome = 0 ∧ s.workers.countP Worker.inFlight = 0

/-- The markers that are still to be put. -/
def State.remaining (s : State) : Nat :=
  match s.closer with
  | .notCalled | .draining | .sweeping => cfg.workers
  | .stopping markers => markers
  | _ => 0

/-- The pair that the next step of a producer puts. -/
def State.puts (s : State) (i : Nat) : Prop :=
  s.queue.length < cfg.maxsize ∧ ∃ pair rest, s.producers[i]? = some (.putting pair rest)

/-- How the threads may not pass each other. -/
def Guard (s : State) : Event → Prop
  -- a pair goes before the last marker, and leaves room for those of a `close` with a
  -- deadline
  | .producer i => s.puts cfg i →
      0 < s.remaining cfg ∧ (cfg.timed = true → ∀ markers, s.closer = .stopping markers →
        s.queue.length + 1 + markers ≤ cfg.maxsize)
  | .closer =>
    match s.closer, s.queue with
    -- the markers fit, or nothing hinders the workers to take them
    | .sweeping, [] => cfg.workers ≤ cfg.maxsize ∨ s.workers.countP Worker.inFlight = 0
    | .sweeping, _ :: _ => cfg.raiseOnFailure = false
    | _, _ => True
  | .joinTimeout => Quiet s
  | _ => True

/-! ## What one step can do -/

section

variable {cfg} {s : State} {i j : Nat}

/-- What a producer can do. -/
inductive ProducerMoves (cfg : Config) (s : State) (i : Nat) : Producer → State → Prop where
  | waits (p : Producer) : ProducerMoves cfg s i p s
  | moves (p p' : Producer) (h : ∀ pair rest, p' ≠ .queued pair rest) :
    ProducerMoves cfg s i p (s.setProducer i p')
  | puts (pair : Pair) (rest : List Pair) (hroom : s.queue.length < cfg.maxsize) :
    ProducerMoves cfg s i (.putting pair rest)
      { s.setProducer i (.queued pair rest) with
        queue := s.queue ++ [some pair]
        unfinished := s.unfinished + 1
        put := pair :: s.put }
  | returns (pair : Pair) (rest : List Pair) :
    ProducerMoves cfg s i (.queued pair rest)
      { s.setProducer i (.next rest) with accepted := pair :: s.accepted }

theorem producerMoves (p : Producer) : ProducerMoves cfg s i p (producerStep cfg s i p) := by
  cases p with
  | idle => exact .waits _
  | called pair rest =>
    rw [producerStep]
    split
    · exact .moves _ _ nofun
    · exact .moves _ _ nofun
  | unfailed pair rest =>
    rw [producerStep]
    split
    · exact .moves _ _ nofun
    · exact .moves _ _ nofun
  | putting pair rest =>
    rw [producerStep]
    split
    · next hroom => exact .puts pair rest hroom
    · exact .waits _
  | queued pair rest =>
    rw [producerStep]
    split
    · exact .moves _ _ nofun
    · exact .returns pair rest

/-- What a worker can do. -/
inductive WorkerMoves (s : State) (j : Nat) : Worker → State → Prop where
  | waits (w : Worker) : WorkerMoves s j w s
  | takesMarker (queue : List (Option Pair)) (hqueue : s.queue = none :: queue) :
    WorkerMoves s j .waiting { s.setWorker j .stopping with queue := queue }
  | takesPair (pair : Pair) (queue : List (Option Pair)) (hqueue : s.queue = some pair :: queue) :
    WorkerMoves s j .waiting { s.setWorker j (.uploading pair 0) with queue := queue }
  | uploads (pair : Pair) (attempt : Nat) :
    WorkerMoves s j (.uploading pair attempt)
      { s.setWorker j .finishing with uploaded := pair :: s.uploaded }
  | retries (pair : Pair) (attempt : Nat) :
    WorkerMoves s j (.uploading pair attempt) (s.setWorker j (.uploading pair (attempt + 1)))
  | gives (pair : Pair) (attempt : Nat) (text : String) :
    WorkerMoves s j (.uploading pair attempt) (s.setWorker j (.recording pair text))
  | records (pair : Pair) (text : String) :
    WorkerMoves s j (.recording pair text)
      { s.setWorker j .finishing with errors := s.errors ++ [(pair, text)] }
  | finishes :
    WorkerMoves s j .finishing { s.setWorker j .waiting with unfinished := s.unfinished - 1 }
  | exits :
    WorkerMoves s j .stopping { s.setWorker j .exited with unfinished := s.unfinished - 1 }

theorem workerMoves (error : Option String) (w : Worker) :
    WorkerMoves s j w (workerStep cfg s j error w) := by
  cases w with
  | waiting =>
    rw [workerStep]
    split
    · exact .waits _
    · next queue hqueue => exact .takesMarker queue hqueue
    · next pair queue hqueue => exact .takesPair pair queue hqueue
  | uploading pair attempt =>
    cases error with
    | none => exact .uploads pair attempt
    | some text =>
      rw [workerStep]
      split
      · exact .retries pair attempt
      · exact .gives pair attempt text
  | recording pair text => exact .records pair text
  | finishing => exact .finishes
  | stopping => exact .exits
  | exited => exact .waits _

/-- What `close` can do. -/
inductive CloserMoves (cfg : Config) (s : State) : Closer → State → Prop where
  | waits (c : Closer) : CloserMoves cfg s c s
  | closes : CloserMoves cfg s .notCalled { s with closed := true, closer := .draining }
  | drains (h : s.unfinished = 0) :
    CloserMoves cfg s .draining { s with drained := true, closer := .stopping cfg.workers }
  | sweeps (item : Option Pair) (queue : List (Option Pair)) (hqueue : s.queue = item :: queue) :
    CloserMoves cfg s .sweeping
      { s with
        queue := queue
        unfinished := s.unfinished - 1
        abandoned := item :: s.abandoned }
  | swept (hqueue : s.queue = []) :
    CloserMoves cfg s .sweeping { s with closer := .stopping cfg.workers }
  | marks (markers : Nat) :
    CloserMoves cfg s (.stopping (markers + 1))
      { s with
        queue := s.queue ++ [none]
        unfinished := s.unfinished + 1
        closer := .stopping markers }
  | marked : CloserMoves cfg s (.stopping 0) { s with closer := .joining 0 }
  | joins (joined : Nat) (h : s.workers[joined]? = some .exited) :
    CloserMoves cfg s (.joining joined) { s with closer := .joining (joined + 1) }
  | joinedAll (joined : Nat) (h : s.workers[joined]? = none) :
    CloserMoves cfg s (.joining joined) { s with closer := .shutdown }
  | shutsDown : CloserMoves cfg s .shutdown { s with closer := .finishing }
  | raises (text : String) : CloserMoves cfg s .finishing { s with closer := .ended (.error text) }
  | returns (h : cfg.raiseOnFailure = true → raiseIfFailed s.errors = none) :
    CloserMoves cfg s .finishing { s with closer := .ended (.ok ()) }

theorem closerMoves {c : Closer} (hcloser : s.closer = c) :
    CloserMoves cfg s c (closerStep cfg s) := by
  unfold closerStep
  rw [hcloser]
  cases c with
  | notCalled => exact .closes
  | draining =>
    dsimp only
    split
    · next h => exact .drains h
    · exact .waits _
  | sweeping =>
    dsimp only
    split
    · next hqueue => exact .swept hqueue
    · next item queue hqueue =>
      have hm : CloserMoves cfg s .sweeping _ := .sweeps item queue hqueue
      rwa [hcloser] at hm
  | stopping markers =>
    cases markers with
    | zero => exact .marked
    | succ markers =>
      dsimp only
      split
      · exact .marks markers
      · exact .waits _
  | joining joined =>
    dsimp only
    split
    · next h => exact .joinedAll joined h
    · next h => exact .joins joined h
    · exact .waits _
  | shutdown =>
    dsimp only
    split
    · exact .waits _
    · exact .shutsDown
  | finishing =>
    dsimp only
    split
    · exact .raises _
    · next hnone =>
      refine .returns fun hraise => ?_
      cases herrors : raiseIfFailed s.errors with
      | none => rfl
      | some text => exact absurd herrors (hnone text hraise)
  | ended outcome => exact .waits _

/-! ## What is put is kept -/

/-- The producer has put the pair, and its call has not returned. -/
def Producer.isQueued (pair : Pair) : Producer → Bool
  | queued p _ => p == pair
  | _ => false

theorem Producer.isQueued_eq_false {pair : Pair} {p : Producer}
    (h : ∀ pair rest, p ≠ .queued pair rest) : p.isQueued pair = false := by
  cases p with
  | queued pair rest => exact absurd rfl (h pair rest)
  | _ => rfl

theorem Producer.next_ne_queued (files : List Pair) (pair : Pair) (rest : List Pair) :
    next files ≠ .queued pair rest := by
  cases files <;> exact nofun

/-- What was put is settled or pending, and a call returns for a pair that was put. -/
structure Account (s : State) : Prop where
  put : ∀ pair, s.put.count pair = s.settled pair + s.pending pair
  accepted : ∀ pair,
    s.accepted.count pair + s.producers.countP (Producer.isQueued pair) ≤ s.put.count pair

theorem Account.setProducer {p p' : Producer} (h : Account s) (hp : s.producers[i]? = some p)
    (hp' : ∀ pair rest, p' ≠ .queued pair rest) : Account (s.setProducer i p') := by
  refine ⟨h.put, fun pair => ?_⟩
  have hcount := countP_set_add (Producer.isQueued pair) hp p'
  have haccepted := h.accepted pair
  rw [Producer.isQueued_eq_false hp', Bool.toNat_false] at hcount
  show s.accepted.count pair + (s.producers.set i p').countP (Producer.isQueued pair) ≤
    s.put.count pair
  omega

/-- A worker takes a step that keeps the balance of each pair. -/
theorem Account.setWorker {w w' : Worker} {s' : State} (h : Account s)
    (hw : s.workers[j]? = some w) (hworkers : s'.workers = s.workers.set j w')
    (hput : s'.put = s.put) (haccepted : s'.accepted = s.accepted)
    (hproducers : s'.producers = s.producers)
    (hbalance : ∀ pair, s'.settled pair + s'.queue.count (some pair) + (w'.holds pair).toNat =
      s.settled pair + s.queue.count (some pair) + (w.holds pair).toNat) : Account s' := by
  refine ⟨fun pair => ?_, ?_⟩
  · have hset := countP_set_add (Worker.holds pair) hw w'
    have hpair := h.put pair
    have := hbalance pair
    unfold State.pending at hpair ⊢
    rw [hput, hworkers]
    omega
  · rw [hput, haccepted, hproducers]
    exact h.accepted

theorem account_producer {p : Producer} {s' : State} (h : Account s)
    (hp : s.producers[i]? = some p) (hm : ProducerMoves cfg s i p s') : Account s' := by
  cases hm with
  | waits => exact h
  | moves p p' hp' => exact h.setProducer hp hp'
  | puts pair rest hroom =>
    refine ⟨fun q => ?_, fun q => ?_⟩
    · have hput := h.put q
      unfold State.pending at hput ⊢
      show (pair :: s.put).count q = s.settled q +
        ((s.queue ++ [some pair]).count (some q) + s.workers.countP (Worker.holds q))
      rw [List.count_cons, List.count_append, hput, List.count_singleton, Option.some_beq_some]
      omega
    · have hcount := countP_set_add (Producer.isQueued q) hp (.queued pair rest)
      have haccepted := h.accepted q
      show s.accepted.count q + (s.producers.set i (.queued pair rest)).countP
        (Producer.isQueued q) ≤ (pair :: s.put).count q
      rw [List.count_cons]
      cases hq : pair == q <;> simp [Producer.isQueued, hq] at hcount ⊢ <;> omega
  | returns pair rest =>
    refine ⟨h.put, fun q => ?_⟩
    have hcount := countP_set_add (Producer.isQueued q) hp (.next rest)
    have haccepted := h.accepted q
    rw [Producer.isQueued_eq_false (Producer.next_ne_queued rest), Bool.toNat_false] at hcount
    show (pair :: s.accepted).count q + (s.producers.set i (.next rest)).countP
      (Producer.isQueued q) ≤ s.put.count q
    rw [List.count_cons]
    cases hq : pair == q <;> simp [Producer.isQueued, hq] at hcount ⊢ <;> omega

theorem account_worker {w : Worker} {s' : State} (h : Account s) (hw : s.workers[j]? = some w)
    (hm : WorkerMoves s j w s') : Account s' := by
  cases hm with
  | waits => exact h
  | takesMarker queue hqueue =>
    refine h.setWorker hw rfl rfl rfl rfl fun q => ?_
    rw [hqueue, List.count_cons_of_ne (by simp)]
    rfl
  | takesPair pair queue hqueue =>
    refine h.setWorker hw rfl rfl rfl rfl fun q => ?_
    rw [hqueue, List.count_cons, Option.some_beq_some]
    show s.settled q + queue.count (some q) + (pair == q).toNat = s.settled q + _ + 0
    cases pair == q <;> simp
    omega
  | uploads pair attempt =>
    refine h.setWorker hw rfl rfl rfl rfl fun q => ?_
    simp only [State.settled, State.setWorker, List.count_cons, Worker.holds]
    cases pair == q <;> simp
    omega
  | retries pair attempt => exact h.setWorker hw rfl rfl rfl rfl fun _ => rfl
  | gives pair attempt text => exact h.setWorker hw rfl rfl rfl rfl fun _ => rfl
  | records pair text =>
    refine h.setWorker hw rfl rfl rfl rfl fun q => ?_
    simp only [State.settled, State.setWorker, List.map_append, List.count_append,
      List.map_singleton, List.count_singleton, Worker.holds]
    cases pair == q <;> simp
    omega
  | finishes => exact h.setWorker hw rfl rfl rfl rfl fun _ => rfl
  | exits => exact h.setWorker hw rfl rfl rfl rfl fun _ => rfl

theorem account_closer {c : Closer} {s' : State} (h : Account s) (hm : CloserMoves cfg s c s') :
    Account s' := by
  cases hm with
  | sweeps item queue hqueue =>
    refine ⟨fun q => ?_, h.accepted⟩
    have hput := h.put q
    unfold State.settled State.pending at hput ⊢
    rw [hput, hqueue, List.count_cons, List.count_cons]
    dsimp only
    omega
  | marks markers =>
    refine ⟨fun q => ?_, h.accepted⟩
    have hput := h.put q
    unfold State.settled State.pending at hput ⊢
    rw [hput, List.count_append, List.count_singleton]
    rfl
  | _ => exact ⟨h.put, h.accepted⟩

/-! ## One marker for each worker -/

theorem workers_pos (cfg : Config) : 0 < cfg.workers := by
  unfold Config.workers
  omega

/-- What is in the queue or owes a `task_done` is unfinished, and each worker that has
not taken a marker has one before it. -/
structure Markers (cfg : Config) (s : State) : Prop where
  workers : s.workers.length = cfg.workers
  unfinished : s.unfinished = s.queue.length + s.workers.countP Worker.busy
  markers : s.workers.countP Worker.live = s.queue.count none + s.remaining cfg

theorem Markers.setWorker {w w' : Worker} {s' : State} (h : Markers cfg s)
    (hw : s.workers[j]? = some w) (hworkers : s'.workers = s.workers.set j w')
    (hcloser : s'.closer = s.closer)
    (hunfinished : s'.unfinished + s.queue.length + w.busy.toNat =
      s.unfinished + s'.queue.length + w'.busy.toNat)
    (hmarkers : s'.queue.count none + w.live.toNat = s.queue.count none + w'.live.toNat) :
    Markers cfg s' := by
  have hbusy := countP_set_add Worker.busy hw w'
  have hlive := countP_set_add Worker.live hw w'
  have hu := h.unfinished
  have hm := h.markers
  have hremaining : s'.remaining cfg = s.remaining cfg := by
    unfold State.remaining
    rw [hcloser]
  refine ⟨by rw [hworkers, List.length_set, h.workers], ?_, ?_⟩
  · rw [hworkers]
    omega
  · rw [hworkers, hremaining]
    omega

/-- A `task_done` that is owed is counted. -/
theorem Markers.unfinished_pos {w : Worker} (h : Markers cfg s) (hw : s.workers[j]? = some w)
    (hbusy : w.busy = true) : 0 < s.unfinished := by
  have hpos : 0 < s.workers.countP Worker.busy :=
    List.countP_pos_iff.mpr ⟨w, List.mem_of_getElem? hw, hbusy⟩
  have := h.unfinished
  omega

theorem markers_producer {p : Producer} {s' : State} (h : Markers cfg s)
    (hm : ProducerMoves cfg s i p s') : Markers cfg s' := by
  cases hm with
  | waits => exact h
  | moves => exact ⟨h.workers, h.unfinished, h.markers⟩
  | puts pair rest hroom =>
    refine ⟨h.workers, ?_, ?_⟩
    · have hu := h.unfinished
      show s.unfinished + 1 = (s.queue ++ [some pair]).length + s.workers.countP Worker.busy
      rw [List.length_append, List.length_singleton]
      omega
    · show s.workers.countP Worker.live = (s.queue ++ [some pair]).count none + s.remaining cfg
      rw [List.count_append, h.markers]
      rfl
  | returns => exact ⟨h.workers, h.unfinished, h.markers⟩

theorem markers_worker {w : Worker} {s' : State} (h : Markers cfg s)
    (hw : s.workers[j]? = some w) (hm : WorkerMoves s j w s') : Markers cfg s' := by
  cases hm with
  | waits => exact h
  | takesMarker queue hqueue =>
    refine h.setWorker hw rfl rfl ?_ ?_
    · rw [hqueue, List.length_cons]
      show s.unfinished + (queue.length + 1) + 0 = s.unfinished + queue.length + 1
      omega
    · rw [hqueue, List.count_cons_self]
      show queue.count none + 1 = queue.count none + 1 + 0
      omega
  | takesPair pair queue hqueue =>
    refine h.setWorker hw rfl rfl ?_ ?_
    · rw [hqueue, List.length_cons]
      show s.unfinished + (queue.length + 1) + 0 = s.unfinished + queue.length + 1
      omega
    · rw [hqueue, List.count_cons_of_ne (by simp)]
      rfl
  | uploads pair attempt => exact h.setWorker hw rfl rfl rfl rfl
  | retries pair attempt => exact h.setWorker hw rfl rfl rfl rfl
  | gives pair attempt text => exact h.setWorker hw rfl rfl rfl rfl
  | records pair text => exact h.setWorker hw rfl rfl rfl rfl
  | finishes =>
    have hpos := h.unfinished_pos hw rfl
    refine h.setWorker hw rfl rfl ?_ rfl
    show s.unfinished - 1 + s.queue.length + 1 = s.unfinished + s.queue.length + 0
    omega
  | exits =>
    have hpos := h.unfinished_pos hw rfl
    refine h.setWorker hw rfl rfl ?_ rfl
    show s.unfinished - 1 + s.queue.length + 1 = s.unfinished + s.queue.length + 0
    omega

/-- Before the first marker is put there is none in the queue. -/
theorem Markers.count_none (h : Markers cfg s) (hremaining : s.remaining cfg = cfg.workers) :
    s.queue.count none = 0 := by
  have hm := h.markers
  have hle : s.workers.countP Worker.live ≤ s.workers.length := List.countP_le_length
  rw [h.workers] at hle
  omega

theorem markers_closer {c : Closer} {s' : State} (h : Markers cfg s) (hcloser : s.closer = c)
    (hm : CloserMoves cfg s c s') : Markers cfg s' := by
  have hmarkers := h.markers
  have hcount := h.count_none
  unfold State.remaining at hmarkers hcount
  rw [hcloser] at hmarkers hcount
  cases hm with
  | waits => exact h
  | sweeps item queue hqueue =>
    have hnone := hcount rfl
    have hu := h.unfinished
    rw [hqueue, List.length_cons] at hu
    rw [hqueue] at hnone hmarkers
    refine ⟨h.workers, ?_, ?_⟩
    · show s.unfinished - 1 = queue.length + s.workers.countP Worker.busy
      omega
    · show s.workers.countP Worker.live = queue.count none + s.remaining cfg
      unfold State.remaining
      rw [hcloser]
      rw [List.count_cons] at hnone hmarkers
      dsimp only at hmarkers ⊢
      omega
  | marks markers =>
    have hu := h.unfinished
    refine ⟨h.workers, ?_, ?_⟩
    · show s.unfinished + 1 = (s.queue ++ [none]).length + s.workers.countP Worker.busy
      rw [List.length_append, List.length_singleton]
      omega
    · show s.workers.countP Worker.live = (s.queue ++ [none]).count none + markers
      rw [List.count_append, List.count_singleton_self]
      dsimp only at hmarkers
      omega
  | _ => exact ⟨h.workers, h.unfinished, hmarkers⟩

/-! ## When `close` ends -/

/-- `close` has joined the workers, or given up on them. -/
def Closer.past : Closer → Bool
  | .shutdown | .finishing | .ended _ => true
  | _ => false

/-- What the guard secures. -/
structure Closing (cfg : Config) (s : State) : Prop where
  /-- No pair is behind the last marker. -/
  last : s.remaining cfg = 0 → ∀ pair, s.queue.getLast? ≠ some (some pair)
  late : s.late = true → cfg.timed = true
  /-- The markers fit, or nothing hinders the workers to take them. -/
  room : cfg.timed = true → ∀ markers, s.closer = .stopping markers →
    s.queue.length + markers ≤ cfg.maxsize ∨ Quiet s
  exited : ∀ joined, s.closer = .joining joined → ∀ k < joined, s.workers[k]? = some .exited
  quiet : s.closer.past = true → Quiet s
  abandoned : cfg.raiseOnFailure = true → s.abandoned = []
  returned : cfg.raiseOnFailure = true → s.closer = .ended (.ok ()) → s.errors = []

theorem Quiet.setWorker {w w' : Worker} {s' : State} (h : Quiet s) (hw : s.workers[j]? = some w)
    (hworkers : s'.workers = s.workers.set j w') (hqueue : s'.queue.countP Option.isSome = 0)
    (hflight : w'.inFlight.toNat ≤ w.inFlight.toNat) : Quiet s' := by
  have hset := countP_set_add Worker.inFlight hw w'
  have hnone := h.2
  refine ⟨hqueue, ?_⟩
  rw [hworkers]
  omega

/-- Without a pair to take, the workers take markers and end. -/
theorem quiet_worker {w : Worker} {s' : State} (h : Quiet s) (hw : s.workers[j]? = some w)
    (hm : WorkerMoves s j w s') : Quiet s' := by
  have hqueue := h.1
  cases hm with
  | waits => exact h
  | takesMarker queue hq =>
    rw [hq, List.countP_cons_of_neg (by simp)] at hqueue
    exact h.setWorker hw rfl hqueue (Nat.le_refl _)
  | takesPair pair queue hq =>
    rw [hq, List.countP_cons_of_pos (by simp)] at hqueue
    exact nomatch hqueue
  | uploads pair attempt => exact h.setWorker hw rfl hqueue (Nat.zero_le _)
  | retries pair attempt => exact h.setWorker hw rfl hqueue (Nat.le_refl _)
  | gives pair attempt text => exact h.setWorker hw rfl hqueue (Nat.le_refl _)
  | records pair text => exact h.setWorker hw rfl hqueue (Nat.zero_le _)
  | finishes => exact h.setWorker hw rfl hqueue (Nat.le_refl _)
  | exits => exact h.setWorker hw rfl hqueue (Nat.le_refl _)

/-- No worker holds a pair when none is on its way. -/
theorem Quiet.inFlight {w : Worker} (h : Quiet s) (hw : s.workers[j]? = some w) :
    w.inFlight = false := by
  have hnone := List.countP_eq_zero.mp h.2 w (List.mem_of_getElem? hw)
  exact Bool.not_eq_true _ ▸ hnone

/-- All a worker does to the rest of the state. -/
structure Beside (s s' : State) : Prop where
  closer : s'.closer = s.closer
  late : s'.late = s.late
  abandoned : s'.abandoned = s.abandoned
  queue : s'.queue = s.queue ∨ ∃ item, s.queue = item :: s'.queue

theorem beside_worker {w : Worker} {s' : State} (hm : WorkerMoves s j w s') : Beside s s' := by
  cases hm with
  | takesMarker queue hq => exact ⟨rfl, rfl, rfl, Or.inr ⟨none, hq⟩⟩
  | takesPair pair queue hq => exact ⟨rfl, rfl, rfl, Or.inr ⟨some pair, hq⟩⟩
  | _ => exact ⟨rfl, rfl, rfl, Or.inl rfl⟩

theorem exited_worker {w : Worker} {s' : State} {k : Nat} (hk : s.workers[k]? = some .exited)
    (hw : s.workers[j]? = some w) (hm : WorkerMoves s j w s') :
    s'.workers[k]? = some .exited := by
  have hset : ∀ w', w ≠ .exited → (s.workers.set j w')[k]? = some .exited := by
    intro w' hne
    rw [getElem?_set_slot hw, if_neg]
    · exact hk
    · rintro rfl
      exact hne (Option.some.inj (hw.symm.trans hk))
  cases hm with
  | waits => exact hk
  | _ => exact hset _ nofun

theorem closing_worker {w : Worker} {s' : State} (h : Closing cfg s)
    (hw : s.workers[j]? = some w) (hm : WorkerMoves s j w s') : Closing cfg s' := by
  obtain ⟨hcloser, hlate, habandoned, hqueue⟩ := beside_worker hm
  have hremaining : s'.remaining cfg = s.remaining cfg := by
    unfold State.remaining
    rw [hcloser]
  have hlength : s'.queue.length ≤ s.queue.length := by
    rcases hqueue with hq | ⟨item, hq⟩
    · exact Nat.le_of_eq (congrArg List.length hq)
    · rw [hq, List.length_cons]
      omega
  refine ⟨fun hzero pair hlast => ?_, by rw [hlate]; exact h.late, fun htimed markers hstop => ?_,
    fun joined hjoin k hk => ?_, fun hpast => ?_, by rw [habandoned]; exact h.abandoned,
    fun hraise hended => ?_⟩
  · refine h.last (hremaining ▸ hzero) pair ?_
    rcases hqueue with hq | ⟨item, hq⟩
    · rw [← hq, hlast]
    · rw [hq, List.getLast?_cons, hlast]
      rfl
  · rcases h.room htimed markers (hcloser ▸ hstop) with hroom | hquiet
    · exact Or.inl (by omega)
    · exact Or.inr (quiet_worker hquiet hw hm)
  · exact exited_worker (h.exited joined (hcloser ▸ hjoin) k hk) hw hm
  · exact quiet_worker (h.quiet (hcloser ▸ hpast)) hw hm
  · have hended' := hcloser ▸ hended
    have hflight := (h.quiet (by rw [hended']; rfl)).inFlight hw
    have herrors := h.returned hraise hended'
    cases hm with
    | records pair text => exact nomatch hflight
    | _ => exact herrors

theorem closing_producer {p : Producer} {s' : State} (h : Closing cfg s)
    (hp : s.producers[i]? = some p) (hg : Guard cfg s (.producer i))
    (hm : ProducerMoves cfg s i p s') : Closing cfg s' := by
  cases hm with
  | waits => exact h
  | moves => exact ⟨h.last, h.late, h.room, h.exited, h.quiet, h.abandoned, h.returned⟩
  | puts pair rest hroom =>
    obtain ⟨hpos, hfits⟩ := hg ⟨hroom, pair, rest, hp⟩
    refine ⟨fun hzero => ?_, h.late, fun htimed markers hstop => Or.inl ?_, h.exited,
      fun hpast => ?_, h.abandoned, h.returned⟩
    · have hzero : s.remaining cfg = 0 := hzero
      omega
    · have hfits := hfits htimed markers hstop
      show (s.queue ++ [some pair]).length + markers ≤ cfg.maxsize
      rw [List.length_append, List.length_singleton]
      exact hfits
    · have hzero : s.remaining cfg = 0 := by
        have hpast : s.closer.past = true := hpast
        unfold State.remaining
        unfold Closer.past at hpast
        split at hpast
        · next hc => rw [hc]
        · next hc => rw [hc]
        · next hc => rw [hc]
        · cases hpast
      omega
  | returns => exact ⟨h.last, h.late, h.room, h.exited, h.quiet, h.abandoned, h.returned⟩

/-- Once every task is done, no pair is left. -/
theorem quiet_of_unfinished (h : Markers cfg s) (hzero : s.unfinished = 0) : Quiet s := by
  have hu := h.unfinished
  have hbusy : s.workers.countP Worker.inFlight ≤ s.workers.countP Worker.busy := by
    refine List.countP_mono_left fun w _ hflight => ?_
    cases w with
    | uploading pair attempt => rfl
    | recording pair text => rfl
    | _ => exact nomatch hflight
  have hqueue : s.queue = [] := List.length_eq_zero_iff.mp (by omega)
  exact ⟨by rw [hqueue]; rfl, by omega⟩

/-- So it is once every worker has ended, as each ends at a marker and no pair is behind
the last one. -/
theorem quiet_of_exited (hmarkers : Markers cfg s) (h : Closing cfg s)
    (hremaining : s.remaining cfg = 0) (hall : ∀ w ∈ s.workers, w = .exited) : Quiet s := by
  have hlive : s.workers.countP Worker.live = 0 := by
    refine List.countP_eq_zero.mpr fun w hw => ?_
    rw [hall w hw]
    exact nofun
  have hnone : s.queue.count none = 0 := by
    have := hmarkers.markers
    omega
  have hqueue : s.queue = [] := by
    rcases List.eq_nil_or_concat s.queue with hq | ⟨queue, item, hq⟩
    · exact hq
    · cases item with
      | none =>
        rw [hq, List.concat_eq_append, List.count_append, List.count_singleton_self] at hnone
        omega
      | some pair =>
        refine absurd ?_ (h.last hremaining pair)
        rw [hq, List.concat_eq_append, List.getLast?_append, List.getLast?_singleton]
        rfl
  refine ⟨by rw [hqueue]; rfl, List.countP_eq_zero.mpr fun w hw => ?_⟩
  rw [hall w hw]
  exact nofun

theorem raiseIfFailed_eq_none {errors : List (Pair × String)} (h : raiseIfFailed errors = none) :
    errors = [] := by
  unfold raiseIfFailed at h
  split at h
  · next hempty => exact List.isEmpty_iff.mp hempty
  · exact nomatch h

theorem closing_closer {c : Closer} {s' : State} (h : Closing cfg s) (hmarkers : Markers cfg s)
    (hg : Guard cfg s .closer) (hcloser : s.closer = c) (hm : CloserMoves cfg s c s') :
    Closing cfg s' := by
  have hpos := workers_pos cfg
  have hlast := h.last
  have hquiet := h.quiet
  have hroom := h.room
  unfold Guard at hg
  unfold State.remaining at hlast
  rw [hcloser] at hlast hquiet hroom hg
  cases hm with
  | waits => exact h
  | closes =>
    exact ⟨hlast, h.late, by rintro _ _ ⟨⟩, by rintro _ ⟨⟩, by rintro ⟨⟩, h.abandoned,
      by rintro _ ⟨⟩⟩
  | drains hzero =>
    have hq : Quiet s := quiet_of_unfinished hmarkers hzero
    refine ⟨fun hw => ?_, h.late, fun _ _ _ => Or.inr hq, by rintro _ ⟨⟩, by rintro ⟨⟩, h.abandoned,
      by rintro _ ⟨⟩⟩
    have hw : cfg.workers = 0 := hw
    omega
  | sweeps item queue hqueue =>
    rw [hqueue] at hg
    have hg : cfg.raiseOnFailure = false := hg
    refine ⟨fun hw => ?_, h.late, fun _ _ hs => ?_, fun _ hj => ?_, fun hp => ?_, fun hraise => ?_,
      fun hraise => ?_⟩
    · have hw : s.remaining cfg = 0 := hw
      unfold State.remaining at hw
      rw [hcloser] at hw
      dsimp only at hw
      omega
    · cases hcloser.symm.trans hs
    · cases hcloser.symm.trans hj
    · cases (hcloser ▸ hp : Closer.past .sweeping = true)
    · exact absurd hraise (by rw [hg]; rintro ⟨⟩)
    · exact absurd hraise (by rw [hg]; rintro ⟨⟩)
  | swept hqueue =>
    rw [hqueue] at hg
    refine ⟨fun hw => ?_, h.late, fun _ markers hstop => ?_, by rintro _ ⟨⟩, by rintro ⟨⟩,
      h.abandoned, by rintro _ ⟨⟩⟩
    · have hw : cfg.workers = 0 := hw
      omega
    · cases hstop
      show s.queue.length + cfg.workers ≤ cfg.maxsize ∨ _
      rw [hqueue]
      rcases hg with hfits | hflight
      · exact Or.inl (by rw [List.length_nil]; omega)
      · exact Or.inr ⟨rfl, hflight⟩
  | marks markers =>
    refine ⟨fun _ pair hp => ?_, h.late, fun htimed k hstop => ?_, by rintro _ ⟨⟩, by rintro ⟨⟩,
      h.abandoned, by rintro _ ⟨⟩⟩
    · have hp : (s.queue ++ [none]).getLast? = some (some pair) := hp
      rw [List.getLast?_append, List.getLast?_singleton] at hp
      cases hp
    · cases hstop
      show (s.queue ++ [none]).length + markers ≤ cfg.maxsize ∨ _
      rw [List.length_append, List.length_singleton]
      rcases hroom htimed (markers + 1) rfl with hfits | ⟨hqueue, hflight⟩
      · exact Or.inl (by omega)
      · refine Or.inr ⟨?_, hflight⟩
        show (s.queue ++ [none]).countP Option.isSome = 0
        rw [List.countP_append, hqueue]
        rfl
  | marked =>
    exact ⟨hlast, h.late, by rintro _ _ ⟨⟩, by rintro _ ⟨⟩ _ ⟨⟩, by rintro ⟨⟩, h.abandoned,
      by rintro _ ⟨⟩⟩
  | joins joined hexited =>
    refine ⟨hlast, h.late, by rintro _ _ ⟨⟩, fun n hjoin k hk => ?_, by rintro ⟨⟩, h.abandoned,
      by rintro _ ⟨⟩⟩
    cases hjoin
    rcases Nat.lt_succ_iff_lt_or_eq.mp hk with hlt | rfl
    · exact h.exited joined hcloser k hlt
    · exact hexited
  | joinedAll joined hnone =>
    have hall : ∀ w ∈ s.workers, w = .exited := by
      intro w hw
      obtain ⟨k, hk, rfl⟩ := List.getElem_of_mem hw
      have hle := List.getElem?_eq_none_iff.mp hnone
      have hk' := h.exited joined hcloser k (by omega)
      rw [List.getElem?_eq_getElem hk] at hk'
      exact Option.some.inj hk'
    have hq := quiet_of_exited hmarkers h (by unfold State.remaining; rw [hcloser]) hall
    exact ⟨hlast, h.late, by rintro _ _ ⟨⟩, by rintro _ ⟨⟩, fun _ => hq, h.abandoned,
      by rintro _ ⟨⟩⟩
  | shutsDown =>
    exact ⟨hlast, h.late, by rintro _ _ ⟨⟩, by rintro _ ⟨⟩, fun _ => hquiet rfl, h.abandoned,
      by rintro _ ⟨⟩⟩
  | raises text =>
    exact ⟨hlast, h.late, by rintro _ _ ⟨⟩, by rintro _ ⟨⟩, fun _ => hquiet rfl, h.abandoned,
      by rintro _ ⟨⟩⟩
  | returns hnone =>
    exact ⟨hlast, h.late, by rintro _ _ ⟨⟩, by rintro _ ⟨⟩, fun _ => hquiet rfl, h.abandoned,
      fun hraise _ => raiseIfFailed_eq_none (hnone hraise)⟩

/-! ## Runs -/

structure Inv (cfg : Config) (s : State) : Prop where
  account : Account s
  markers : Markers cfg s
  closing : Closing cfg s

theorem step_inv (s : State) (e : Event) (h : Inv cfg s) (hg : Guard cfg s e) :
    Inv cfg (step cfg s e) := by
  cases e with
  | upload i files =>
    unfold step
    dsimp only
    split
    · next hp =>
      have hc := h.closing
      exact ⟨h.account.setProducer hp (Producer.next_ne_queued files),
        ⟨h.markers.workers, h.markers.unfinished, h.markers.markers⟩,
        ⟨hc.last, hc.late, hc.room, hc.exited, hc.quiet, hc.abandoned, hc.returned⟩⟩
    · exact h
  | producer i =>
    unfold step
    dsimp only
    split
    · next p hp =>
      have hm : ProducerMoves cfg s i p _ := producerMoves p
      exact ⟨account_producer h.account hp hm, markers_producer h.markers hm,
        closing_producer h.closing hp hg hm⟩
    · exact h
  | worker j error =>
    unfold step
    dsimp only
    split
    · next w hw =>
      have hm : WorkerMoves s j w (workerStep cfg s j error w) := workerMoves error w
      exact ⟨account_worker h.account hw hm, markers_worker h.markers hw hm,
        closing_worker h.closing hw hm⟩
    · exact h
  | closer =>
    have hm : CloserMoves cfg s s.closer _ := closerMoves rfl
    exact ⟨account_closer h.account hm, markers_closer h.markers rfl hm,
      closing_closer h.closing h.markers hg rfl hm⟩
  | deadline =>
    have hc := h.closing
    unfold step
    dsimp only
    split
    · exact h
    · exact ⟨⟨h.account.put, h.account.accepted⟩,
        ⟨h.markers.workers, h.markers.unfinished, h.markers.markers⟩,
        ⟨hc.last, fun htimed => htimed, hc.room, hc.exited, hc.quiet, hc.abandoned, hc.returned⟩⟩
  | drainTimeout =>
    have hc := h.closing
    have hmarkers := h.markers.markers
    unfold step
    dsimp only
    split
    · next hcloser =>
      split
      · have hpos := workers_pos cfg
        unfold State.remaining at hmarkers
        rw [hcloser] at hmarkers
        refine ⟨⟨h.account.put, h.account.accepted⟩,
          ⟨h.markers.workers, h.markers.unfinished, hmarkers⟩,
          ⟨fun hw => ?_, hc.late, nofun, nofun, nofun, hc.abandoned, nofun⟩⟩
        have hw : cfg.workers = 0 := hw
        omega
      · exact h
    · exact h
  | joinTimeout =>
    have hc := h.closing
    have hmarkers := h.markers.markers
    have hlast := hc.last
    unfold step
    dsimp only
    split
    · next joined hcloser =>
      split
      · have hq : Quiet s := hg
        unfold State.remaining at hmarkers hlast
        rw [hcloser] at hmarkers hlast
        exact ⟨⟨h.account.put, h.account.accepted⟩,
          ⟨h.markers.workers, h.markers.unfinished, hmarkers⟩,
          ⟨hlast, hc.late, nofun, nofun, fun _ => hq, hc.abandoned, nofun⟩⟩
      · exact h
    · exact h

theorem inv_start (producers : Nat) : Inv cfg (start cfg producers) := by
  have hnone : ∀ p : Worker → Bool, p .waiting = false →
      (List.replicate cfg.workers Worker.waiting).countP p = 0 := by
    intro p hp
    rw [List.countP_replicate, hp]
    rfl
  have hpos := workers_pos cfg
  refine ⟨⟨fun q => ?_, fun q => ?_⟩, ⟨List.length_replicate, ?_, ?_⟩,
    ⟨fun hw => ?_, nofun, nofun, nofun, nofun, fun _ => rfl, nofun⟩⟩
  · show 0 = 0 + 0 + 0 + (0 + (List.replicate cfg.workers Worker.waiting).countP _)
    rw [hnone _ rfl]
  · show 0 + (List.replicate producers Producer.idle).countP _ ≤ 0
    rw [List.countP_replicate]
    exact Nat.le_refl _
  · show 0 = 0 + (List.replicate cfg.workers Worker.waiting).countP _
    rw [hnone _ rfl]
  · show (List.replicate cfg.workers Worker.waiting).countP _ = 0 + cfg.workers
    rw [List.countP_replicate, Nat.zero_add]
    rfl
  · have hw : cfg.workers = 0 := hw
    omega

/-- What is with a worker is on its way. -/
theorem Quiet.pending (h : Quiet s) (pair : Pair) : s.pending pair = 0 := by
  have hqueue : s.queue.count (some pair) ≤ s.queue.countP Option.isSome := by
    rw [List.count_eq_countP]
    refine List.countP_mono_left fun item _ hitem => ?_
    rw [eq_of_beq hitem]
    rfl
  have hworkers : s.workers.countP (Worker.holds pair) ≤ s.workers.countP Worker.inFlight := by
    refine List.countP_mono_left fun w _ hw => ?_
    cases w with
    | uploading p attempt => rfl
    | recording p text => rfl
    | _ => exact nomatch hw
  have h1 := h.1
  have h2 := h.2
  unfold State.pending
  omega

theorem Account.accepted_le (h : Account s) (pair : Pair) :
    s.accepted.count pair ≤ s.settled pair + s.pending pair := by
  have haccepted := h.accepted pair
  rw [h.put pair] at haccepted
  omega

theorem Inv.accounted (h : Inv cfg s) : Accounted cfg s := by
  have hquiet : ∀ outcome, s.closer = .ended outcome → ∀ pair,
      s.accepted.count pair ≤ s.settled pair := by
    intro outcome hended pair
    have hpending := (h.closing.quiet (by rw [hended]; rfl)).pending pair
    have haccepted := h.account.accepted_le pair
    omega
  refine ⟨h.account.accepted_le, hquiet, fun hraise hended pair => ?_⟩
  have haccepted := hquiet _ hended pair
  unfold State.settled at haccepted
  rw [h.closing.returned hraise hended, h.closing.abandoned hraise] at haccepted
  exact haccepted

theorem Inv.not_waits (h : Inv cfg s) (hlate : s.late = true) : ¬ Waits cfg s := by
  have htimed := h.closing.late hlate
  rintro (⟨markers, hstop, hfull, hall⟩ | ⟨hshutdown, -, -, huploading⟩)
  · have hlive := h.markers.markers
    have hremaining : s.remaining cfg = markers + 1 := by
      unfold State.remaining
      rw [hstop]
    rcases h.closing.room htimed (markers + 1) hstop with hroom | hquiet
    · omega
    · -- a worker has yet to take a marker, and it uploads nothing
      obtain ⟨w, hw, hwlive⟩ := exists_slot_of_countP (p := Worker.live) (l := s.workers) (by omega)
      have huploading := hall w hw hwlive
      have hflight := List.countP_eq_zero.mp hquiet.2 w hw
      cases w with
      | uploading pair attempt => exact hflight rfl
      | _ => exact nomatch huploading
  · obtain ⟨w, hw, hwup⟩ := List.any_eq_true.mp huploading
    have hflight := List.countP_eq_zero.mp (h.closing.quiet (by rw [hshutdown]; rfl)).2 w hw
    cases w with
    | uploading pair attempt => exact hflight rfl
    | _ => exact nomatch hwup

/-- Where the threads do not pass each other in one of the four ways, every accepted pair
is accounted for in every state, and a late `close` waits for no upload. -/
theorem accounted_of_guard (cfg : Config) (producers : Nat) (es : List Event)
    (h : Along (step cfg) (Guard cfg) (start cfg producers) es) :
    Always (step cfg) (fun s => Accounted cfg s ∧ (s.late = true → ¬ Waits cfg s))
      (start cfg producers) es := by
  have hinv : Always (step cfg) (Inv cfg) (start cfg producers) es :=
    Along.always (step cfg) step_inv (inv_start producers) h
  exact Always.mono (step cfg) (fun s hs => ⟨hs.accounted, hs.not_waits⟩) hinv

end

/-! ## Some runs -/

/-- One worker, and a queue of one. -/
def smallConfig (timed raiseOnFailure : Bool) : Config :=
  ⟨1, 1, 0, timed, raiseOnFailure, false⟩

def aFile : Pair := ("/out/a.sql", "c/a.sql")

/-- A pair is accepted, and abandoned when `close` runs out of time. -/
def abandonment : List Event :=
  [.upload 0 [aFile], .producer 0, .producer 0, .producer 0, .producer 0,
    .closer, .deadline, .drainTimeout, .closer, .closer, .closer,
    .worker 0 none, .worker 0 none, .closer, .closer, .closer, .closer, .closer]

theorem accounted_abandonment :
    (run (step (smallConfig true false)) (start (smallConfig true false) 1) abandonment).abandoned =
        [some aFile] ∧
      Always (step (smallConfig true false))
        (fun s => Accounted (smallConfig true false) s ∧
          (s.late = true → ¬ Waits (smallConfig true false) s))
        (start (smallConfig true false) 1) abandonment := by
  refine ⟨rfl, accounted_of_guard _ 1 abandonment ?_⟩
  have hnone : ∀ p : Producer, (∀ pair rest, p ≠ .putting pair rest) →
      ¬ ∃ pair rest, some p = some (Producer.putting pair rest) := by
    rintro p hp ⟨pair, rest, he⟩
    exact hp pair rest (Option.some.inj he)
  refine ⟨trivial, fun h => absurd h.2 (hnone _ nofun), fun h => absurd h.2 (hnone _ nofun),
    fun _ => ⟨by decide, fun _ _ h => nomatch h⟩, fun h => absurd h.2 (hnone _ nofun),
    trivial, trivial, trivial, rfl, Or.inl (by decide), trivial, trivial, trivial, trivial,
    trivial, trivial, trivial, trivial, trivial⟩

/-- A producer sees the queue open and is overtaken by a whole `close`. -/
def overtaken : List Event :=
  [.upload 0 [aFile], .producer 0, .producer 0,
    .closer, .closer, .closer, .worker 0 none, .worker 0 none, .closer, .closer, .closer, .closer,
    .closer, .producer 0, .producer 0]

/-- Its pair is accepted and lost, although `close` was to raise and returned. -/
theorem lost_behind_the_markers :
    ¬ Always (step (smallConfig false true))
      (fun s => Accounted (smallConfig false true) s ∧
        (s.late = true → ¬ Waits (smallConfig false true) s))
      (start (smallConfig false true) 1) overtaken := by
  intro h
  have hsettled := (Always.last (step (smallConfig false true)) h).1.ended (.ok ()) rfl aFile
  exact absurd hsettled (by decide)

end OSimFlow.Storage.UploadQueue
