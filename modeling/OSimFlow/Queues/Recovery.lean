import Mathlib.Data.List.Sort
import Mathlib.Data.List.TakeWhile
import Mathlib.Data.String.Basic
import OSimFlow.Lib.Dict
import OSimFlow.Lib.Run
import OSimFlow.Queues.Journal

/-!
# The filesystem job queue across crashes

The whole of `JobQueue`: four directories of job files, any of which may have
become unreadable. Every call is its list of file operations, and a crash cuts
the list anywhere. After a crash nothing happens before `recover`.

> `Restored`: what `recover` is to leave. Every enqueued job is in exactly one
> directory, none that finished is pending, and what is left in `in_progress`
> cannot be read.

`recovered_iff` says in which runs `recover` would leave that at any time. A job
is written to where it goes before it is removed from where it was. `recover`
repairs a cut between the two for a job on its way to `in_progress` or back. It
does not look into `completed` and `failed`; and it stops at the first file of
`in_progress` that it cannot read (`Tidy`).
-/

namespace OSimFlow.Queues

open OSimFlow.Lib

/-- A job file: a record, or something that `_read_job` raises for. -/
inductive JobFile (Payload : Type) where
  | record (record : JobRecord Payload)
  | corrupt (error : String)
deriving DecidableEq

/-- `_read_job`. -/
def JobFile.read {Payload : Type} : JobFile Payload → Except PyError (JobRecord Payload)
  | record r => .ok r
  | corrupt error => .error (.exception error)

/-- `f"{job_id}.json"`. -/
def fileName (id : String) : String :=
  id ++ ".json"

/-- One operation on the file system. -/
inductive FileOp (Payload : Type) where
  | writeTmp (state : JobState) (id : String) (record : JobRecord Payload)
  | rename (state : JobState) (id : String)
  | unlink (state : JobState) (id : String)

/-- The directories. What was ever enqueued, and what has finished, is noted. -/
structure JobQueue (Payload : Type) where
  files : JobState → Dict String (JobFile Payload)
  tmp : JobState → Dict String (JobRecord Payload)
  /-- The process crashed and did not recover yet. -/
  down : Bool
  enqueued : List String
  finished : List String

/-- The calls. `listing` is the order in which `glob` finds the pending files. -/
inductive QueueCall (Payload : Type) where
  | enqueue (id : String) (payload : Payload) (priority now : Int)
  | dequeue (listing : List String) (now : Int)
  | markCompleted (id : String) (now : Int)
  | markFailed (id error : String) (now : Int)
  | recover

def QueueCall.isRecover {Payload : Type} : QueueCall Payload → Bool
  | recover => true
  | _ => false

/-- A call, cut by a crash after so many file operations; or a file goes bad. -/
inductive QueueEvent (Payload : Type) where
  | call (c : QueueCall Payload) (cut : Option Nat)
  | corrupt (state : JobState) (id error : String)

namespace JobQueue

variable {Payload : Type}

def start : JobQueue Payload where
  files := fun _ => ∅
  tmp := fun _ => ∅
  down := false
  enqueued := []
  finished := []

section

variable (q : JobQueue Payload)

/-- `<state>/<job_id>.json`. -/
def file (state : JobState) (id : String) : Option (JobFile Payload) :=
  (q.files state).get? id

/-- A job file with a record is there. -/
def put (state : JobState) (id : String) (record : JobRecord Payload) : JobQueue Payload :=
  { q with
    files := Function.update q.files state ((q.files state).set id (.record record))
    enqueued := if state = .pending then id :: q.enqueued else q.enqueued
    finished := if state = .completed ∨ state = .failed then id :: q.finished else q.finished }

/-- A job file is gone. -/
def drop (state : JobState) (id : String) : JobQueue Payload :=
  { q with files := Function.update q.files state ((q.files state).erase id) }

def perform : FileOp Payload → JobQueue Payload
  | .writeTmp state id record =>
    { q with tmp := Function.update q.tmp state ((q.tmp state).set id record) }
  | .rename state id =>
    match (q.tmp state).get? id with
    | some record =>
      { q.put state id record with
        tmp := Function.update q.tmp state ((q.tmp state).erase id) }
    | none => q
  | .unlink state id => q.drop state id

def performAll (ops : List (FileOp Payload)) : JobQueue Payload :=
  ops.foldl perform q

/-- `_write_job`, then the unlink of where the job was. -/
def moveOps (dst src : JobState) (id : String) (record : JobRecord Payload) :
    List (FileOp Payload) :=
  [.writeTmp dst id record, .rename dst id, .unlink src id]

/-- `_find_job`. -/
def findJob (id : String) : Option JobState :=
  [.pending, .inProgress, .completed, .failed].find? fun state => (q.file state id).isSome

/-- `enqueue`. -/
def enqueue (id : String) (payload : Payload) (priority now : Int) :
    List (FileOp Payload) × JobState :=
  match q.findJob id with
  | some state => ([], state)
  | none =>
    ([.writeTmp .pending id
        { state := .pending
          payload := payload
          priority := priority
          createdAt := now
          startedAt := none
          completedAt := none
          error := none },
      .rename .pending id], .pending)

/-- `(-priority, created_at)`, compared. -/
def before {Payload : Type} (a b : String × JobRecord Payload) : Prop :=
  b.2.priority < a.2.priority ∨ (b.2.priority = a.2.priority ∧ a.2.createdAt ≤ b.2.createdAt)

instance : DecidableRel (@before Payload) :=
  fun a b => inferInstanceAs (Decidable (b.2.priority < a.2.priority ∨
    (b.2.priority = a.2.priority ∧ a.2.createdAt ≤ b.2.createdAt)))

/-- A pending job that can be read. -/
def pendingJob (id : String) : Option (String × JobRecord Payload) :=
  match q.file .pending id with
  | some (.record record) => some (id, record)
  | _ => none

/-- The job `dequeue` picks up. -/
def nextJob (listing : List String) : Option (String × JobRecord Payload) :=
  ((listing.filterMap q.pendingJob).insertionSort before).head?

/-- `dequeue`. -/
def dequeue (listing : List String) (now : Int) :
    List (FileOp Payload) × Option (String × JobRecord Payload) :=
  match q.nextJob listing with
  | none => ([], none)
  | some (id, record) =>
    let record' := { record with state := .inProgress, startedAt := some now }
    (moveOps .inProgress .pending id record', some (id, record'))

/-- The file a transition starts from. -/
def active (id : String) : Option (JobState × JobFile Payload) :=
  match q.file .pending id with
  | some f => some (.pending, f)
  | none => (q.file .inProgress id).map fun f => (.inProgress, f)

/-- `_transition_from_any`. -/
def transitionFromAny (id : String) (toState : JobState) (error : Option String) (now : Int) :
    List (FileOp Payload) × Except PyError Unit :=
  match q.active id with
  | none => ([], .ok ())
  | some (src, f) =>
    match f.read with
    | .error e => ([], .error e)
    | .ok record => (moveOps toState src id (JobFiles.moved record toState error now), .ok ())

/-- The files of `recover`, in order. -/
def sortedInProgress : List String :=
  (q.files .inProgress).keys.insertionSort fun a b => fileName a ≤ fileName b

/-- The loop of `recover`. -/
def recoverLoop : List String →
    List (FileOp Payload) × Except PyError (List (String × JobRecord Payload))
  | [] => ([], .ok [])
  | id :: ids =>
    match q.file .inProgress id with
    | some (.record record) =>
      let record' := { record with state := .pending, startedAt := none }
      let rest := recoverLoop ids
      (moveOps .pending .inProgress id record' ++ rest.1, rest.2.map fun l => (id, record') :: l)
    | some (.corrupt error) => ([], .error (.exception error))
    | none => ([], .error (.exception "file not found"))

/-- `recover`. -/
def recover : List (FileOp Payload) × Except PyError (List (String × JobRecord Payload)) :=
  q.recoverLoop q.sortedInProgress

/-- The file operations of a call. -/
def ops : QueueCall Payload → List (FileOp Payload)
  | .enqueue id payload priority now => (q.enqueue id payload priority now).1
  | .dequeue listing now =>
    if listing.Perm (q.files .pending).keys then (q.dequeue listing now).1 else []
  | .markCompleted id now => (q.transitionFromAny id .completed none now).1
  | .markFailed id error now => (q.transitionFromAny id .failed (some error) now).1
  | .recover => q.recover.1

end

def step (q : JobQueue Payload) : QueueEvent Payload → JobQueue Payload
  | .call c cut =>
    -- a process that is down only recovers
    if q.down = false ∨ c.isRecover = true then
      match cut with
      | some n => { q.performAll ((q.ops c).take n) with down := true }
      | none => { q.performAll (q.ops c) with down := false }
    else q
  | .corrupt state id error =>
    if (q.file state id).isSome then
      { q with files := Function.update q.files state ((q.files state).set id (.corrupt error)) }
    else q

/-- The queue after `recover`. -/
def recovered (q : JobQueue Payload) : JobQueue Payload :=
  q.performAll q.recover.1

/-- What `recover` is to leave. -/
structure Restored (q : JobQueue Payload) : Prop where
  once : ∀ id ∈ q.enqueued, ∃ state, (q.file state id).isSome ∧
    ∀ state', (q.file state' id).isSome → state' = state
  finished : ∀ id ∈ q.finished, q.file .pending id = none
  reset : ∀ id record, q.file .inProgress id ≠ some (.record record)

/-- The step leaves nothing that `recover` cannot repair. -/
def Repairable (q : JobQueue Payload) : QueueEvent Payload → Prop
  | .call (.markCompleted id _) cut => q.down = false →
      (∃ src record, q.active id = some (src, .record record)) → cut ≠ some 2
  | .call (.markFailed id _ _) cut => q.down = false →
      (∃ src record, q.active id = some (src, .record record)) → cut ≠ some 2
  | .call (.dequeue listing _) cut => q.down = false → listing.Perm (q.files .pending).keys →
      cut ≠ some 0 → cut ≠ some 1 → ∀ id record, q.nextJob listing = some (id, record) →
      ∀ id' error, q.file .inProgress id' = some (.corrupt error) → fileName id < fileName id'
  | .corrupt .inProgress id _ => (q.file .inProgress id).isSome →
      q.file .pending id = none ∧ ∀ id' record, id' ≠ id →
        q.file .inProgress id' = some (.record record) → fileName id' < fileName id
  | _ => True

/-! ## What the file operations do -/

section

variable {q : JobQueue Payload}

theorem file_put (state state' : JobState) (id id' : String) (record : JobRecord Payload) :
    (q.put state id record).file state' id' =
      if state' = state ∧ id' = id then some (.record record) else q.file state' id' := by
  show (Function.update q.files state _ state').get? id' = _
  by_cases hs : state' = state
  · subst hs
    rw [Function.update_self, Dict.get?_set]
    by_cases hid : id = id'
    · rw [if_pos hid, if_pos ⟨rfl, hid.symm⟩]
    · rw [if_neg hid, if_neg fun h => hid h.2.symm]
      rfl
  · rw [Function.update_of_ne hs, if_neg fun h => hs h.1]
    rfl

theorem file_drop (state state' : JobState) (id id' : String) :
    (q.drop state id).file state' id' =
      if state' = state ∧ id' = id then none else q.file state' id' := by
  show (Function.update q.files state _ state').get? id' = _
  by_cases hs : state' = state
  · subst hs
    rw [Function.update_self, Dict.get?_erase]
    by_cases hid : id = id'
    · rw [if_pos hid, if_pos ⟨rfl, hid.symm⟩]
    · rw [if_neg hid, if_neg fun h => hid h.2.symm]
      rfl
  · rw [Function.update_of_ne hs, if_neg fun h => hs h.1]
    rfl

theorem performAll_append (ops ops' : List (FileOp Payload)) :
    q.performAll (ops ++ ops') = (q.performAll ops).performAll ops' :=
  List.foldl_append

/-- A write and a rename put the record there. -/
theorem performAll_write (state : JobState) (id : String) (record : JobRecord Payload) :
    ∃ tmp, q.performAll [.writeTmp state id record, .rename state id] =
      { q.put state id record with tmp := tmp } := by
  refine ⟨Function.update (Function.update q.tmp state ((q.tmp state).set id record)) state
    (((q.tmp state).set id record).erase id), ?_⟩
  show perform (perform q _) (.rename state id) = _
  rw [perform, perform]
  simp only [Function.update_self, Dict.get?_set_self]
  rfl

/-- A move that is cut: nothing done, the job in both places, or all of it. -/
def cutMove (q : JobQueue Payload) (dst src : JobState) (id : String)
    (record : JobRecord Payload) (n : Nat) : JobQueue Payload :=
  if n ≤ 1 then q
  else if n = 2 then q.put dst id record
  else (q.put dst id record).drop src id

theorem performAll_move (dst src : JobState) (id : String) (record : JobRecord Payload)
    (n : Nat) : ∃ tmp, q.performAll ((moveOps dst src id record).take n) =
      { q.cutMove dst src id record n with tmp := tmp } := by
  match n with
  | 0 => exact ⟨q.tmp, rfl⟩
  | 1 => exact ⟨_, rfl⟩
  | 2 =>
    obtain ⟨tmp, htmp⟩ := q.performAll_write dst id record
    exact ⟨tmp, htmp⟩
  | n + 3 =>
    obtain ⟨tmp, htmp⟩ := q.performAll_write dst id record
    refine ⟨tmp, ?_⟩
    have hall : (moveOps dst src id record).take (n + 3) =
        [.writeTmp dst id record, .rename dst id] ++ [.unlink src id] := by
      simp [moveOps]
    rw [hall, performAll_append, htmp, cutMove, if_neg (by omega), if_neg (by omega)]
    rfl

end

/-! ## The invariants -/

/-- In any run: the files are those of enqueued jobs, each has one, and a finished job
one in `completed` or `failed`. -/
structure Known (q : JobQueue Payload) : Prop where
  enqueued : ∀ state id, (q.file state id).isSome → id ∈ q.enqueued
  present : ∀ id ∈ q.enqueued, ∃ state, (q.file state id).isSome
  finished : ∀ id ∈ q.finished, ∃ state, (state = .completed ∨ state = .failed) ∧
    (q.file state id).isSome

/-- What `recover` can repair: a finished job has one file, and a file of `in_progress`
that cannot be read comes after all that can, and has no other. -/
structure Tidy (q : JobQueue Payload) : Prop where
  finished : ∀ state id, state = .completed ∨ state = .failed → (q.file state id).isSome →
    ∀ state', (q.file state' id).isSome → state' = state
  last : ∀ id error id' record, q.file .inProgress id = some (.corrupt error) →
    q.file .inProgress id' = some (.record record) → fileName id' < fileName id
  single : ∀ id error, q.file .inProgress id = some (.corrupt error) → q.file .pending id = none

/-- No job is on its way. -/
def Settled (q : JobQueue Payload) : Prop :=
  ∀ id, q.file .pending id = none ∨ q.file .inProgress id = none

section

variable {q q' : JobQueue Payload}

theorem Known.congr (hk : q.Known) (hf : q'.files = q.files) (he : q'.enqueued = q.enqueued)
    (hd : q'.finished = q.finished) : q'.Known := by
  have hfile : q'.file = q.file := by
    funext state id
    rw [file, hf]
    rfl
  refine ⟨?_, ?_, ?_⟩
  · rw [hfile, he]
    exact hk.enqueued
  · rw [hfile, he]
    exact hk.present
  · rw [hfile, hd]
    exact hk.finished

theorem Tidy.congr (ht : q.Tidy) (hf : q'.files = q.files) : q'.Tidy := by
  have hfile : q'.file = q.file := by
    funext state id
    rw [file, hf]
    rfl
  refine ⟨?_, ?_, ?_⟩
  · rw [hfile]
    exact ht.finished
  · rw [hfile]
    exact ht.last
  · rw [hfile]
    exact ht.single

theorem Known.put (hk : q.Known) {state : JobState} {id : String}
    (h : state = .pending ∨ id ∈ q.enqueued) (record : JobRecord Payload) :
    (q.put state id record).Known := by
  have henq : ∀ id', id' ∈ (q.put state id record).enqueued ↔ id' = id ∨ id' ∈ q.enqueued := by
    intro id'
    show id' ∈ (if state = .pending then id :: q.enqueued else q.enqueued) ↔ _
    by_cases hs : state = .pending
    · rw [if_pos hs, List.mem_cons]
    · rw [if_neg hs]
      refine ⟨Or.inr, ?_⟩
      rintro (rfl | hm)
      · exact h.resolve_left hs
      · exact hm
  have hsome : ∀ state' id', (q.file state' id').isSome →
      ((q.put state id record).file state' id').isSome := by
    intro state' id' hf
    rw [file_put]
    split
    · rfl
    · exact hf
  have hself : ((q.put state id record).file state id).isSome := by
    rw [file_put, if_pos ⟨rfl, rfl⟩]
    rfl
  refine ⟨fun state' id' hf => ?_, fun id' hm => ?_, fun id' hm => ?_⟩
  · rw [henq]
    rw [file_put] at hf
    by_cases heq : state' = state ∧ id' = id
    · exact Or.inl heq.2
    · rw [if_neg heq] at hf
      exact Or.inr (hk.enqueued state' id' hf)
  · rcases (henq id').mp hm with rfl | hm
    · exact ⟨state, hself⟩
    · obtain ⟨state', hf⟩ := hk.present id' hm
      exact ⟨state', hsome state' id' hf⟩
  · have hm' : id' ∈ (if state = .completed ∨ state = .failed then id :: q.finished
        else q.finished) := hm
    have hold : id' ∈ q.finished → ∃ state', (state' = .completed ∨ state' = .failed) ∧
        ((q.put state id record).file state' id').isSome := by
      intro hm
      obtain ⟨state', hs, hf⟩ := hk.finished id' hm
      exact ⟨state', hs, hsome state' id' hf⟩
    by_cases hs : state = .completed ∨ state = .failed
    · rw [if_pos hs] at hm'
      rcases List.mem_cons.mp hm' with rfl | hm'
      · exact ⟨state, hs, hself⟩
      · exact hold hm'
    · rw [if_neg hs] at hm'
      exact hold hm'

/-- A file is dropped where the job has another. -/
theorem Known.drop (hk : q.Known) {src dst : JobState} {id : String}
    (hsrc : src = .pending ∨ src = .inProgress) (hne : dst ≠ src)
    (hdst : (q.file dst id).isSome) : (q.drop src id).Known := by
  refine ⟨fun state id' hf => ?_, fun id' hm => ?_, fun id' hm => ?_⟩
  · rw [file_drop] at hf
    split at hf
    · exact nomatch hf
    · exact hk.enqueued state id' hf
  · by_cases hid : id' = id
    · refine ⟨dst, ?_⟩
      rw [file_drop, if_neg fun h => hne h.1, hid]
      exact hdst
    · obtain ⟨state, hf⟩ := hk.present id' hm
      refine ⟨state, ?_⟩
      rw [file_drop, if_neg fun h => hid h.2]
      exact hf
  · obtain ⟨state, hs, hf⟩ := hk.finished id' hm
    refine ⟨state, hs, ?_⟩
    rw [file_drop, if_neg]
    · exact hf
    · rintro ⟨rfl, -⟩
      rcases hs with rfl | rfl
      · exact hsrc.elim nofun nofun
      · exact hsrc.elim nofun nofun

/-- A move keeps what is known of the jobs, wherever it is cut. -/
theorem Known.move (hk : q.Known) {src dst : JobState} {id : String}
    (hsrc : src = .pending ∨ src = .inProgress) (hne : dst ≠ src)
    (hf : (q.file src id).isSome) (record : JobRecord Payload) (n : Nat) :
    (q.performAll ((moveOps dst src id record).take n)).Known := by
  obtain ⟨tmp, htmp⟩ := q.performAll_move dst src id record n
  have hput : (q.put dst id record).Known := hk.put (Or.inr (hk.enqueued src id hf)) record
  rw [htmp]
  refine Known.congr (q := q.cutMove dst src id record n) ?_ rfl rfl rfl
  rw [cutMove]
  split
  · exact hk
  · split
    · exact hput
    · refine hput.drop hsrc hne ?_
      rw [file_put, if_pos ⟨rfl, rfl⟩]
      rfl

theorem Tidy.drop (ht : q.Tidy) (src : JobState) (id : String) : (q.drop src id).Tidy := by
  have hbefore : ∀ {state : JobState} {id' : String} {f : JobFile Payload},
      (q.drop src id).file state id' = some f → q.file state id' = some f := by
    intro state id' f h
    rw [file_drop] at h
    split at h
    · exact nomatch h
    · exact h
  have hsome : ∀ {state : JobState} {id' : String},
      ((q.drop src id).file state id').isSome → (q.file state id').isSome := by
    intro state id' h
    obtain ⟨f, hf⟩ := Option.isSome_iff_exists.mp h
    rw [hbefore hf]
    rfl
  refine ⟨fun state id' hs hf state' hf' => ?_, fun id' error id'' record hc hr => ?_,
    fun id' error hc => ?_⟩
  · exact ht.finished state id' hs (hsome hf) state' (hsome hf')
  · exact ht.last id' error id'' record (hbefore hc) (hbefore hr)
  · rw [file_drop, ht.single id' error (hbefore hc)]
    split
    · rfl
    · rfl

/-- A job that has no file in `completed` or `failed` gets a pending one. -/
theorem Tidy.putPending (ht : q.Tidy) {id : String}
    (hnone : ∀ state, state = .completed ∨ state = .failed → q.file state id = none)
    (hread : ∀ error, q.file .inProgress id ≠ some (.corrupt error))
    (record : JobRecord Payload) : (q.put .pending id record).Tidy := by
  have hother : ∀ (state : JobState) (id' : String), state ≠ .pending →
      (q.put .pending id record).file state id' = q.file state id' := by
    intro state id' hs
    rw [file_put, if_neg fun h => hs h.1]
  refine ⟨fun state id' hs hf state' hf' => ?_, fun id' error id'' record' hc hr => ?_,
    fun id' error hc => ?_⟩
  · have hne : state ≠ .pending := hs.elim (fun h => by rw [h]; nofun) fun h => by rw [h]; nofun
    rw [hother state id' hne] at hf
    have hid : id' ≠ id := by
      rintro rfl
      rw [hnone state hs] at hf
      exact nomatch hf
    rw [file_put, if_neg fun h => hid h.2] at hf'
    exact ht.finished state id' hs hf state' hf'
  · rw [hother .inProgress _ nofun] at hc hr
    exact ht.last id' error id'' record' hc hr
  · rw [hother .inProgress _ nofun] at hc
    have hid : id' ≠ id := by
      rintro rfl
      exact hread error hc
    rw [file_put, if_neg fun h => hid h.2]
    exact ht.single id' error hc

/-- The file that `recover` finds can be read. -/
def readable (q : JobQueue Payload) (id : String) : Bool :=
  match q.file .inProgress id with
  | some (.record _) => true
  | _ => false

theorem readable_iff {id : String} :
    q.readable id = true ↔ ∃ record, q.file .inProgress id = some (.record record) := by
  rw [readable]
  cases hf : q.file .inProgress id with
  | none => simp
  | some f => cases f <;> simp

/-- One job is reset, or half so. -/
theorem Tidy.reset (ht : q.Tidy) {id : String} {record' : JobRecord Payload}
    (hf : q.file .inProgress id = some (.record record')) (record : JobRecord Payload) (n : Nat) :
    (q.performAll ((moveOps .pending .inProgress id record).take n)).Tidy := by
  obtain ⟨tmp, htmp⟩ := q.performAll_move .pending .inProgress id record n
  have hput : (q.put .pending id record).Tidy := by
    refine ht.putPending (fun state hs => ?_) (fun error he => ?_) record
    · by_contra hne
      have hsome : (q.file state id).isSome := Option.isSome_iff_ne_none.mpr hne
      have heq := ht.finished state id hs hsome .inProgress (by rw [hf]; rfl)
      rcases hs with rfl | rfl
      · exact nomatch heq
      · exact nomatch heq
    · rw [hf] at he
      exact nomatch he
  rw [htmp]
  refine Tidy.congr (q := q.cutMove .pending .inProgress id record n) ?_ rfl
  rw [cutMove]
  split
  · exact ht
  · split
    · exact hput
    · exact hput.drop .inProgress id

/-- The files after a move that is not cut. -/
theorem file_move {dst src : JobState} (hne : dst ≠ src) (id : String)
    (record : JobRecord Payload) {n : Nat} (hn : 3 ≤ n) (state : JobState) (id' : String) :
    (q.performAll ((moveOps dst src id record).take n)).file state id' =
      if id' = id ∧ state = dst then some (.record record)
      else if id' = id ∧ state = src then none else q.file state id' := by
  obtain ⟨tmp, htmp⟩ := q.performAll_move dst src id record n
  rw [htmp, cutMove, if_neg (by omega), if_neg (by omega)]
  show ((q.put dst id record).drop src id).file state id' = _
  rw [file_drop, file_put]
  by_cases hid : id' = id
  · by_cases hd : state = dst
    · have hs : state ≠ src := hd ▸ hne
      rw [if_neg fun h => hs h.1, if_pos ⟨hd, hid⟩, if_pos ⟨hid, hd⟩]
    · rw [if_neg (fun h => hd h.2 : ¬ (id' = id ∧ state = dst))]
      by_cases hs : state = src
      · rw [if_pos ⟨hs, hid⟩, if_pos ⟨hid, hs⟩]
      · rw [if_neg fun h => hs h.1, if_neg fun h => hd h.1, if_neg fun h => hs h.2]
  · rw [if_neg fun h => hid h.2, if_neg fun h => hid h.2, if_neg fun h => hid h.1,
      if_neg fun h => hid h.1]

theorem file_reset (id : String) (record : JobRecord Payload) {n : Nat} (hn : 3 ≤ n)
    (state : JobState) (id' : String) :
    (q.performAll ((moveOps .pending .inProgress id record).take n)).file state id' =
      if id' = id ∧ state = .pending then some (.record record)
      else if id' = id ∧ state = .inProgress then none else q.file state id' :=
  file_move (nofun : JobState.pending ≠ .inProgress) id record hn state id'

theorem recoverLoop_record {id : String} {ids : List String} {record : JobRecord Payload}
    (hf : q.file .inProgress id = some (.record record)) :
    (q.recoverLoop (id :: ids)).1 =
      moveOps .pending .inProgress id { record with state := .pending, startedAt := none } ++
        (q.recoverLoop ids).1 := by
  rw [recoverLoop, hf]

theorem recoverLoop_stop {id : String} {ids : List String} (hr : q.readable id ≠ true) :
    (q.recoverLoop (id :: ids)).1 = [] := by
  rw [recoverLoop]
  cases hf : q.file .inProgress id with
  | none => rfl
  | some f =>
    cases f with
    | record record => exact absurd (readable_iff.mpr ⟨record, hf⟩) hr
    | corrupt error => rfl

/-- Wherever `recover` is cut, the queue stays tidy. -/
theorem recoverLoop_take {ids : List String} (hnodup : ids.Nodup) (n : Nat)
    (hsame : ∀ id ∈ ids, q'.file .inProgress id = q.file .inProgress id)
    (hk : q'.Known) (ht : q'.Tidy) :
    (q'.performAll ((q.recoverLoop ids).1.take n)).Known ∧
      (q'.performAll ((q.recoverLoop ids).1.take n)).Tidy := by
  induction ids generalizing q' n with
  | nil =>
    have hnil : ((q.recoverLoop []).1.take n) = [] := List.take_nil
    rw [hnil]
    exact ⟨hk, ht⟩
  | cons id ids ih =>
    by_cases hr : q.readable id = true
    · obtain ⟨record, hf⟩ := readable_iff.mp hr
      have hf' : q'.file .inProgress id = some (.record record) :=
        (hsame id List.mem_cons_self).trans hf
      rw [recoverLoop_record hf, List.take_append, performAll_append]
      have hk' := hk.move (Or.inr rfl) (by nofun : JobState.pending ≠ .inProgress)
        (by rw [hf']; rfl) { record with state := .pending, startedAt := none } n
      have ht' := ht.reset hf' { record with state := .pending, startedAt := none } n
      obtain ⟨hnot, hrest⟩ := List.nodup_cons.mp hnodup
      by_cases hn : n ≤ 3
      · have hzero : n - (moveOps .pending .inProgress id
            { record with state := .pending, startedAt := none }).length = 0 := by
          show n - 3 = 0
          omega
        rw [hzero, List.take_zero]
        exact ⟨hk', ht'⟩
      · refine ih hrest _ (fun id' hm => ?_) hk' ht'
        have hid : id' ≠ id := fun h => hnot (h ▸ hm)
        rw [file_reset _ _ (by omega), if_neg fun h => hid h.1, if_neg fun h => hid h.1]
        exact hsame id' (List.mem_cons_of_mem id hm)
    · rw [recoverLoop_stop hr, List.take_nil]
      exact ⟨hk, ht⟩

/-- A job that `recover` does not get to keeps its files. -/
theorem recoverLoop_untouched (q' : JobQueue Payload) {ids : List String} {id' : String}
    (hnot : id' ∉ ids.takeWhile q.readable) (state : JobState) :
    (q'.performAll (q.recoverLoop ids).1).file state id' = q'.file state id' := by
  induction ids generalizing q' with
  | nil => rfl
  | cons id ids ih =>
    by_cases hr : q.readable id = true
    · obtain ⟨record, hf⟩ := readable_iff.mp hr
      rw [List.takeWhile_cons_of_pos hr, List.mem_cons, not_or] at hnot
      have hall : moveOps .pending .inProgress id
          { record with state := .pending, startedAt := none } =
          (moveOps .pending .inProgress id
            { record with state := .pending, startedAt := none }).take 3 := rfl
      rw [recoverLoop_record hf, performAll_append, ih _ hnot.2, hall,
        file_reset _ _ (le_refl 3), if_neg fun h => hnot.1 h.1, if_neg fun h => hnot.1 h.1]
    · rw [recoverLoop_stop hr]
      rfl

/-- A job that it gets to is pending, and not in progress. -/
theorem recoverLoop_reset (q' : JobQueue Payload) {ids : List String} (hnodup : ids.Nodup)
    {id' : String} (hm : id' ∈ ids.takeWhile q.readable) :
    ((q'.performAll (q.recoverLoop ids).1).file .pending id').isSome ∧
      (q'.performAll (q.recoverLoop ids).1).file .inProgress id' = none ∧
      ∀ state, state = .completed ∨ state = .failed →
        (q'.performAll (q.recoverLoop ids).1).file state id' = q'.file state id' := by
  induction ids generalizing q' with
  | nil => exact nomatch hm
  | cons id ids ih =>
    by_cases hr : q.readable id = true
    · obtain ⟨record, hf⟩ := readable_iff.mp hr
      obtain ⟨hnot, hrest⟩ := List.nodup_cons.mp hnodup
      rw [List.takeWhile_cons_of_pos hr, List.mem_cons] at hm
      have hall : moveOps .pending .inProgress id
          { record with state := .pending, startedAt := none } =
          (moveOps .pending .inProgress id
            { record with state := .pending, startedAt := none }).take 3 := rfl
      rw [recoverLoop_record hf, performAll_append]
      by_cases hid : id' = id
      · subst hid
        have hlater : id' ∉ ids.takeWhile q.readable :=
          fun h => hnot ((List.takeWhile_sublist _).subset h)
        rw [recoverLoop_untouched _ hlater, recoverLoop_untouched _ hlater, hall,
          file_reset _ _ (le_refl 3), file_reset _ _ (le_refl 3), if_pos ⟨rfl, rfl⟩,
          if_neg (fun h => nomatch h.2), if_pos ⟨rfl, rfl⟩]
        refine ⟨rfl, rfl, fun state hs => ?_⟩
        rw [recoverLoop_untouched _ hlater, file_reset _ _ (le_refl 3)]
        rcases hs with rfl | rfl
        · rw [if_neg (fun h => nomatch h.2), if_neg (fun h => nomatch h.2)]
        · rw [if_neg (fun h => nomatch h.2), if_neg (fun h => nomatch h.2)]
      · obtain ⟨hp, hi, hs⟩ := ih (q'.performAll (moveOps .pending .inProgress id
          { record with state := .pending, startedAt := none })) hrest (hm.resolve_left hid)
        refine ⟨hp, hi, fun state hst => ?_⟩
        rw [hs state hst, hall, file_reset _ _ (le_refl 3), if_neg fun h => hid h.1,
          if_neg fun h => hid h.1]
    · rw [List.takeWhile_cons_of_neg hr] at hm
      exact nomatch hm

/-! ## What `recover` leaves -/

/-- In a sorted list, what meets `p` and is not in the first stretch that does has
something before it that does not. -/
theorem exists_before {α : Type} {R : α → α → Prop} {p : α → Bool} {l : List α}
    (hl : l.Pairwise R) {x : α} (hx : x ∈ l) (hp : p x = true) (hnot : x ∉ l.takeWhile p) :
    ∃ y ∈ l, p y ≠ true ∧ R y x := by
  induction l with
  | nil => exact nomatch hx
  | cons a l ih =>
    obtain ⟨ha, hrest⟩ := List.pairwise_cons.mp hl
    by_cases hpa : p a = true
    · rw [List.takeWhile_cons_of_pos hpa, List.mem_cons, not_or] at hnot
      obtain ⟨y, hy, hpy, hr⟩ := ih hrest ((List.mem_cons.mp hx).resolve_left hnot.1) hnot.2
      exact ⟨y, List.mem_cons_of_mem a hy, hpy, hr⟩
    · have hne : x ≠ a := by
        rintro rfl
        exact hpa hp
      exact ⟨a, List.mem_cons_self, hpa, ha x ((List.mem_cons.mp hx).resolve_left hne)⟩

theorem rel_of_mem_takeWhile {α : Type} {R : α → α → Prop} {p : α → Bool} {l : List α}
    (hl : l.Pairwise R) {x y : α} (hx : x ∈ l.takeWhile p) (hy : y ∈ l) (hp : p y ≠ true) :
    R x y := by
  induction l with
  | nil => exact nomatch hy
  | cons a l ih =>
    obtain ⟨ha, hrest⟩ := List.pairwise_cons.mp hl
    by_cases hpa : p a = true
    · have hne : y ≠ a := by
        rintro rfl
        exact hp hpa
      have hy' := (List.mem_cons.mp hy).resolve_left hne
      rw [List.takeWhile_cons_of_pos hpa, List.mem_cons] at hx
      rcases hx with rfl | hx
      · exact ha y hy'
      · exact ih hrest hx hy'
    · rw [List.takeWhile_cons_of_neg hpa] at hx
      exact nomatch hx

theorem mem_sortedInProgress {id : String} :
    id ∈ q.sortedInProgress ↔ (q.file .inProgress id).isSome := by
  rw [sortedInProgress, List.mem_insertionSort, file, Option.isSome_iff_exists]
  constructor
  · intro hm
    obtain ⟨⟨id', f⟩, hitem, rfl⟩ := List.mem_map.mp hm
    exact ⟨f, Dict.mem_items.mp hitem⟩
  · rintro ⟨f, hf⟩
    exact Dict.mem_keys_of_get? hf

theorem nodup_sortedInProgress : q.sortedInProgress.Nodup :=
  (List.perm_insertionSort _ _).nodup_iff.mpr (q.files .inProgress).nodup

theorem pairwise_sortedInProgress :
    q.sortedInProgress.Pairwise fun a b => fileName a ≤ fileName b := by
  have htotal : Std.Total fun a b : String => fileName a ≤ fileName b :=
    ⟨fun a b => le_total (fileName a) (fileName b)⟩
  have htrans : IsTrans String fun a b => fileName a ≤ fileName b :=
    ⟨fun _ _ _ => le_trans⟩
  exact List.pairwise_insertionSort _ _

theorem fileName_inj {a b : String} (h : fileName a = fileName b) : a = b := by
  have hl : a.toList ++ ".json".toList = b.toList ++ ".json".toList := by
    rw [← String.toList_append, ← String.toList_append]
    exact congrArg String.toList h
  exact String.toList_inj.mp (List.append_cancel_right hl)

theorem corrupt_of_unreadable {id : String} (hf : (q.file .inProgress id).isSome)
    (hr : q.readable id ≠ true) : ∃ error, q.file .inProgress id = some (.corrupt error) := by
  obtain ⟨f, hf⟩ := Option.isSome_iff_exists.mp hf
  cases f with
  | record record => exact absurd (readable_iff.mpr ⟨record, hf⟩) hr
  | corrupt error => exact ⟨error, hf⟩

/-- `recover` cut anywhere, or not at all. -/
theorem recover_take (hk : q.Known) (ht : q.Tidy) (n : Nat) :
    (q.performAll (q.recover.1.take n)).Known ∧ (q.performAll (q.recover.1.take n)).Tidy :=
  recoverLoop_take nodup_sortedInProgress n (fun _ _ => rfl) hk ht

theorem recovered_tidy (hk : q.Known) (ht : q.Tidy) : q.recovered.Known ∧ q.recovered.Tidy := by
  have h := recover_take hk ht q.recover.1.length
  rw [List.take_length] at h
  exact h

/-- In a tidy queue, `recover` gets to everything that can be read. -/
theorem recovered_unreadable (ht : q.Tidy) {id : String} {f : JobFile Payload}
    (hf : q.recovered.file .inProgress id = some f) :
    ∃ error, f = .corrupt error ∧ q.file .inProgress id = some f := by
  have hnot : id ∉ q.sortedInProgress.takeWhile q.readable := by
    intro hm
    have hnone := (recoverLoop_reset q nodup_sortedInProgress hm).2.1
    exact nomatch hnone.symm.trans hf
  have hbefore : q.file .inProgress id = some f :=
    (recoverLoop_untouched q hnot .inProgress).symm.trans hf
  cases f with
  | corrupt error => exact ⟨error, rfl, hbefore⟩
  | record record =>
    have hmem : id ∈ q.sortedInProgress := mem_sortedInProgress.mpr (by rw [hbefore]; rfl)
    obtain ⟨id', hm, hr, hle⟩ := exists_before pairwise_sortedInProgress hmem
      (readable_iff.mpr ⟨record, hbefore⟩) hnot
    obtain ⟨error, hc⟩ := corrupt_of_unreadable (mem_sortedInProgress.mp hm) hr
    exact absurd (ht.last id' error id record hc hbefore) (not_lt.mpr hle)

/-- `recover` removes no file of the other directories. -/
theorem recovered_isSome {state : JobState} {id : String} (hs : state ≠ .inProgress)
    (hf : (q.file state id).isSome) : (q.recovered.file state id).isSome := by
  by_cases hm : id ∈ q.sortedInProgress.takeWhile q.readable
  · obtain ⟨hp, -, hother⟩ := recoverLoop_reset q nodup_sortedInProgress hm
    cases state with
    | pending => exact hp
    | inProgress => exact absurd rfl hs
    | completed =>
      have heq := hother .completed (Or.inl rfl)
      exact (congrArg Option.isSome heq).trans hf
    | failed =>
      have heq := hother .failed (Or.inr rfl)
      exact (congrArg Option.isSome heq).trans hf
  · have heq := recoverLoop_untouched q hm state
    exact (congrArg Option.isSome heq).trans hf

/-- A job in progress is pending after, or where it was. -/
theorem recovered_inProgress {id : String} (hf : (q.file .inProgress id).isSome) :
    (q.recovered.file .pending id).isSome ∨ (q.recovered.file .inProgress id).isSome := by
  by_cases hm : id ∈ q.sortedInProgress.takeWhile q.readable
  · exact Or.inl (recoverLoop_reset q nodup_sortedInProgress hm).1
  · have heq := recoverLoop_untouched q hm .inProgress
    exact Or.inr ((congrArg Option.isSome heq).trans hf)

theorem performAll_ghosts (ops : List (FileOp Payload)) :
    (∀ id ∈ q.enqueued, id ∈ (q.performAll ops).enqueued) ∧
      ∀ id ∈ q.finished, id ∈ (q.performAll ops).finished := by
  induction ops generalizing q with
  | nil => exact ⟨fun _ h => h, fun _ h => h⟩
  | cons op ops ih =>
    obtain ⟨he, hd⟩ := ih (q := q.perform op)
    refine ⟨fun id h => he id ?_, fun id h => hd id ?_⟩
    · cases op with
      | rename state id' =>
        rw [perform]
        cases (q.tmp state).get? id' with
        | none => exact h
        | some record =>
          show id ∈ (if state = .pending then id' :: q.enqueued else q.enqueued)
          split
          · exact List.mem_cons_of_mem _ h
          · exact h
      | _ => exact h
    · cases op with
      | rename state id' =>
        rw [perform]
        cases (q.tmp state).get? id' with
        | none => exact h
        | some record =>
          show id ∈ (if state = .completed ∨ state = .failed then id' :: q.finished
            else q.finished)
          split
          · exact List.mem_cons_of_mem _ h
          · exact h
      | _ => exact h

/-- `recover` leaves what it is to leave exactly when the queue is tidy. -/
theorem restored_iff (hk : q.Known) : q.recovered.Restored ↔ q.Tidy := by
  constructor
  · intro hr
    have honce : ∀ {state state' : JobState} {id : String},
        (q.recovered.file state id).isSome → (q.recovered.file state' id).isSome →
        (∃ state, (q.file state id).isSome) → state = state' := by
      intro state state' id hf hf' ⟨state'', hany⟩
      have hmem := (performAll_ghosts q.recover.1).1 id (hk.enqueued state'' id hany)
      obtain ⟨one, -, hone⟩ := hr.once id hmem
      exact (hone state hf).trans (hone state' hf').symm
    refine ⟨fun state id hs hf state' hf' => ?_, fun id error id' record hc hrec => ?_,
      fun id error hc => ?_⟩
    · have hne : state ≠ .inProgress := by
        rcases hs with rfl | rfl
        · exact nofun
        · exact nofun
      have hstate := recovered_isSome hne hf
      by_cases hi : state' = .inProgress
      · subst hi
        rcases recovered_inProgress hf' with hp | hp
        · have heq := honce hstate hp ⟨state, hf⟩
          rcases hs with rfl | rfl
          · exact nomatch heq
          · exact nomatch heq
        · exact absurd (honce hstate hp ⟨state, hf⟩) hne
      · exact honce (recovered_isSome hi hf') hstate ⟨state, hf⟩
    · -- it was reset, so all before it could be read
      have hm : id' ∈ q.sortedInProgress.takeWhile q.readable := by
        by_contra hnot
        exact hr.reset id' record ((recoverLoop_untouched q hnot .inProgress).trans hrec)
      have hunread : q.readable id ≠ true := by
        intro h
        obtain ⟨record', h⟩ := readable_iff.mp h
        exact nomatch hc.symm.trans h
      have hle := rel_of_mem_takeWhile pairwise_sortedInProgress hm
        (mem_sortedInProgress.mpr (by rw [hc]; rfl)) hunread
      refine lt_of_le_of_ne hle fun heq => ?_
      rw [fileName_inj heq] at hrec
      exact nomatch hc.symm.trans hrec
    · by_contra hp
      have hpend := recovered_isSome (nofun : JobState.pending ≠ .inProgress)
        (Option.isSome_iff_ne_none.mpr hp)
      have hnot : id ∉ q.sortedInProgress.takeWhile q.readable := by
        intro hm
        obtain ⟨record, h⟩ := readable_iff.mp (List.mem_takeWhile_imp hm)
        exact nomatch hc.symm.trans h
      have hprog : (q.recovered.file .inProgress id).isSome := by
        have heq := recoverLoop_untouched q hnot .inProgress
        rw [recovered, recover, heq, hc]
        rfl
      exact nomatch honce hpend hprog ⟨.inProgress, by rw [hc]; rfl⟩
  · intro ht
    obtain ⟨hk', ht'⟩ := recovered_tidy hk ht
    refine ⟨fun id hm => ?_, fun id hm => ?_, fun id record hf => ?_⟩
    · obtain ⟨state, hf⟩ := hk'.present id hm
      refine ⟨state, hf, fun state' hf' => ?_⟩
      have hactive : ∀ {a b : JobState}, (q.recovered.file a id).isSome →
          (q.recovered.file b id).isSome → a = .inProgress → b = .pending → False := by
        intro a b ha hb hia hpb
        subst hia hpb
        obtain ⟨f, hfa⟩ := Option.isSome_iff_exists.mp ha
        obtain ⟨error, rfl, -⟩ := recovered_unreadable ht hfa
        rw [ht'.single id error hfa] at hb
        exact nomatch hb
      by_cases hs : state = .completed ∨ state = .failed
      · exact ht'.finished state id hs hf state' hf'
      · by_cases hs' : state' = .completed ∨ state' = .failed
        · exact (ht'.finished state' id hs' hf' state hf).symm
        · cases state with
          | pending =>
            cases state' with
            | pending => rfl
            | inProgress => exact (hactive hf' hf rfl rfl).elim
            | completed => exact absurd (Or.inl rfl) hs'
            | failed => exact absurd (Or.inr rfl) hs'
          | inProgress =>
            cases state' with
            | pending => exact (hactive hf hf' rfl rfl).elim
            | inProgress => rfl
            | completed => exact absurd (Or.inl rfl) hs'
            | failed => exact absurd (Or.inr rfl) hs'
          | completed => exact absurd (Or.inl rfl) hs
          | failed => exact absurd (Or.inr rfl) hs
    · obtain ⟨state, hs, hf⟩ := hk'.finished id hm
      by_contra hp
      have heq := ht'.finished state id hs hf .pending (Option.isSome_iff_ne_none.mpr hp)
      rcases hs with rfl | rfl
      · exact nomatch heq
      · exact nomatch heq
    · obtain ⟨error, h, -⟩ := recovered_unreadable ht hf
      exact nomatch h

/-! ## One call at a time -/

/-- What any run keeps: `recover` has left no job half moved. -/
structure Sound (q : JobQueue Payload) : Prop where
  known : q.Known
  settled : q.down = false → q.Settled

/-- A call that is made is a prefix of its operations. -/
theorem step_call {c : QueueCall Payload} (cut : Option Nat)
    (h : q.down = false ∨ c.isRecover = true) :
    ∃ n, q.step (.call c cut) = { q.performAll ((q.ops c).take n) with down := cut.isSome } ∧
      (cut = some n ∨ (cut = none ∧ n = (q.ops c).length)) := by
  cases cut with
  | none =>
    refine ⟨(q.ops c).length, ?_, Or.inr ⟨rfl, rfl⟩⟩
    rw [step, if_pos h, List.take_length]
    rfl
  | some n =>
    refine ⟨n, ?_, Or.inl rfl⟩
    rw [step, if_pos h]
    rfl

theorem step_idle {c : QueueCall Payload} {cut : Option Nat}
    (h : ¬ (q.down = false ∨ c.isRecover = true)) : q.step (.call c cut) = q :=
  if_neg h

/-- What remains to be shown of a call that is made: it keeps what is known, leaves no job
half moved unless it is cut, and stays tidy when it should. -/
theorem step_of_take {c : QueueCall Payload} {cut : Option Nat} {n : Nat} {G : Prop}
    (he : q.step (.call c cut) = { q.performAll ((q.ops c).take n) with down := cut.isSome })
    (hk : (q.performAll ((q.ops c).take n)).Known)
    (hs : cut = none → (q.performAll ((q.ops c).take n)).Settled)
    (ht : (q.performAll ((q.ops c).take n)).Tidy ↔ G) :
    (q.step (.call c cut)).Sound ∧ ((q.step (.call c cut)).Tidy ↔ G) := by
  rw [he]
  refine ⟨⟨hk.congr rfl rfl rfl, fun hd => ?_⟩, ?_⟩
  · cases cut with
    | none => exact hs rfl
    | some n => exact nomatch hd
  · rw [← ht]
    exact ⟨fun h => h.congr rfl, fun h => h.congr rfl⟩

theorem settled_of_tidy (ht : q.Tidy)
    (hi : ∀ id f, q.file .inProgress id = some f → ∃ error, f = .corrupt error) :
    q.Settled := by
  intro id
  cases hf : q.file .inProgress id with
  | none => exact Or.inr rfl
  | some f =>
    obtain ⟨error, rfl⟩ := hi id f hf
    exact Or.inl (ht.single id error hf)

theorem step_recover (hs : q.Sound) (ht : q.Tidy) (cut : Option Nat) :
    (q.step (.call .recover cut)).Sound ∧ ((q.step (.call .recover cut)).Tidy ↔ True) := by
  obtain ⟨n, he, hcut⟩ := q.step_call (c := .recover) cut (Or.inr rfl)
  obtain ⟨hk', ht'⟩ := recover_take hs.known ht n
  refine step_of_take he hk' (fun hnone => ?_) ⟨fun _ => trivial, fun _ => ht'⟩
  have hn : n = q.recover.1.length := by
    rcases hcut with h | h
    · cases hnone.symm.trans h
    · exact h.2
  refine settled_of_tidy ht' fun id f hf => ?_
  have hall : q.performAll ((q.ops .recover).take n) = q.recovered := by
    rw [hn]
    show q.performAll (q.recover.1.take q.recover.1.length) = _
    rw [List.take_length]
    rfl
  rw [hall] at hf
  obtain ⟨error, h, -⟩ := recovered_unreadable ht hf
  exact ⟨error, h⟩

theorem findJob_eq_none {id : String} (h : q.findJob id = none) (state : JobState) :
    q.file state id = none := by
  have hall := List.find?_eq_none.mp h
  have hmem : state ∈ [JobState.pending, .inProgress, .completed, .failed] := by
    cases state <;> simp
  exact Option.not_isSome_iff_eq_none.mp (hall state hmem)

theorem step_enqueue (hs : q.Sound) (ht : q.Tidy) (hup : q.down = false) (id : String)
    (payload : Payload) (priority now : Int) (cut : Option Nat) :
    (q.step (.call (.enqueue id payload priority now) cut)).Sound ∧
      ((q.step (.call (.enqueue id payload priority now) cut)).Tidy ↔ True) := by
  obtain ⟨n, he, -⟩ := q.step_call (c := .enqueue id payload priority now) cut
    (Or.inl hup)
  cases hfind : q.findJob id with
  | some state =>
    have hops : q.ops (.enqueue id payload priority now) = [] := by
      show (q.enqueue id payload priority now).1 = []
      rw [enqueue, hfind]
    have hall : q.performAll ((q.ops (.enqueue id payload priority now)).take n) = q := by
      rw [hops, List.take_nil]
      rfl
    refine step_of_take he ?_ (fun _ => ?_) ⟨fun _ => trivial, fun _ => ?_⟩
    · rw [hall]
      exact hs.known
    · rw [hall]
      exact hs.settled hup
    · rw [hall]
      exact ht
  | none =>
    have hnone := findJob_eq_none hfind
    obtain ⟨record, hops⟩ : ∃ record, q.ops (.enqueue id payload priority now) =
        [.writeTmp .pending id record, .rename .pending id] := by
      refine ⟨⟨.pending, payload, priority, now, none, none, none⟩, ?_⟩
      show (q.enqueue id payload priority now).1 = _
      rw [enqueue, hfind]
    -- nothing, or the new pending file
    have hall : ∃ tmp, q.performAll ((q.ops (.enqueue id payload priority now)).take n) =
        { (if n ≤ 1 then q else q.put .pending id record) with tmp := tmp } := by
      rw [hops]
      match n with
      | 0 => exact ⟨q.tmp, rfl⟩
      | 1 => exact ⟨_, rfl⟩
      | n + 2 =>
        obtain ⟨tmp, htmp⟩ := q.performAll_write .pending id record
        refine ⟨tmp, ?_⟩
        rw [if_neg (by omega), List.take_of_length_le (by show 2 ≤ n + 2; omega)]
        exact htmp
    obtain ⟨tmp, hall⟩ := hall
    have hput := ht.putPending (fun state _ => hnone state)
      (fun error h => nomatch (hnone .inProgress).symm.trans h) record
    refine step_of_take he ?_ (fun _ => ?_) ⟨fun _ => trivial, fun _ => ?_⟩
    · rw [hall]
      refine Known.congr (q := if n ≤ 1 then q else q.put .pending id record) ?_ rfl rfl rfl
      split
      · exact hs.known
      · exact hs.known.put (Or.inl rfl) record
    · rw [hall]
      show Settled (if n ≤ 1 then q else q.put .pending id record)
      split
      · exact hs.settled hup
      · intro id'
        by_cases hid : id' = id
        · subst hid
          refine Or.inr ?_
          rw [file_put, if_neg fun h => nomatch h.1]
          exact hnone .inProgress
        · rw [file_put, file_put, if_neg fun h => hid h.2, if_neg fun h => hid h.2]
          exact hs.settled hup id'
    · rw [hall]
      refine Tidy.congr (q := if n ≤ 1 then q else q.put .pending id record) ?_ rfl
      split
      · exact ht
      · exact hput

/-- What a move to `in_progress` keeps tidy. -/
theorem cutMove_dequeue (ht : q.Tidy) {id : String} (hf : (q.file .pending id).isSome)
    (record : JobRecord Payload) (n : Nat) :
    (q.cutMove .inProgress .pending id record n).Tidy ↔
      (2 ≤ n → ∀ id' error, q.file .inProgress id' = some (.corrupt error) →
        fileName id < fileName id') := by
  have hread : ∀ error, q.file .inProgress id ≠ some (.corrupt error) := by
    intro error h
    rw [ht.single id error h] at hf
    exact nomatch hf
  have hnone : ∀ state, state = .completed ∨ state = .failed → q.file state id = none := by
    intro state hs
    by_contra hne
    have heq := ht.finished state id hs (Option.isSome_iff_ne_none.mpr hne) .pending hf
    rcases hs with rfl | rfl
    · exact nomatch heq
    · exact nomatch heq
  have hprog : ∀ id', (q.put .inProgress id record).file .inProgress id' =
      if id' = id then some (.record record) else q.file .inProgress id' := by
    intro id'
    rw [file_put]
    by_cases hid : id' = id
    · rw [if_pos ⟨rfl, hid⟩, if_pos hid]
    · rw [if_neg fun h => hid h.2, if_neg hid]
  have hdropped : ∀ id', ((q.put .inProgress id record).drop .pending id).file .inProgress id' =
      (q.put .inProgress id record).file .inProgress id' := by
    intro id'
    rw [file_drop, if_neg fun h => nomatch h.1]
  -- from `last` of the moved job
  have honly : ∀ {q' : JobQueue Payload}, q'.Tidy →
      (∀ id', q'.file .inProgress id' = (q.put .inProgress id record).file .inProgress id') →
      ∀ id' error, q.file .inProgress id' = some (.corrupt error) →
        fileName id < fileName id' := by
    intro q' ht' hsame id' error hc
    have hne : id' ≠ id := by
      rintro rfl
      exact hread error hc
    refine ht'.last id' error id record ?_ ?_
    · rw [hsame, hprog, if_neg hne]
      exact hc
    · rw [hsame, hprog, if_pos rfl]
  have hput : (∀ id' error, q.file .inProgress id' = some (.corrupt error) →
      fileName id < fileName id') → (q.put .inProgress id record).Tidy := by
    intro hlt
    refine ⟨fun state id' hs hf' state' hf'' => ?_, fun id' error id'' record' hc hr => ?_,
      fun id' error hc => ?_⟩
    · have hne : state ≠ .inProgress := by
        rcases hs with rfl | rfl
        · exact nofun
        · exact nofun
      rw [file_put, if_neg fun h => hne h.1] at hf'
      have hid : id' ≠ id := by
        rintro rfl
        rw [hnone state hs] at hf'
        exact nomatch hf'
      rw [file_put, if_neg fun h => hid h.2] at hf''
      exact ht.finished state id' hs hf' state' hf''
    · rw [hprog] at hc hr
      have hid' : id' ≠ id := by
        rintro rfl
        rw [if_pos rfl] at hc
        exact nomatch hc
      rw [if_neg hid'] at hc
      by_cases hid'' : id'' = id
      · rw [hid'']
        exact hlt id' error hc
      · rw [if_neg hid''] at hr
        exact ht.last id' error id'' record' hc hr
    · rw [hprog] at hc
      have hid' : id' ≠ id := by
        rintro rfl
        rw [if_pos rfl] at hc
        exact nomatch hc
      rw [if_neg hid'] at hc
      rw [file_put, if_neg fun h => hid' h.2]
      exact ht.single id' error hc
  rw [cutMove]
  by_cases hn : n ≤ 1
  · rw [if_pos hn]
    exact ⟨fun _ h => absurd h (by omega), fun _ => ht⟩
  · rw [if_neg hn]
    by_cases hn2 : n = 2
    · rw [if_pos hn2]
      exact ⟨fun h _ => honly h fun _ => rfl, fun h => hput (h (by omega))⟩
    · rw [if_neg hn2]
      exact ⟨fun h _ => honly h hdropped, fun h => (hput (h (by omega))).drop .pending id⟩

/-- What a move to `completed` or `failed` keeps tidy: it must not be cut in the middle. -/
theorem cutMove_mark (ht : q.Tidy) {dst src : JobState} {id : String}
    (hdst : dst = .completed ∨ dst = .failed) (hsrc : src = .pending ∨ src = .inProgress)
    (hf : (q.file src id).isSome)
    (hone : q.file .pending id = none ∨ q.file .inProgress id = none)
    (record : JobRecord Payload) (n : Nat) :
    (q.cutMove dst src id record n).Tidy ↔ n ≠ 2 := by
  have hne : dst ≠ src := by
    rintro rfl
    rcases hdst with rfl | rfl
    · exact hsrc.elim nofun nofun
    · exact hsrc.elim nofun nofun
  have hsrcne : ∀ state, state = .completed ∨ state = .failed → q.file state id = none := by
    intro state hs
    by_contra hnone
    have heq := ht.finished state id hs (Option.isSome_iff_ne_none.mpr hnone) src hf
    rcases hs with rfl | rfl
    · exact hsrc.elim (fun h => nomatch heq.symm.trans h) fun h => nomatch heq.symm.trans h
    · exact hsrc.elim (fun h => nomatch heq.symm.trans h) fun h => nomatch heq.symm.trans h
  rw [cutMove]
  by_cases hn : n ≤ 1
  · rw [if_pos hn]
    exact ⟨fun _ => by omega, fun _ => ht⟩
  · rw [if_neg hn]
    by_cases hn2 : n = 2
    · rw [if_pos hn2]
      refine ⟨fun h => ?_, fun h => absurd hn2 h⟩
      -- in both places
      refine absurd (h.finished dst id hdst ?_ src ?_) (Ne.symm hne)
      · rw [file_put, if_pos ⟨rfl, rfl⟩]
        rfl
      · rw [file_put, if_neg fun h => hne h.1.symm]
        exact hf
    · rw [if_neg hn2]
      refine ⟨fun _ => hn2, fun _ => ?_⟩
      have hfile : ∀ state id', ((q.put dst id record).drop src id).file state id' =
          if id' = id ∧ state = dst then some (.record record)
          else if id' = id then none else q.file state id' := by
        intro state id'
        rw [file_drop, file_put]
        by_cases hid : id' = id
        · by_cases hd : state = dst
          · rw [if_neg fun h => hne (hd.symm.trans h.1), if_pos ⟨hd, hid⟩, if_pos ⟨hid, hd⟩]
          · rw [if_neg (fun h => hd h.2 : ¬ (id' = id ∧ state = dst)), if_pos hid]
            by_cases hs : state = src
            · rw [if_pos ⟨hs, hid⟩]
            · rw [if_neg fun h => hs h.1, if_neg fun h => hd h.1, hid]
              -- the job has no other file
              rcases hsrc with rfl | rfl
              · cases state with
                | pending => exact absurd rfl hs
                | inProgress =>
                  rcases hone with h | h
                  · rw [h] at hf
                    exact nomatch hf
                  · exact h
                | completed => exact hsrcne .completed (Or.inl rfl)
                | failed => exact hsrcne .failed (Or.inr rfl)
              · cases state with
                | pending =>
                  rcases hone with h | h
                  · exact h
                  · rw [h] at hf
                    exact nomatch hf
                | inProgress => exact absurd rfl hs
                | completed => exact hsrcne .completed (Or.inl rfl)
                | failed => exact hsrcne .failed (Or.inr rfl)
        · rw [if_neg fun h => hid h.2, if_neg fun h => hid h.2, if_neg fun h => hid h.1,
            if_neg hid]
      have hprog : dst ≠ .inProgress := by
        rcases hdst with rfl | rfl
        · exact nofun
        · exact nofun
      have hold : ∀ {id' : String} {f : JobFile Payload},
          ((q.put dst id record).drop src id).file .inProgress id' = some f →
          id' ≠ id ∧ q.file .inProgress id' = some f := by
        intro id' f h
        rw [hfile, if_neg fun h => hprog h.2.symm] at h
        by_cases hid : id' = id
        · rw [if_pos hid] at h
          exact nomatch h
        · rw [if_neg hid] at h
          exact ⟨hid, h⟩
      refine ⟨fun state id' hs hf' state' hf'' => ?_, fun id' error id'' record' hc hr => ?_,
        fun id' error hc => ?_⟩
      · rw [hfile] at hf' hf''
        by_cases hid : id' = id
        · by_cases hd : state = dst
          · by_cases hd' : state' = dst
            · exact hd'.trans hd.symm
            · rw [if_neg fun h => hd' h.2, if_pos hid] at hf''
              exact nomatch hf''
          · rw [if_neg fun h => hd h.2, if_pos hid] at hf'
            exact nomatch hf'
        · rw [if_neg fun h => hid h.1, if_neg hid] at hf' hf''
          exact ht.finished state id' hs hf' state' hf''
      · exact ht.last id' error id'' record' (hold hc).2 (hold hr).2
      · obtain ⟨hid, hc⟩ := hold hc
        rw [hfile, if_neg fun h => hid h.1, if_neg hid]
        exact ht.single id' error hc

/-- The job that is picked up is pending, and can be read. -/
theorem file_of_nextJob {listing : List String} {id : String} {record : JobRecord Payload}
    (h : q.nextJob listing = some (id, record)) :
    q.file .pending id = some (.record record) := by
  have hmem := List.mem_of_head? h
  rw [List.mem_insertionSort, List.mem_filterMap] at hmem
  obtain ⟨id', -, hjob⟩ := hmem
  rw [pendingJob] at hjob
  split at hjob
  next record' hf =>
    injection hjob with hjob
    injection hjob with hid hrecord
    rw [← hid, ← hrecord]
    exact hf
  next => exact nomatch hjob

/-- After a whole move of a job that is not in between. -/
theorem settled_cutMove (hs : q.Settled) {src : JobState}
    (hsrc : src = .pending ∨ src = .inProgress) (dst : JobState) (id : String)
    (record : JobRecord Payload) {n : Nat} (hn : 3 ≤ n) :
    (q.cutMove dst src id record n).Settled := by
  rw [cutMove, if_neg (by omega), if_neg (by omega)]
  intro id'
  by_cases hid : id' = id
  · subst hid
    rcases hsrc with rfl | rfl
    · refine Or.inl ?_
      rw [file_drop, if_pos ⟨rfl, rfl⟩]
    · refine Or.inr ?_
      rw [file_drop, if_pos ⟨rfl, rfl⟩]
  · rw [file_drop, file_drop, if_neg fun h => hid h.2, if_neg fun h => hid h.2, file_put,
      file_put, if_neg fun h => hid h.2, if_neg fun h => hid h.2]
    exact hs id'

theorem step_dequeue (hs : q.Sound) (ht : q.Tidy) (hup : q.down = false) (listing : List String)
    (now : Int) (cut : Option Nat) :
    (q.step (.call (.dequeue listing now) cut)).Sound ∧
      ((q.step (.call (.dequeue listing now) cut)).Tidy ↔
        q.Repairable (.call (.dequeue listing now) cut)) := by
  obtain ⟨n, he, hcut⟩ := q.step_call (c := .dequeue listing now) cut (Or.inl hup)
  have hidle : q.ops (.dequeue listing now) = [] →
      (∀ id record, listing.Perm (q.files .pending).keys →
        q.nextJob listing ≠ some (id, record)) →
      (q.step (.call (.dequeue listing now) cut)).Sound ∧
        ((q.step (.call (.dequeue listing now) cut)).Tidy ↔
          q.Repairable (.call (.dequeue listing now) cut)) := by
    intro hops hno
    have hall : q.performAll ((q.ops (.dequeue listing now)).take n) = q := by
      rw [hops, List.take_nil]
      rfl
    refine step_of_take he ?_ (fun _ => ?_)
      ⟨fun _ _ hperm _ _ id record h => absurd h (hno id record hperm), fun _ => ?_⟩
    · rw [hall]
      exact hs.known
    · rw [hall]
      exact hs.settled hup
    · rw [hall]
      exact ht
  by_cases hperm : listing.Perm (q.files .pending).keys
  · cases hnext : q.nextJob listing with
    | none =>
      refine hidle ?_ fun id record _ h => by cases hnext.symm.trans h
      show (if _ then (q.dequeue listing now).1 else []) = []
      rw [if_pos hperm, dequeue, hnext]
    | some job =>
      obtain ⟨id, record⟩ := job
      have hf := file_of_nextJob hnext
      have hsome : (q.file .pending id).isSome := by
        rw [hf]
        rfl
      have hops : q.ops (.dequeue listing now) = moveOps .inProgress .pending id
          { record with state := .inProgress, startedAt := some now } := by
        show (if _ then (q.dequeue listing now).1 else []) = _
        rw [if_pos hperm, dequeue, hnext]
      have hn : cut = some n ∨ (cut = none ∧ n = 3) := by
        rw [hops] at hcut
        exact hcut
      obtain ⟨tmp, hmove⟩ := q.performAll_move .inProgress .pending id
        { record with state := .inProgress, startedAt := some now } n
      refine step_of_take he ?_ (fun hnone => ?_) ?_
      · rw [hops]
        exact hs.known.move (Or.inl rfl) (by rintro ⟨⟩) hsome _ n
      · rw [hops, hmove]
        rcases hn with h | ⟨-, hn⟩
        · cases hnone.symm.trans h
        · exact settled_cutMove (hs.settled hup) (Or.inl rfl) .inProgress id _ (by omega)
      · rw [hops, hmove]
        have hcutTidy := cutMove_dequeue ht hsome
          { record with state := .inProgress, startedAt := some now } n
        constructor
        · intro h _ _ hne0 hne1 id' record' hnext' id'' error hc
          have hjob : (id, record) = (id', record') :=
            Option.some.inj (hnext.symm.trans hnext')
          injection hjob with hid _
          subst hid
          refine hcutTidy.mp (h.congr rfl) ?_ id'' error hc
          rcases hn with rfl | ⟨-, hn⟩
          · have h0 : n ≠ 0 := fun h => hne0 (by rw [h])
            have h1 : n ≠ 1 := fun h => hne1 (by rw [h])
            omega
          · omega
        · intro h
          refine (hcutTidy.mpr fun hle => ?_).congr rfl
          refine h hup hperm (fun h0 => ?_) (fun h1 => ?_) id record hnext
          · rcases hn with h' | ⟨h', -⟩
            · have := Option.some.inj (h0.symm.trans h')
              omega
            · cases h0.symm.trans h'
          · rcases hn with h' | ⟨h', -⟩
            · have := Option.some.inj (h1.symm.trans h')
              omega
            · cases h1.symm.trans h'
  · refine hidle (if_neg hperm) fun id record h => absurd h hperm

/-- The file a transition starts from is there. -/
theorem file_of_active {id : String} {src : JobState} {f : JobFile Payload}
    (h : q.active id = some (src, f)) :
    (src = .pending ∨ src = .inProgress) ∧ q.file src id = some f := by
  rw [active] at h
  split at h
  next g hp =>
    injection h with h
    injection h with hsrc hg
    subst hsrc hg
    exact ⟨Or.inl rfl, hp⟩
  next =>
    obtain ⟨g, hi, hg⟩ := Option.map_eq_some_iff.mp h
    injection hg with hsrc hg
    subst hsrc hg
    exact ⟨Or.inr rfl, hi⟩

/-- Either of the marks. -/
theorem step_mark (hs : q.Sound) (ht : q.Tidy) (hup : q.down = false) {c : QueueCall Payload}
    {id : String} {dst : JobState} {error : Option String} {now : Int}
    (hdst : dst = .completed ∨ dst = .failed)
    (hc : q.ops c = (q.transitionFromAny id dst error now).1) (cut : Option Nat) :
    (q.step (.call c cut)).Sound ∧ ((q.step (.call c cut)).Tidy ↔ (q.down = false →
      (∃ src record, q.active id = some (src, .record record)) → cut ≠ some 2)) := by
  obtain ⟨n, he, hcut⟩ := q.step_call (c := c) cut (Or.inl hup)
  have hidle : q.ops c = [] → (∀ src record, q.active id ≠ some (src, .record record)) →
      (q.step (.call c cut)).Sound ∧ ((q.step (.call c cut)).Tidy ↔ (q.down = false →
        (∃ src record, q.active id = some (src, .record record)) → cut ≠ some 2)) := by
    intro hops hno
    have hall : q.performAll ((q.ops c).take n) = q := by
      rw [hops, List.take_nil]
      rfl
    refine step_of_take he ?_ (fun _ => ?_) ⟨fun _ _ h => ?_, fun _ => ?_⟩
    · rw [hall]
      exact hs.known
    · rw [hall]
      exact hs.settled hup
    · obtain ⟨src, record, h⟩ := h
      exact absurd h (hno src record)
    · rw [hall]
      exact ht
  cases hact : q.active id with
  | none =>
    rw [hact] at hidle
    refine hidle ?_ fun src record h => by cases h
    rw [hc, transitionFromAny, hact]
  | some source =>
    obtain ⟨src, f⟩ := source
    obtain ⟨hsrc, hf⟩ := file_of_active hact
    cases f with
    | corrupt message =>
      rw [hact] at hidle
      refine hidle ?_ fun src' record h => ?_
      · rw [hc, transitionFromAny, hact]
        rfl
      · injection h with h
        injection h with _ h
        cases h
    | record record =>
      have hsome : (q.file src id).isSome := by
        rw [hf]
        rfl
      have hops : q.ops c =
          moveOps dst src id (JobFiles.moved record dst error now) := by
        rw [hc, transitionFromAny, hact]
        rfl
      have hn : cut = some n ∨ (cut = none ∧ n = 3) := by
        rw [hops] at hcut
        exact hcut
      have hne : dst ≠ src := by
        rintro rfl
        rcases hdst with rfl | rfl
        · rcases hsrc with h | h <;> cases h
        · rcases hsrc with h | h <;> cases h
      obtain ⟨tmp, hmove⟩ := q.performAll_move dst src id (JobFiles.moved record dst error now) n
      refine step_of_take he ?_ (fun hnone => ?_) ?_
      · rw [hops]
        exact hs.known.move hsrc hne hsome _ n
      · rw [hops, hmove]
        rcases hn with h | ⟨-, hn⟩
        · cases hnone.symm.trans h
        · exact settled_cutMove (hs.settled hup) hsrc dst id _ (by omega)
      · rw [hops, hmove]
        have hcutTidy := cutMove_mark ht hdst hsrc hsome (hs.settled hup id)
          (JobFiles.moved record dst error now) n
        constructor
        · intro h _ _ h2
          rcases hn with h' | ⟨h', -⟩
          · exact hcutTidy.mp (h.congr rfl) (Option.some.inj (h'.symm.trans h2))
          · cases h'.symm.trans h2
        · intro h
          refine (hcutTidy.mpr fun h2 => ?_).congr rfl
          rcases hn with h' | ⟨-, h'⟩
          · exact h hup ⟨src, record, rfl⟩ (h'.trans (by rw [h2]))
          · omega

/-- The files after one of them went bad. -/
theorem file_corrupt {state : JobState} {id : String} (hf : (q.file state id).isSome)
    (error : String) (state' : JobState) (id' : String) :
    (q.step (.corrupt state id error)).file state' id' =
      if state' = state ∧ id' = id then some (.corrupt error) else q.file state' id' := by
  have he : q.step (.corrupt state id error) = { q with
      files := Function.update q.files state ((q.files state).set id (.corrupt error)) } :=
    if_pos hf
  rw [he]
  show (Function.update q.files state _ state').get? id' = _
  by_cases hs : state' = state
  · subst hs
    rw [Function.update_self, Dict.get?_set]
    by_cases hid : id = id'
    · rw [if_pos hid, if_pos ⟨rfl, hid.symm⟩]
    · rw [if_neg hid, if_neg fun h => hid h.2.symm]
      rfl
  · rw [Function.update_of_ne hs, if_neg fun h => hs h.1]
    rfl

theorem step_corrupt (hs : q.Sound) (ht : q.Tidy) (state : JobState) (id error : String) :
    (q.step (.corrupt state id error)).Sound ∧
      ((q.step (.corrupt state id error)).Tidy ↔ q.Repairable (.corrupt state id error)) := by
  by_cases hf : (q.file state id).isSome
  · have hfile := file_corrupt hf error
    have hsome : ∀ state' id', ((q.step (.corrupt state id error)).file state' id').isSome ↔
        (q.file state' id').isSome := by
      intro state' id'
      rw [hfile]
      by_cases h : state' = state ∧ id' = id
      · rw [if_pos h, h.1, h.2]
        exact ⟨fun _ => hf, fun _ => rfl⟩
      · rw [if_neg h]
    have hnone : ∀ state' id', q.file state' id' = none →
        (q.step (.corrupt state id error)).file state' id' = none := by
      intro state' id' h
      rw [← Option.not_isSome_iff_eq_none, hsome, h]
      exact nofun
    have he : q.step (.corrupt state id error) = { q with
        files := Function.update q.files state ((q.files state).set id (.corrupt error)) } :=
      if_pos hf
    have hknown : (q.step (.corrupt state id error)).Known := by
      refine ⟨fun state' id' h => ?_, fun id' hm => ?_, fun id' hm => ?_⟩
      · have henq := hs.known.enqueued state' id' ((hsome state' id').mp h)
        rw [he]
        exact henq
      · rw [he] at hm
        obtain ⟨state', h⟩ := hs.known.present id' hm
        exact ⟨state', (hsome state' id').mpr h⟩
      · rw [he] at hm
        obtain ⟨state', hst, h⟩ := hs.known.finished id' hm
        exact ⟨state', hst, (hsome state' id').mpr h⟩
    have hsettled : (q.step (.corrupt state id error)).down = false →
        (q.step (.corrupt state id error)).Settled := by
      intro hd id'
      rw [he] at hd
      exact (hs.settled hd id').imp (hnone .pending id') (hnone .inProgress id')
    refine ⟨⟨hknown, hsettled⟩, ?_⟩
    have hfinished : ∀ state' id', state' = .completed ∨ state' = .failed →
        ((q.step (.corrupt state id error)).file state' id').isSome →
        ∀ state'', ((q.step (.corrupt state id error)).file state'' id').isSome →
        state'' = state' :=
      fun state' id' hst h state'' h'' =>
        ht.finished state' id' hst ((hsome _ _).mp h) state'' ((hsome _ _).mp h'')
    by_cases hst : state = .inProgress
    · subst hst
      constructor
      · intro h _
        have hself : (q.step (.corrupt .inProgress id error)).file .inProgress id =
            some (.corrupt error) := by
          rw [hfile, if_pos ⟨rfl, rfl⟩]
        refine ⟨?_, fun id' record hid hr => ?_⟩
        · have hpend := h.single id error hself
          rw [hfile, if_neg fun h => nomatch h.1] at hpend
          exact hpend
        · refine h.last id error id' record hself ?_
          rw [hfile, if_neg fun h => hid h.2]
          exact hr
      · intro h
        obtain ⟨hpend, hlast⟩ := h hf
        refine ⟨hfinished, fun id' error' id'' record hc hr => ?_, fun id' error' hc => ?_⟩
        · rw [hfile] at hc hr
          have hid'' : id'' ≠ id := by
            rintro rfl
            rw [if_pos ⟨rfl, rfl⟩] at hr
            exact nomatch hr
          rw [if_neg fun h => hid'' h.2] at hr
          by_cases hid' : id' = id
          · rw [hid']
            exact hlast id'' record hid'' hr
          · rw [if_neg fun h => hid' h.2] at hc
            exact ht.last id' error' id'' record hc hr
        · by_cases hid' : id' = id
          · subst hid'
            exact hnone .pending id' hpend
          · rw [hfile, if_neg fun h => hid' h.2] at hc
            exact hnone .pending id' (ht.single id' error' hc)
    · -- what is in progress is as before
      have hprog : ∀ id', (q.step (.corrupt state id error)).file .inProgress id' =
          q.file .inProgress id' := by
        intro id'
        rw [hfile, if_neg fun h => hst h.1.symm]
      have hguard : q.Repairable (.corrupt state id error) := by
        cases state with
        | inProgress => exact absurd rfl hst
        | _ => trivial
      refine ⟨fun _ => hguard, fun _ => ⟨hfinished, fun id' error' id'' record hc hr => ?_,
        fun id' error' hc => ?_⟩⟩
      · rw [hprog] at hc hr
        exact ht.last id' error' id'' record hc hr
      · rw [hprog] at hc
        exact hnone .pending id' (ht.single id' error' hc)
  · have he : q.step (.corrupt state id error) = q := if_neg hf
    have hguard : q.Repairable (.corrupt state id error) := by
      cases state with
      | inProgress => exact fun h => absurd h hf
      | _ => trivial
    rw [he]
    exact ⟨hs, fun _ => hguard, fun _ => ht⟩

/-- A step keeps a tidy queue tidy exactly when it is repairable. -/
theorem step_tidy (e : QueueEvent Payload) (hs : q.Sound) (ht : q.Tidy) :
    (q.step e).Sound ∧ ((q.step e).Tidy ↔ q.Repairable e) := by
  cases e with
  | corrupt state id error => exact step_corrupt hs ht state id error
  | call c cut =>
    by_cases hup : q.down = false
    · cases c with
      | enqueue id payload priority now => exact step_enqueue hs ht hup id payload priority now cut
      | dequeue listing now => exact step_dequeue hs ht hup listing now cut
      | markCompleted id now => exact step_mark hs ht hup (Or.inl rfl) rfl cut
      | markFailed id error now => exact step_mark hs ht hup (Or.inr rfl) rfl cut
      | recover => exact step_recover hs ht cut
    · have hidle : ∀ {c : QueueCall Payload}, c.isRecover = false →
          q.step (.call c cut) = q := by
        intro c hc
        refine step_idle fun h => ?_
        rcases h with h | h
        · exact hup h
        · rw [hc] at h
          cases h
      cases c with
      | enqueue id payload priority now =>
        rw [hidle rfl]
        exact ⟨hs, fun _ => trivial, fun _ => ht⟩
      | dequeue listing now =>
        rw [hidle rfl]
        exact ⟨hs, fun _ h => absurd h hup, fun _ => ht⟩
      | markCompleted id now =>
        rw [hidle rfl]
        exact ⟨hs, fun _ h => absurd h hup, fun _ => ht⟩
      | markFailed id error now =>
        rw [hidle rfl]
        exact ⟨hs, fun _ h => absurd h hup, fun _ => ht⟩
      | recover => exact step_recover hs ht cut

end

theorem start_sound : (start : JobQueue Payload).Sound where
  known := ⟨fun _ _ h => (nomatch h), fun _ h => (nomatch h), fun _ h => (nomatch h)⟩
  settled := fun _ _ => Or.inl rfl

theorem start_tidy : (start : JobQueue Payload).Tidy where
  finished := fun _ _ _ h => (nomatch h)
  last := fun _ _ _ _ h => (nomatch h)
  single := fun _ _ h => (nomatch h)

/-- In which runs `recover`, called at any time, leaves what it is to leave. -/
theorem recovered_iff (Payload : Type) (es : List (QueueEvent Payload)) :
    Always step (fun q => q.recovered.Restored) start es ↔ Along step Repairable start es := by
  refine always_iff_along_within step (I := Sound)
    (fun q e hs hr => (step_tidy e hs ((restored_iff hs.known).mp hr)).1)
    (fun q e hs hr => ?_) start_sound ((restored_iff start_sound.known).mpr start_tidy) es
  obtain ⟨hs', ht'⟩ := step_tidy e hs ((restored_iff hs.known).mp hr)
  rw [restored_iff hs'.known]
  exact ht'

/-- The process dies after `completed/a.json` is there and before `in_progress/a.json` is
removed: the next `recover` makes a finished job pending again. -/
theorem finished_job_pending_again :
    ¬ ∀ es : List (QueueEvent Unit), Always step (fun q => q.recovered.Restored) start es := by
  intro h
  have hlast : ((run step start ([.call (.enqueue "a" () 0 1) none, .call (.dequeue ["a"] 2) none,
      .call (.markCompleted "a" 3) (some 2)] : List (QueueEvent Unit)))).recovered.Restored :=
    Always.last step (h _)
  exact nomatch hlast.finished "a" List.mem_cons_self

/-! ## One job of the queue -/

section

variable {q : JobQueue Payload} {id : String}

/-- What the files of one job say. -/
def jobFiles (q : JobQueue Payload) (id : String) : JobFiles Payload := fun state =>
  match q.file state id with
  | some (.record record) => some record
  | _ => none

/-- None of the files of the job went bad. -/
def Legible (q : JobQueue Payload) (id : String) : Prop :=
  ∀ state error, q.file state id ≠ some (.corrupt error)

theorem Legible.file_eq (hl : q.Legible id) (state : JobState) :
    q.file state id = (q.jobFiles id state).map .record := by
  rw [jobFiles]
  cases hf : q.file state id with
  | none => rfl
  | some f =>
    cases f with
    | record record => rfl
    | corrupt error => exact absurd hf (hl state error)

/-- How a transition that is cut ends for its job. -/
def cutOutcome (n : Nat) : MarkOutcome :=
  if n ≤ 1 then .raisesBefore "" else if n = 2 then .raisesAfter "" else .ok

theorem jobFiles_put (state : JobState) (record : JobRecord Payload) :
    (q.put state id record).jobFiles id = Function.update (q.jobFiles id) state (some record) := by
  funext state'
  rw [jobFiles, file_put]
  by_cases hs : state' = state
  · subst hs
    rw [if_pos ⟨rfl, rfl⟩, Function.update_self]
  · rw [if_neg fun h => hs h.1, Function.update_of_ne hs]
    rfl

theorem jobFiles_drop (state : JobState) :
    (q.drop state id).jobFiles id = Function.update (q.jobFiles id) state none := by
  funext state'
  rw [jobFiles, file_drop]
  by_cases hs : state' = state
  · subst hs
    rw [if_pos ⟨rfl, rfl⟩, Function.update_self]
  · rw [if_neg fun h => hs h.1, Function.update_of_ne hs]
    rfl

/-- A transition of the queue is the transition of the files of its job. -/
theorem jobFiles_transition (hl : q.Legible id) (toState : JobState) (error : Option String)
    (now : Int) (n : Nat) :
    (q.performAll ((q.transitionFromAny id toState error now).1.take n)).jobFiles id =
      (JobFiles.transitionFromAny (q.jobFiles id) toState error now (cutOutcome n)).1 := by
  have hactive : q.active id = ((q.jobFiles id).active).map fun a => (a.1, .record a.2) := by
    rw [active, JobFiles.active, hl.file_eq .pending, hl.file_eq .inProgress]
    cases q.jobFiles id .pending with
    | some record => rfl
    | none =>
      cases q.jobFiles id .inProgress with
      | some record => rfl
      | none => rfl
  rw [transitionFromAny, hactive, JobFiles.transitionFromAny]
  cases (q.jobFiles id).active with
  | none =>
    show (q.performAll (List.take n [])).jobFiles id = _
    rw [List.take_nil]
    rfl
  | some source =>
    obtain ⟨src, record⟩ := source
    obtain ⟨tmp, hmove⟩ := q.performAll_move toState src id
      (JobFiles.moved record toState error now) n
    show (q.performAll ((moveOps toState src id _).take n)).jobFiles id = _
    rw [hmove, cutMove, cutOutcome]
    by_cases hn : n ≤ 1
    · rw [if_pos hn, if_pos hn]
      rfl
    · rw [if_neg hn, if_neg hn]
      by_cases hn2 : n = 2
      · rw [if_pos hn2, if_pos hn2]
        exact jobFiles_put toState _
      · rw [if_neg hn2, if_neg hn2]
        show ((q.put toState id _).drop src id).jobFiles id = _
        rw [jobFiles_drop, jobFiles_put]

end

/-- One job that waits. -/
def oneWaiting : JobQueue Unit :=
  start.performAll (start.enqueue "0001_RUN_SIM" () 0 0).1

/-- The job is completed, and the process stops before the old file is gone. -/
theorem jobFiles_cut_completion :
    (oneWaiting.performAll
        ((oneWaiting.transitionFromAny "0001_RUN_SIM" .completed none 1).1.take 2)).jobFiles
          "0001_RUN_SIM" =
      (JobFiles.transitionFromAny (oneWaiting.jobFiles "0001_RUN_SIM") .completed none 1
        (cutOutcome 2)).1 := by
  refine jobFiles_transition (fun state error => ?_) .completed none 1 2
  cases state with
  | pending | inProgress | completed | failed => exact nofun

end JobQueue

end OSimFlow.Queues
