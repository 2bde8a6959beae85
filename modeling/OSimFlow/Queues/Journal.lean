import Mathlib.Logic.Function.Basic
import OSimFlow.Errors

/-!
# The filesystem job queue, one job at a time

`JobQueue` keeps a job as the file `<state>/<job_id>.json` in one of four
directories, so every operation that names a job touches at most the four
files of that job. `JobFiles` is those four files.

A transition writes the destination file (tmp + rename) and then unlinks the
source, which leaves three ways for `mark_completed` / `mark_failed` to end:
done, raised with nothing changed, or raised between the two — with the job
in two directories. `transition_not_active` is the other half of their
contract: a job in neither `pending` nor `in_progress` is left alone, and
nobody is told.
-/

namespace OSimFlow.Queues

/-- The state subdirectories, in the order of `STATES`. -/
inductive JobState where
  | pending
  | inProgress
  | completed
  | failed
deriving DecidableEq, Repr

/-- The record in a job file. -/
structure JobRecord (Payload : Type) where
  state : JobState
  payload : Payload
  priority : Int
  createdAt : Int
  startedAt : Option Int
  completedAt : Option Int
  error : Option String
deriving DecidableEq

/-- The files of one job: what `<state>/<job_id>.json` holds. -/
abbrev JobFiles (Payload : Type) := JobState → Option (JobRecord Payload)

/-- How the file operations of a transition end. -/
inductive MarkOutcome where
  | ok
  /-- Reading the source or writing the destination raised. -/
  | raisesBefore (error : String)
  /-- Unlinking the source raised, with the destination written. -/
  | raisesAfter (error : String)
deriving DecidableEq, Repr

namespace JobFiles

variable {Payload : Type}

/-- `_find_job`: the job's first file, in the order of `STATES`. -/
def findJob (files : JobFiles Payload) : Option (JobRecord Payload) :=
  files .pending <|> files .inProgress <|> files .completed <|> files .failed

/-- `enqueue`: a new record in `pending`, unless the job exists anywhere. -/
def enqueue (files : JobFiles Payload) (payload : Payload) (priority now : Int) :
    JobFiles Payload :=
  match files.findJob with
  | some _ => files
  | none => Function.update files .pending (some
      { state := .pending
        payload := payload
        priority := priority
        createdAt := now
        startedAt := none
        completedAt := none
        error := none })

/-- The file a transition starts from: `pending`, else `in_progress`. -/
def active (files : JobFiles Payload) : Option (JobState × JobRecord Payload) :=
  match files .pending with
  | some record => some (.pending, record)
  | none =>
    match files .inProgress with
    | some record => some (.inProgress, record)
    | none => none

/-- The record as a transition rewrites it. -/
def moved (record : JobRecord Payload) (toState : JobState) (error : Option String)
    (now : Int) : JobRecord Payload :=
  { record with
    state := toState
    completedAt := some now
    error := error <|> record.error }

/-- `_transition_from_any`. -/
def transitionFromAny (files : JobFiles Payload) (toState : JobState)
    (error : Option String) (now : Int) (outcome : MarkOutcome) :
    JobFiles Payload × Except PyError Unit :=
  match files.active with
  | none => (files, .ok ())
  | some (src, record) =>
    let written := Function.update files toState (some (moved record toState error now))
    match outcome with
    | .ok => (Function.update written src none, .ok ())
    | .raisesBefore e => (files, .error (.exception e))
    | .raisesAfter e => (written, .error (.exception e))

/-- `mark_completed`. -/
def markCompleted (files : JobFiles Payload) (now : Int) (outcome : MarkOutcome) :
    JobFiles Payload × Except PyError Unit :=
  transitionFromAny files .completed none now outcome

/-- `mark_failed`. -/
def markFailed (files : JobFiles Payload) (error : String) (now : Int)
    (outcome : MarkOutcome) : JobFiles Payload × Except PyError Unit :=
  transitionFromAny files .failed (some error) now outcome

/-- `recover`, for this job: back from `in_progress` to `pending`. -/
def recover (files : JobFiles Payload) : JobFiles Payload :=
  match files .inProgress with
  | none => files
  | some record =>
    Function.update
      (Function.update files .pending
        (some { record with state := .pending, startedAt := none }))
      .inProgress none

/-- No file in `in_progress`: what `recover` establishes, and what every
operation of a campaign, which never dequeues, keeps. -/
def Recovered (files : JobFiles Payload) : Prop :=
  files .inProgress = none

theorem recover_recovered (files : JobFiles Payload) : Recovered (recover files) := by
  cases h : files .inProgress with
  | none => simp only [Recovered, recover, h]
  | some record => simp only [Recovered, recover, h, Function.update_self]

theorem enqueue_recovered {files : JobFiles Payload} (h : Recovered files)
    (payload : Payload) (priority now : Int) :
    Recovered (enqueue files payload priority now) := by
  cases hf : files.findJob with
  | some record => simpa only [enqueue, hf] using h
  | none =>
    simp only [Recovered, enqueue, hf]
    rw [Function.update_of_ne (by decide)]
    exact h

/-- A job without a pending file, nor one in progress, is left alone. -/
theorem transition_not_active {files : JobFiles Payload} (h : files .pending = none)
    (hr : Recovered files) (toState : JobState) (error : Option String) (now : Int)
    (outcome : MarkOutcome) :
    transitionFromAny files toState error now outcome = (files, .ok ()) := by
  simp [transitionFromAny, active, h, show files .inProgress = none from hr]

/-- A pending job's transition, by how it ends. -/
theorem transition_pending {files : JobFiles Payload} {record : JobRecord Payload}
    (h : files .pending = some record) (toState : JobState) (error : Option String)
    (now : Int) (outcome : MarkOutcome) :
    transitionFromAny files toState error now outcome =
      match outcome with
      | .ok => (Function.update (Function.update files toState
          (some (moved record toState error now))) .pending none, .ok ())
      | .raisesBefore e => (files, .error (.exception e))
      | .raisesAfter e => (Function.update files toState
          (some (moved record toState error now)), .error (.exception e)) := by
  simp only [transitionFromAny, active, h]

end JobFiles

end OSimFlow.Queues
