import OSimFlow.Fanout.AwaitOne
import OSimFlow.Queues.Journal

/-!
# One sample's surroundings: its handle, its callbacks, its accounting

A `Script` assigns an outcome to everything `_await_one` can ask for on
behalf of one sample; a `SampleWorld` is what the calls act on: the sample's
four possible job files and its `_sample_state` row. `Script.handle` is the
handler that puts the two together, so `(script.handle step)` runs
`awaitOne` to its end.

The queue mark goes through `JobFiles.transitionFromAny`, so a job that is
in a terminal directory already is left alone, whatever the script says.
-/

namespace OSimFlow.Fanout

open OSimFlow.Lib
open OSimFlow.Campaign (Step SampleRow StateKey Value)
open OSimFlow.Queues (JobFiles MarkOutcome)

/-- How waiting for a handle ends. -/
inductive HandleOutcome where
  | result
  | exception (message : String)
  /-- `concurrent.futures.CancelledError`, or an executor's own. -/
  | cancelled (message : String)
deriving DecidableEq

/-- How one call of the success callback ends. -/
inductive CallbackOutcome where
  | done
  /-- It raised before it recorded the step's status. -/
  | raisesEarly (message : String)
  /-- It raised after it recorded the step's status. -/
  | raisesLate (message : String)
deriving DecidableEq

/-- How `resubmit_callback` ends. -/
inductive ResubmitOutcome where
  | handle
  /-- It returned `None`. -/
  | none
  | raises (message : String)
deriving DecidableEq

/-- A callback that returns, or raises an ordinary exception. -/
inductive CallOutcome where
  | ok
  | raises (message : String)
deriving DecidableEq

/-- The outcome of every call made for one sample. -/
structure Script where
  result : (handle : Nat) → HandleOutcome
  onSuccess : (handle call : Nat) → CallbackOutcome
  markCompleted : Site → MarkOutcome
  markFailed : Site → MarkOutcome
  /-- `deps.checkpoint_sample`, where it is a callback of its own: an abort
  is not among these errors. -/
  checkpointSample : Site → CallOutcome
  recordSampleStatus : Site → CallOutcome
  maybeAlert : Site → CallOutcome
  canRecover : (n : Nat) → Bool
  resubmit : (n : Nat) → ResubmitOutcome
  /-- `_build_sample_trace` inside `checkpoint_sample`. -/
  buildSampleTrace : Site → CallOutcome
  /-- `RunTrace.update_sample` inside `checkpoint_sample`. -/
  updateSample : Site → CallOutcome
  newTraceId : String
  now : Int

/-- The payload a fan-out enqueues. -/
structure Payload where
  sampleId : String
  step : Step
deriving DecidableEq

/-- What the calls for one sample act on. -/
structure SampleWorld where
  jobs : JobFiles Payload
  row : SampleRow
  /-- Whether the sample's handle has been awaited. -/
  awaited : Bool

/-- The keys `<p>_exit_code`, `<p>_status` set. -/
def setStatus (row : SampleRow) (p : Campaign.Prefix) (exitCode : Int)
    (status : String) : SampleRow :=
  (row.set (.exitCode p) (.int exitCode)).set (.status p) (.str status)

/-- What the success callback records under the step's canonical prefix. -/
def recordSuccess (step : Step) (row : SampleRow) : SampleRow :=
  setStatus row step.canonicalPrefix 0 "ok"

/-- `FAILURE_CLASS_BOOKKEEPING` or `FAILURE_CLASS_SIMULATION`. -/
def failureClass (error : PyError) : String :=
  if error.isBookkeeping then "bookkeeping_error" else "simulation_error"

/-- The assignments of `mark_sample_failed`. -/
def recordFailure (step : Step) (error : PyError) (row : SampleRow) : SampleRow :=
  let row := setStatus row (.lower step) 1 "failed"
  let row := setStatus row step.canonicalPrefix 1 "failed"
  let row := row.set .errorSummary (.str error.summary)
  row.set .failureClass (.str (failureClass error))

/-- The pops before a resubmission. -/
def clearFailure (step : Step) (row : SampleRow) : SampleRow :=
  let row := (row.erase (.exitCode (.lower step))).erase (.status (.lower step))
  let row :=
    (row.erase (.exitCode step.canonicalPrefix)).erase (.status step.canonicalPrefix)
  (row.erase .errorSummary).erase .failureClass

/-- A failed status for the step, under either of its prefixes. -/
def FailedStatus (step : Step) (row : SampleRow) : Prop :=
  row.get? (.status (.lower step)) = some (.str "failed") ∨
    row.get? (.status step.canonicalPrefix) = some (.str "failed")

instance (step : Step) (row : SampleRow) : Decidable (FailedStatus step row) :=
  inferInstanceAs (Decidable (_ ∨ _))

/-- The exception, if any, of a plain callback. -/
def CallOutcome.toExcept : CallOutcome → Except PyError Unit
  | ok => .ok ()
  | raises m => .error (.exception m)

/-- The new handle, if any, or the exception of `resubmit_callback`. -/
def ResubmitOutcome.toExcept : ResubmitOutcome → Except PyError Bool
  | handle => .ok true
  | none => .ok false
  | raises m => .error (.exception m)

namespace Script

variable (script : Script) (step : Step)

/-- The answer to a callback, and what it does to the sample's world. -/
def handleCallback : Callback → SampleWorld → Except PyError Unit × SampleWorld
  | .result handle, w =>
    let w := { w with awaited := true }
    match script.result handle with
    | .result => (.ok (), w)
    | .exception m => (.error (.exception m), w)
    | .cancelled m => (.error (.cancelledError m), w)
  | .onSuccess handle call, w =>
    match script.onSuccess handle call with
    | .done => (.ok (), { w with row := recordSuccess step w.row })
    | .raisesEarly m => (.error (.exception m), w)
    | .raisesLate m =>
      (.error (.exception m), { w with row := recordSuccess step w.row })
  | .markCompleted site, w =>
    let (jobs, r) := w.jobs.markCompleted script.now (script.markCompleted site)
    (r, { w with jobs := jobs })
  | .markFailed site error, w =>
    let (jobs, r) := w.jobs.markFailed error script.now (script.markFailed site)
    (r, { w with jobs := jobs })
  | .checkpointSample site, w => ((script.checkpointSample site).toExcept, w)
  | .updateSample site, w => ((script.updateSample site).toExcept, w)
  | .recordSampleStatus site, w => ((script.recordSampleStatus site).toExcept, w)
  | .maybeAlert site, w => ((script.maybeAlert site).toExcept, w)

/-- The handler of one sample. The failure counter of the checkpoints is not
the sample's: a fan-out over the real `checkpoint_sample` answers those
calls itself (`Abort.lean`). -/
def handle : Prog.Handler FanoutOp Ans SampleWorld
  | .callback c, w => script.handleCallback step c w
  | .traceIdFor, w =>
    ((), { w with row := (w.row.traceIdFor script.newTraceId).1 })
  | .recordFailure error, w => ((), { w with row := recordFailure step error w.row })
  | .clearFailure, w => ((), { w with row := clearFailure step w.row })
  | .resetRecovery, w => ((), w)
  | .checkAndRecover n, w => (script.canRecover n, w)
  | .resubmit n, w => ((script.resubmit n).toExcept, w)
  | .buildSampleTrace site, w =>
    ((script.buildSampleTrace site).toExcept.map fun _ => true, w)
  | .countFailure _, w => ((0 : Nat), w)
  | .resetFailures _, w => ((), w)

end Script

end OSimFlow.Fanout
