import OSimFlow.Lib.Prog
import OSimFlow.Campaign.SampleState

/-!
# `_await_one`: what a fan-out does with one handle

The program a fan-out runs per submitted sample, with every callback left
open. It awaits the handle, runs the success bookkeeping (up to three
times), marks the job and checkpoints; three handlers stand around that:

> an inner one, for errors of the bookkeeping after a good result;
>
> an outer `except Exception`, which tries worker recovery — and which also
> catches what the inner handler itself raises;
>
> an `except BaseException` for cancellation errors.

Recovery runs *inside* the outer handler: what its resubmission, its success
callback, its queue mark or its checkpoint raise is caught by nobody here
and leaves `_await_one`. A call carries the `Site` it is made from, so that
an environment can answer each call of a run as it likes.
-/

namespace OSimFlow.Fanout

open OSimFlow.Lib
open OSimFlow.Campaign (Step)

/-- Where in `_await_one` a callback is called from. -/
inductive Site where
  /-- The straight path: result, bookkeeping, mark, checkpoint. -/
  | success
  /-- The inner handler: bookkeeping failed after a good result. -/
  | bookkeeping
  /-- The recovery loop, after a resubmitted handle delivered. -/
  | recovered
  /-- The outer handler, when nothing was recovered. -/
  | failure
  /-- The `except BaseException` handler. -/
  | cancellation
deriving DecidableEq, Repr

/-- The callbacks that return nothing or raise. -/
inductive Callback where
  /-- `handle.result(timeout=…)`: handle 0 is the submitted one, handle
  `n + 1` the one resubmitted in round `n` of the recovery loop. -/
  | result (handle : Nat)
  /-- The `call`-th `on_success(result)` on that handle's result. -/
  | onSuccess (handle call : Nat)
  | markCompleted (site : Site)
  | markFailed (site : Site) (error : String)
  | checkpointSample (site : Site)
  /-- `RunTrace.update_sample`, inside `checkpoint_sample`. -/
  | updateSample (site : Site)
  | recordSampleStatus (site : Site)
  | maybeAlert (site : Site)
deriving DecidableEq

/-- The calls `_await_one` makes. -/
inductive FanoutOp where
  | callback (c : Callback)
  | traceIdFor
  /-- The assignments of `mark_sample_failed` to the sample's state. -/
  | recordFailure (error : PyError)
  /-- The `state.pop`s before a resubmission. -/
  | clearFailure
  /-- `recovery_manager.reset(sid)`. -/
  | resetRecovery
  /-- `recovery_manager.check_and_recover`: may round `n` go ahead? -/
  | checkAndRecover (n : Nat)
  /-- `resubmit_callback(sid)`: whether it returned a handle. -/
  | resubmit (n : Nat)
  /-- `_build_sample_trace` in `checkpoint_sample`: whether the sample has
  any state to write. -/
  | buildSampleTrace (site : Site)
  /-- `consecutive_checkpoint_failures += 1`, and the count. -/
  | countFailure (site : Site)
  /-- `consecutive_checkpoint_failures = 0`. -/
  | resetFailures (site : Site)
deriving DecidableEq

/-- What a call is answered with. -/
@[reducible] def Ans : FanoutOp → Type
  | .callback _ => Except PyError Unit
  | .traceIdFor | .recordFailure _ | .clearFailure | .resetRecovery
  | .resetFailures _ => Unit
  | .checkAndRecover _ => Bool
  | .resubmit _ | .buildSampleTrace _ => Except PyError Bool
  | .countFailure _ => Nat

/-- A program over the fan-out's callbacks. -/
abbrev AwaitProg := Prog FanoutOp Ans PyError

namespace AwaitProg

/-- Call back, raising what the callback raises. -/
def invoke (c : Callback) : AwaitProg Unit :=
  .call (.callback c) .ret

/-- `trace_id_for(sid)`. -/
def traceIdFor : AwaitProg Unit := Prog.ask FanoutOp.traceIdFor

/-- The assignments of `mark_sample_failed` to the sample's state. -/
def recordFailure (error : PyError) : AwaitProg Unit :=
  Prog.ask (FanoutOp.recordFailure error)

/-- The `state.pop`s before a resubmission. -/
def clearFailure : AwaitProg Unit := Prog.ask FanoutOp.clearFailure

/-- `recovery_manager.reset(sid)`. -/
def resetRecovery : AwaitProg Unit := Prog.ask FanoutOp.resetRecovery

/-- `recovery_manager.check_and_recover(sid, …)[0]`. -/
def checkAndRecover (n : Nat) : AwaitProg Bool :=
  Prog.ask (FanoutOp.checkAndRecover n)

/-- `resubmit_callback(sid)`: whether there is a new handle. -/
def resubmit (n : Nat) : AwaitProg Bool :=
  .call (.resubmit n) .ret

/-- `_build_sample_trace(sid, state)`: whether there was any state. -/
def buildSampleTrace (site : Site) : AwaitProg Bool :=
  .call (.buildSampleTrace site) .ret

/-- `consecutive_checkpoint_failures += 1`, and the count. -/
def countFailure (site : Site) : AwaitProg Nat :=
  Prog.ask (FanoutOp.countFailure site)

/-- `consecutive_checkpoint_failures = 0`. -/
def resetFailures (site : Site) : AwaitProg Unit :=
  Prog.ask (FanoutOp.resetFailures site)

end AwaitProg

open AwaitProg (invoke)

/-- `try: body except Exception as e: handler`. -/
def exceptException {α : Type} (body : AwaitProg α) (handler : PyError → AwaitProg α) :
    AwaitProg α :=
  tryCatch body fun e => if e.isException then handler e else throw e

/-- What the wait loop is given. -/
structure FanoutDeps where
  step : Step
  maxSampleRetries : Nat
  /-- `recovery_manager is not None`. -/
  recoveryManager : Bool
  /-- `resubmit_callback is not None`. -/
  resubmitCallback : Bool
  checkpointSample : Site → AwaitProg Unit

/-- `BOOKKEEPING_MAX_ATTEMPTS`. -/
def bookkeepingMaxAttempts : Nat := 3

/-- `_run_bookkeeping_with_retry` with `attempts` attempts left, the next of
them the `call`-th: the last error is raised. -/
def runBookkeepingWithRetry (handle : Nat) : (attempts call : Nat) → AwaitProg Unit
  | 0, _ => pure ()
  | attempts + 1, call =>
    exceptException (invoke (.onSuccess handle call)) fun retryError =>
      if attempts = 0 then throw retryError
      else runBookkeepingWithRetry handle attempts (call + 1)

namespace FanoutDeps

variable (deps : FanoutDeps)

/-- `mark_sample_failed`. -/
def markSampleFailed (site : Site) (error : PyError) : AwaitProg Unit := do
  invoke (.markFailed site error.summary)
  AwaitProg.recordFailure error
  deps.checkpointSample site
  invoke (.recordSampleStatus site)
  invoke (.maybeAlert site)

/-- What the recovery loop does once a resubmitted handle delivered. -/
def finishRecovered (handle : Nat) : AwaitProg Unit := do
  invoke (.onSuccess handle 0)
  if deps.recoveryManager then AwaitProg.resetRecovery
  invoke (.markCompleted .recovered)
  deps.checkpointSample .recovered

/-- The recovery loop with `rounds` rounds left, the next of them round `n`:
whether the sample was recovered. -/
def recoveryLoop : (rounds n : Nat) → AwaitProg Bool
  | 0, _ => pure false
  | rounds + 1, n => do
    if ← AwaitProg.checkAndRecover n then
      AwaitProg.clearFailure
      if ← AwaitProg.resubmit n then
        let delivered ← exceptException
          (do invoke (.result (n + 1)); pure true) fun _ => pure false
        if delivered then
          deps.finishRecovered (n + 1)
          pure true
        else recoveryLoop rounds (n + 1)
      else pure false
    else pure false

/-- Worker auto-recovery, where it is configured: whether it recovered. -/
def recover : AwaitProg Bool :=
  if deps.recoveryManager && deps.resubmitCallback
  then deps.recoveryLoop deps.maxSampleRetries 0 else pure false

/-- The outer `except Exception` handler. -/
def handleException (error : PyError) : AwaitProg Unit := do
  if ← deps.recover then pure () else deps.markSampleFailed .failure error

/-- The `except BaseException` handler. -/
def handleBaseException (error : PyError) : AwaitProg Unit :=
  if error.isInterrupt then throw error else deps.markSampleFailed .cancellation error

/-- The two handlers of the outer `try`. -/
def handleError (error : PyError) : AwaitProg Unit :=
  if error.isException then deps.handleException error
  else deps.handleBaseException error

/-- The bookkeeping of a good result. -/
def bookkeep : AwaitProg Unit := do
  runBookkeepingWithRetry 0 bookkeepingMaxAttempts 0
  invoke (.markCompleted .success)
  if deps.recoveryManager then AwaitProg.resetRecovery

/-- The body of the outer `try`: whether control falls through to the final
checkpoint rather than returning from inside. -/
def awaitResult : AwaitProg Bool := do
  invoke (.result 0)
  exceptException (do deps.bookkeep; pure true) fun bookkeepingError => do
    deps.markSampleFailed .bookkeeping (.postResultBookkeepingError bookkeepingError.str)
    pure false

/-- `_await_one`. -/
def awaitOne : AwaitProg Unit := do
  AwaitProg.traceIdFor
  let fallsThrough ← tryCatch deps.awaitResult fun e => do
    deps.handleError e
    pure false
  if fallsThrough then deps.checkpointSample .success

end FanoutDeps

/-- `checkpoint_sample`. The write and the counter update are separate
critical sections, under separate locks. -/
def checkpointSample (site : Site) : AwaitProg Unit := do
  if ← AwaitProg.buildSampleTrace site then
    let written ← exceptException
      (do invoke (.updateSample site); pure true) fun e => do
        let failures ← AwaitProg.countFailure site
        if 3 ≤ failures then
          throw (.campaignAbortError
            s!"aborting after {failures} consecutive checkpoint failures (last error: {e.str})")
        pure false
    if written then AwaitProg.resetFailures site

end OSimFlow.Fanout
