import OSimFlow.Lib.Run
import OSimFlow.Campaign.SampleState

/-!
# `RunTrace`: two writers of one `run.json`

The campaign's monitoring record reaches the disk by two routes. A fan-out
thread calls `update_sample` after each sample: it reads `run.json`, merges
one row into `per_sample`, recounts the summary and renames the result into
place. The campaign thread calls `write` at the start and at every way out:
it dumps the in-memory record. Both run under `_io_lock`, so each is one
step here; `_atomic_write` is tmp + rename, so a failed one leaves the old
file.

The catch is what `write` dumps. `RunTrace.per_sample` is filled by
`finalize_samples` alone, which only some of the exits run first; a write on
any other exit replaces the checkpointed rows by whatever the memory holds.
This module has the two writers, the exits and `finalize_samples` as the
code has them; `Durability.lean` has what survives.
-/

namespace OSimFlow.Observability

open OSimFlow.Lib (Dict upsert)
open OSimFlow.Campaign (SampleTrace SampleState SampleRow)

/-- `trace.status`. -/
inductive RunStatus where
  | running
  | success
  | cancelled
  | failure
  | paused
  | detached
deriving DecidableEq, Repr

/-- The `summary` object of `run.json`. -/
structure Summary where
  nSamples : Nat
  nSucceeded : Nat
  nFailed : Nat
deriving DecidableEq, Repr

/-- The `quality_summary` object of `run.json`. -/
structure QualitySummary where
  nQualityFailures : Int
  nQualityWarnings : Int
  nQualityOk : Int
deriving DecidableEq, Repr

/-- A row of `accounting_errors`. -/
structure AccountingError where
  step : Campaign.Step
  sampleId : String
  error : String
deriving DecidableEq, Repr

/-- The in-memory record. -/
structure RunTrace where
  campaignId : String
  startedAt : Int
  finishedAt : Option Int := none
  perSample : List SampleTrace := []
  accountingErrors : List AccountingError := []
  status : RunStatus := .running
  pausedAt : Option Int := none
  errorSummary : Option String := none
  /-- `_checkpoint_path`, an attribute the first `write` creates. -/
  checkpointPath : Option String := none
deriving DecidableEq

/-- The object in `run.json`; the fields a minimal file lacks are `none`. -/
structure RunJson where
  campaignId : String
  status : Option RunStatus
  startedAt : Int
  finishedAt : Option Int
  elapsedS : Int
  summary : Summary
  qualitySummary : QualitySummary
  perSample : List SampleTrace
  accountingErrors : Option (List AccountingError)
  pausedAt : Option Int
  errorSummary : Option String
deriving DecidableEq

/-- What is at the path of `run.json`. -/
inductive RunFile where
  | absent
  | corrupt
  | json (data : RunJson)
deriving DecidableEq

/-- The counts `n_samples`, `n_succeeded`, `n_failed` over the rows. -/
def summarize (rows : List SampleTrace) : Summary where
  nSamples := rows.length
  nSucceeded := rows.countP (fun s => s.status == "ok")
  nFailed := rows.countP (fun s => s.status == "failed")

/-- The quality counts over the rows. -/
def qualitySummarize (rows : List SampleTrace) : QualitySummary :=
  let nQualityFailures := rows.countP (fun s => s.qualityValid == some false)
  let nQualityWarnings := rows.countP (fun s =>
    decide (0 < s.qualityWarnings.getD 0) && s.qualityValid != some false)
  { nQualityFailures := nQualityFailures
    nQualityWarnings := nQualityWarnings
    nQualityOk := (summarize rows).nSucceeded - nQualityFailures - nQualityWarnings }

namespace RunTrace

/-- `finalize`. -/
def finalize (trace : RunTrace) (now : Int) : RunTrace :=
  { trace with finishedAt := some now }

/-- `record_accounting_error`. -/
def recordAccountingError (trace : RunTrace) (step : Campaign.Step)
    (sampleId : String) (error : PyError) : RunTrace :=
  { trace with accountingErrors := trace.accountingErrors ++
      [⟨step, sampleId, error.summary⟩] }

/-- `to_dict`. -/
def toDict (trace : RunTrace) (now : Int) : RunJson where
  campaignId := trace.campaignId
  status := some trace.status
  startedAt := trace.startedAt
  finishedAt := trace.finishedAt
  elapsedS := trace.finishedAt.getD now - trace.startedAt
  summary := summarize trace.perSample
  qualitySummary := qualitySummarize trace.perSample
  perSample := trace.perSample
  accountingErrors := some trace.accountingErrors
  pausedAt := trace.pausedAt
  errorSummary := trace.errorSummary

/-- The rows `finalize_samples` leaves in memory: one per sample of
`_sample_state`, in place of the sample's earlier row where there is one.
`newTraceId` mints ids for samples without one. The first row that does not
assemble raises, with the rows before it already in place. -/
def finalizeRows (newTraceId : String → String) :
    List (String × SampleRow) → List SampleTrace → List SampleTrace × Option PyError
  | [], rows => (rows, none)
  | (sid, state) :: rest, rows =>
    match (state.buildSampleTrace sid (newTraceId sid)).2 with
    | .error e => (rows, some e)
    | .ok t => finalizeRows newTraceId rest (upsert SampleTrace.sampleId t rows)

/-- `finalize_samples`, up to metrics and cost totals. -/
def finalizeSamples (trace : RunTrace) (newTraceId : String → String)
    (sampleState : SampleState) : RunTrace :=
  { trace with
    perSample := (finalizeRows newTraceId sampleState.items trace.perSample).1 }

end RunTrace

/-- The process's record and the file it writes to. -/
structure Monitor where
  trace : RunTrace
  file : RunFile
deriving DecidableEq

/-- What a run.json operation meets on the way to the disk. -/
inductive DiskOutcome where
  | ok
  /-- Reading or writing raised `OSError`; the rename never happened. -/
  | osError
deriving DecidableEq, Repr

namespace Monitor

/-- `RunTrace.write(path)`: record the path, dump the memory. -/
def write (m : Monitor) (path : String) (now : Int) (disk : DiskOutcome) : Monitor :=
  let trace := { m.trace with checkpointPath := some path }
  match disk with
  | .ok => ⟨trace, .json (trace.toDict now)⟩
  | .osError => ⟨trace, m.file⟩

/-- The file `update_sample` creates when there is none. -/
def minimalJson (trace : RunTrace) (t : SampleTrace) (now : Int) : RunJson where
  campaignId := trace.campaignId
  status := none
  startedAt := trace.startedAt
  finishedAt := none
  elapsedS := now - trace.startedAt
  summary :=
    { nSamples := 1
      nSucceeded := if t.status == "ok" then 1 else 0
      nFailed := if t.status == "failed" then 1 else 0 }
  qualitySummary :=
    { nQualityFailures := 0
      nQualityWarnings := 0
      nQualityOk := if t.status == "ok" then 1 else 0 }
  perSample := [t]
  accountingErrors := none
  pausedAt := none
  errorSummary := none

/-- The read-merge step of `update_sample`: replace the sample's row or
append it, and recount the summary. Every other field stays. -/
def mergeRow (data : RunJson) (t : SampleTrace) : RunJson :=
  let samples := upsert SampleTrace.sampleId t data.perSample
  { data with perSample := samples, summary := summarize samples }

/-- `RunTrace.update_sample(trace)`: the state it leaves, and the error it
raises, if any. -/
def updateSample (m : Monitor) (t : SampleTrace) (now : Int) (disk : DiskOutcome) :
    Monitor × Option PyError :=
  match m.trace.checkpointPath with
  | none => (m, none)
  | some _ =>
    match disk, m.file with
    | .osError, _ => (m, some (.exception "OSError"))
    | .ok, .absent => ({ m with file := .json (minimalJson m.trace t now) }, none)
    | .ok, .corrupt => (m, some (.exception "JSONDecodeError"))
    | .ok, .json data => ({ m with file := .json (mergeRow data t) }, none)

/-- A new process: a fresh `RunTrace(campaign_id, …)` and the write with
which `run()` starts, over whatever file is there. -/
def startWrite (file : RunFile) (path campaignId : String) (now : Int)
    (disk : DiskOutcome) : Monitor :=
  write ⟨{ campaignId := campaignId, startedAt := now }, file⟩ path now disk

/-- `write_paused_trace`; errors are logged, never raised. -/
def writePausedTrace (m : Monitor) (path : String) (now : Int) (disk : DiskOutcome) :
    Monitor :=
  let trace := { m.trace with status := .paused, pausedAt := some now }
  write { m with trace := trace } path now disk

/-- The `except KeyboardInterrupt` handler of `run()`. -/
def cancelHandler (m : Monitor) (path : String) (now : Int) (disk : DiskOutcome) :
    Monitor :=
  let trace := { m.trace with status := .cancelled }
  write { m with trace := trace.finalize now } path now disk

/-- The `except CampaignDetached` handler of `run()`. -/
def detachedHandler (m : Monitor) (path : String) (now : Int) (disk : DiskOutcome) :
    Monitor :=
  let trace := { m.trace with status := .detached }
  write { m with trace := trace.finalize now } path now disk

/-- The `except Exception` handler of `run()`; it writes nothing itself. -/
def exceptionHandler (m : Monitor) (error : String) (now : Int) : Monitor :=
  let trace := { m.trace with status := .failure, errorSummary := some error }
  { m with trace := trace.finalize now }

/-- The write in the `finally` block of `run()`, when `run.json` exists. -/
def finallyWrite (m : Monitor) (path : String) (now : Int) (disk : DiskOutcome) :
    Monitor :=
  match m.file with
  | .absent => m
  | _ => write m path now disk

/-- The write at the end of a full campaign, after `finalize_samples`. -/
def finishWrite (m : Monitor) (path : String) (now : Int) (disk : DiskOutcome) :
    Monitor :=
  write { m with trace := m.trace.finalize now } path now disk

end Monitor

end OSimFlow.Observability
