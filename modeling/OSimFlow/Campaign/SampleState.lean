import Mathlib.Data.Rat.Defs
import OSimFlow.Errors
import OSimFlow.Lib.Dict

/-!
# `_sample_state`: what every step leaves behind per sample

The campaign keeps one dictionary of dictionaries, sample id to state, that
all three fan-out steps and all generations share. Each step writes its own
`<prefix>_exit_code` / `<prefix>_status` pair; `mark_sample_failed` writes
the pair twice, under the lower-cased step name and under the short prefix
the readers use. Here the keys are an enumeration, so that "ends in
`_exit_code` or `_status`" is a constructor test.

`buildSampleTrace` assembles the `run.json` row of a sample from its state:
a sample is `ok` when all three exit codes are present and zero.
-/

namespace OSimFlow.Campaign

open OSimFlow.Lib (Dict)

/-- The per-sample steps. -/
inductive Step where
  | applyParameters
  | runOpenstudioSim
  | extractKpis
deriving DecidableEq, Repr

/-- What stands before `_exit_code` and `_status` in a state key: a step's
canonical prefix, or its lower-cased name. -/
inductive Prefix where
  | apply
  | sim
  | extract
  | lower (step : Step)
deriving DecidableEq, Repr

/-- `_CANONICAL_STEP_STATUS_PREFIX[step_name.upper()]`. -/
def Step.canonicalPrefix : Step → Prefix
  | applyParameters => .apply
  | runOpenstudioSim => .sim
  | extractKpis => .extract

/-- A key of a sample's state. -/
inductive StateKey where
  | exitCode (p : Prefix)
  | status (p : Prefix)
  | errorSummary
  | failureClass
  | eplusoutSql
  | stdoutLog
  | stderrLog
  | workerId
  | workerIp
  | workerRegion
  | costUsd
  | billedDurationSeconds
  | traceId
deriving DecidableEq, Repr

/-- A value of a sample's state. -/
inductive Value where
  | none
  | int (n : Int)
  | num (q : ℚ)
  | str (s : String)
deriving DecidableEq

/-- One sample's state. -/
abbrev SampleRow := Dict StateKey Value

/-- `_sample_state`. -/
abbrev SampleState := Dict String SampleRow

namespace Value

/-- `value == 0`. -/
def isZero : Value → Bool
  | int n => n == 0
  | num q => q == 0
  | _ => false

/-- `str(value)`, for the values the state holds under text keys. -/
def toStr : Value → String
  | none => "None"
  | int n => toString n
  | num q => toString q
  | str s => s

/-- `int(str(value))`. -/
def toInt : Value → Except PyError Int
  | int n => .ok n
  | str s =>
    match s.toInt? with
    | some n => .ok n
    | Option.none => .error (.exception s!"invalid literal for int() with base 10: '{s}'")
  | v => .error (.exception s!"invalid literal for int() with base 10: '{v.toStr}'")

/-- `float(str(value))`. -/
def toFloat : Value → Except PyError ℚ
  | int n => .ok n
  | num q => .ok q
  | str s =>
    match s.toInt? with
    | some n => .ok n
    | Option.none => .error (.exception s!"could not convert string to float: '{s}'")
  | none => .error (.exception "could not convert string to float: 'None'")

end Value

/-- One row of the `per_sample` array. -/
structure SampleTrace where
  sampleId : String
  status : String
  elapsedS : ℚ
  applyExitCode : Int
  simExitCode : Int
  extractExitCode : Int
  eplusoutSql : Option String
  errorSummary : Option String
  failureClass : Option String
  stdoutLog : Option String
  stderrLog : Option String
  qualityValid : Option Bool
  qualityWarnings : Option Nat
  qualityFailures : Option Nat
  generation : Option Nat
  workerId : Option String
  workerIp : Option String
  workerRegion : Option String
  costUsd : Option ℚ
  billedDurationSeconds : Option ℚ
  registerValues : Option (Dict String Value)
  traceId : Option String
deriving DecidableEq

namespace SampleRow

/-- `None if state.get(key) is None else str(state.get(key))`. -/
def text (row : SampleRow) (k : StateKey) : Option String :=
  match row.get? k with
  | some .none => none
  | some v => some v.toStr
  | none => none

/-- `None if state.get(key) is None else float(str(state.get(key)))`. -/
def number (row : SampleRow) (k : StateKey) : Except PyError (Option ℚ) :=
  match row.get? k with
  | some .none => .ok none
  | some v => v.toFloat.map some
  | none => .ok none

/-- `state.get(f"{p}_exit_code") == 0`. -/
def exitedZero (row : SampleRow) (p : Prefix) : Bool :=
  match row.get? (.exitCode p) with
  | some v => v.isZero
  | none => false

/-- `int(str(state.get(f"{p}_exit_code", 0)))`. -/
def exitCode (row : SampleRow) (p : Prefix) : Except PyError Int :=
  match row.get? (.exitCode p) with
  | some v => v.toInt
  | none => .ok 0

/-- `trace_id_for`: the sample's trace id, minting `newTraceId` on first
access; the state it leaves, and the id. -/
def traceIdFor (row : SampleRow) (newTraceId : String) : SampleRow × String :=
  match row.get? .traceId with
  | some (.str tid) => (row, tid)
  | _ => (row.set .traceId (.str newTraceId), newTraceId)

/-- A sample is "ok" if every step that ran succeeded. -/
def sampleStatus (row : SampleRow) : String :=
  if row.exitedZero .apply && row.exitedZero .sim && row.exitedZero .extract
  then "ok" else "failed"

/-- The two numeric fields, coerced; the first that does not convert raises. -/
def costs (row : SampleRow) : Except PyError (Option ℚ × Option ℚ) := do
  return (← row.number .costUsd, ← row.number .billedDurationSeconds)

/-- The three exit codes, coerced; the first that does not convert raises. -/
def exitCodes (row : SampleRow) : Except PyError (Int × Int × Int) := do
  return (← row.exitCode .apply, ← row.exitCode .sim, ← row.exitCode .extract)

/-- `_build_sample_trace`, up to the cost metric it may record: the state it
leaves (a trace id may be minted) and the row. A value that does not convert
raises. -/
def buildSampleTrace (sid : String) (row : SampleRow) (newTraceId : String) :
    SampleRow × Except PyError SampleTrace :=
  match row.costs with
  | .error e => (row, .error e)
  | .ok (costUsd, billed) =>
    let (row', traceId) := traceIdFor row newTraceId
    (row', row'.exitCodes.map fun (applyExitCode, simExitCode, extractExitCode) =>
      { sampleId := sid
        status := row.sampleStatus
        elapsedS := 0
        applyExitCode := applyExitCode
        simExitCode := simExitCode
        extractExitCode := extractExitCode
        eplusoutSql := row.text .eplusoutSql
        errorSummary := row.text .errorSummary
        failureClass := row.text .failureClass
        stdoutLog := row.text .stdoutLog
        stderrLog := row.text .stderrLog
        qualityValid := none
        qualityWarnings := none
        qualityFailures := none
        generation := none
        workerId := row.text .workerId
        workerIp := row.text .workerIp
        workerRegion := row.text .workerRegion
        costUsd := costUsd
        billedDurationSeconds := billed
        registerValues := none
        traceId := some traceId })

end SampleRow

end OSimFlow.Campaign
