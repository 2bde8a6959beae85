import OSimFlow.Campaign.FanoutStep
import OSimFlow.Fanout.Partition
import OSimFlow.Lib.Run

/-!
# Generation after generation on the same rows

`_sample_state` is keyed by the sample id, the job queue by the sample id and
the step. A campaign of several generations, and one that is resumed, comes back
to the same rows and to the same jobs.

> `Fresh`: what is recorded when a step finishes for a sample (the status, the
> exit code, the error summary, the failure class, the directories of the job) is
> what the same attempt records where nothing was recorded before.

An attempt is here what it did to the books (`BookOp`), read off the calls it
made and their answers. A failure writes every key, and a recovery pops them; a
success writes two keys and leaves the failure of before (`Unfailed`). The job
is not touched once it is in `completed` or `failed` (`JobOpen`). `fresh_iff` is
these put together.
-/

namespace OSimFlow.Campaign.Freshness

open OSimFlow.Lib
open OSimFlow.Fanout
open OSimFlow.Queues (JobFiles JobState MarkOutcome)

/-! ## The books of one sample -/

/-- The row of a sample, and the files of its job for a step. -/
structure Books where
  row : SampleRow
  jobs : JobFiles Payload

/-- What an attempt does to the books. -/
inductive BookOp where
  /-- The success callback records its status. -/
  | succeed
  | fail (error : PyError)
  /-- The pops of a recovery. -/
  | clear
  | traceId (newTraceId : String)
  | markCompleted (outcome : MarkOutcome)
  | markFailed (error : String) (outcome : MarkOutcome)

namespace BookOp

/-- What it does to the row. -/
def onRow (step : Step) (row : SampleRow) : BookOp → SampleRow
  | succeed => recordSuccess step row
  | fail error => recordFailure step error row
  | clear => clearFailure step row
  | traceId newTraceId => (row.traceIdFor newTraceId).1
  | markCompleted _ | markFailed _ _ => row

/-- What it does to the job. -/
def onJobs (now : Int) (jobs : JobFiles Payload) : BookOp → JobFiles Payload
  | markCompleted outcome => (jobs.markCompleted now outcome).1
  | markFailed error outcome => (jobs.markFailed error now outcome).1
  | succeed | fail _ | clear | traceId _ => jobs

/-- It writes, or pops, all that a failure writes. -/
def resets : BookOp → Bool
  | fail _ | clear => true
  | _ => false

def succeeds : BookOp → Bool
  | succeed => true
  | _ => false

end BookOp

/-- What `op` does. -/
def Books.perform (step : Step) (now : Int) (b : Books) (op : BookOp) : Books :=
  ⟨op.onRow step b.row, op.onJobs now b.jobs⟩

/-- The books in what the calls for a sample act on. -/
def books (w : SampleWorld) : Books :=
  ⟨w.row, w.jobs⟩

/-- A mark that returned, or how it raised. -/
def answered : Except PyError Unit → MarkOutcome → MarkOutcome
  | .ok (), _ => .ok
  | .error _, outcome => outcome

/-- The entry a call makes in the books. -/
def bookOp (script : Script) : (op : FanoutOp) → Ans op → Option BookOp
  | .callback (.onSuccess handle call), _ =>
    match script.onSuccess handle call with
    | .done | .raisesLate _ => some .succeed
    | .raisesEarly _ => none
  | .callback (.markCompleted site), answer =>
    some (.markCompleted (answered answer (script.markCompleted site)))
  | .callback (.markFailed site error), answer =>
    some (.markFailed error (answered answer (script.markFailed site)))
  | .traceIdFor, _ => some (.traceId script.newTraceId)
  | .recordFailure error, _ => some (.fail error)
  | .clearFailure, _ => some .clear
  | _, _ => none

/-- A mark that found nothing to move was as good as one that went through. -/
theorem transition_answered (jobs : JobFiles Payload) (toState : JobState)
    (error : Option String) (now : Int) (outcome : MarkOutcome) :
    (jobs.transitionFromAny toState error now outcome).1 =
      (jobs.transitionFromAny toState error now
        (answered (jobs.transitionFromAny toState error now outcome).2 outcome)).1 := by
  rw [JobFiles.transitionFromAny, JobFiles.transitionFromAny]
  cases jobs.active with
  | none => rfl
  | some source =>
    cases outcome with
    | ok => rfl
    | raisesBefore e => rfl
    | raisesAfter e => rfl

/-- A call acts on the books by its entry. -/
theorem books_handle (script : Script) (step : Step) (op : FanoutOp) (w : SampleWorld) :
    books (script.handle step op w).2 =
      match bookOp script op (script.handle step op w).1 with
      | some entry => (books w).perform step script.now entry
      | none => books w := by
  cases op with
  | callback c =>
    cases c with
    | result handle =>
      show books (script.handleCallback step (.result handle) w).2 = books w
      rw [Script.handleCallback]
      cases script.result handle with
      | result => rfl
      | exception m => rfl
      | cancelled m => rfl
    | onSuccess handle call =>
      show books (script.handleCallback step (.onSuccess handle call) w).2 = _
      rw [Script.handleCallback, bookOp]
      cases script.onSuccess handle call with
      | done => rfl
      | raisesEarly m => rfl
      | raisesLate m => rfl
    | markCompleted site =>
      show (⟨w.row, (w.jobs.transitionFromAny .completed none script.now
        (script.markCompleted site)).1⟩ : Books) = _
      rw [transition_answered]
      rfl
    | markFailed site error =>
      show (⟨w.row, (w.jobs.transitionFromAny .failed (some error) script.now
        (script.markFailed site)).1⟩ : Books) = _
      rw [transition_answered]
      rfl
    | checkpointSample site => rfl
    | updateSample site => rfl
    | recordSampleStatus site => rfl
    | maybeAlert site => rfl
  | _ => rfl

/-! ## The campaign -/

/-- What the campaign is configured with, as far as a fan-out is concerned. -/
structure CampaignConfig where
  maxSampleRetries : Nat
  workerAutoRecovery : Bool

/-- Only the simulation step is given a recovery manager. -/
def CampaignConfig.fanout (cfg : CampaignConfig) (step : Step) : FanoutConfig where
  step := step
  maxSampleRetries := cfg.maxSampleRetries
  recoveryManager := cfg.workerAutoRecovery && decide (step = .runOpenstudioSim)
  resubmitCallback := cfg.workerAutoRecovery && decide (step = .runOpenstudioSim)

/-- `_sample_state`, and the job files under `f"{sid}_{step_name}"`. -/
structure Ledger where
  state : SampleState
  jobs : String → Step → JobFiles Payload

/-- How a step deals with a sample. -/
inductive Attempt where
  | cached
  /-- The submission loop was left before its chunk. -/
  | unsubmitted
  | awaited (script : Script)

/-- A step finishes for a sample, in some generation; or the campaign is run again. -/
inductive Event where
  | attempt (generation : Nat) (sid : String) (step : Step) (a : Attempt)
  | restart

/-- The failure recording after the loop, on the row. -/
def unsuccessfulRow (step : Step) (row : SampleRow) : SampleRow :=
  if row.get? (.status step.canonicalPrefix) = some (.str "ok") then row
  else markUnsuccessful step row

namespace Ledger

def start : Ledger where
  state := ∅
  jobs := fun _ _ _ => none

/-- What the fan-out starts from for a sample: `enqueue`, then `_await_one`. -/
def submitted (l : Ledger) (sid : String) (step : Step) (now : Int) : SampleWorld where
  jobs := (l.jobs sid step).enqueue ⟨sid, step⟩ 0 now
  row := l.state.row sid
  awaited := false

variable (cfg : CampaignConfig)

/-- The sample, awaited. -/
def awaitSample (l : Ledger) (sid : String) (step : Step) (script : Script) : SampleWorld :=
  (Prog.run (script.handle step) (cfg.fanout step).deps.awaitOne
    (l.submitted sid step script.now)).2

/-- The entries it makes in the books. -/
def entries (l : Ledger) (sid : String) (step : Step) (script : Script) : List BookOp :=
  (Prog.calls (script.handle step) (cfg.fanout step).deps.awaitOne
    (l.submitted sid step script.now)).filterMap fun c => bookOp script c.1 c.2

/-- The step finishes for the sample. Neither key has the generation in it. -/
def finish (l : Ledger) (sid : String) (step : Step) : Attempt → Ledger
  | .cached =>
    { l with state := l.state.updateRow sid fun row =>
        setStatus row step.canonicalPrefix 0 "cached" }
  | .unsubmitted => { l with state := l.state.updateRow sid (unsuccessfulRow step) }
  | .awaited script =>
    let w := l.awaitSample cfg sid step script
    { state := l.state.updateRow sid fun _ => unsuccessfulRow step w.row
      jobs := Function.update l.jobs sid (Function.update (l.jobs sid) step w.jobs) }

def step (l : Ledger) : Event → Ledger
  | .attempt _ sid step a => l.finish cfg sid step a
  -- a new process: no row yet, and `recover`
  | .restart => { state := ∅, jobs := fun sid step => (l.jobs sid step).recover }

end Ledger

/-! ## What is recorded -/

/-- What the books say about a step. -/
structure Recorded where
  status : Option Value
  exitCode : Option Value
  lowerStatus : Option Value
  lowerExitCode : Option Value
  errorSummary : Option Value
  failureClass : Option Value
  directories : JobState → Bool

def recorded (step : Step) (b : Books) : Recorded where
  status := b.row.get? (.status step.canonicalPrefix)
  exitCode := b.row.get? (.exitCode step.canonicalPrefix)
  lowerStatus := b.row.get? (.status (.lower step))
  lowerExitCode := b.row.get? (.exitCode (.lower step))
  errorSummary := b.row.get? .errorSummary
  failureClass := b.row.get? .failureClass
  directories := fun state => (b.jobs state).isSome

/-- The books for a sample and a step. -/
def Ledger.books (l : Ledger) (sid : String) (step : Step) : Books :=
  ⟨l.state.row sid, l.jobs sid step⟩

/-- A job that was enqueued, and the entries made for it. -/
def replay (sid : String) (step : Step) (now : Int) (row : SampleRow)
    (jobs : JobFiles Payload) (ops : List BookOp) : Books :=
  ops.foldl (Books.perform step now) ⟨row, jobs.enqueue ⟨sid, step⟩ 0 now⟩

/-- What the attempt records where nothing was recorded before. -/
def own (cfg : CampaignConfig) (l : Ledger) (sid : String) (step : Step) : Attempt → Books
  | .cached => ⟨setStatus ∅ step.canonicalPrefix 0 "cached", fun _ => none⟩
  | .unsubmitted => ⟨unsuccessfulRow step ∅, fun _ => none⟩
  | .awaited script =>
    let b := replay sid step script.now ∅ (fun _ => none) (l.entries cfg sid step script)
    { b with row := unsuccessfulRow step b.row }

/-- What is recorded is the attempt's own. -/
def Fresh (cfg : CampaignConfig) (l : Ledger) : Event → Prop
  | .attempt _ sid step a =>
    recorded step ((l.finish cfg sid step a).books sid step) =
      recorded step (own cfg l sid step a)
  | .restart => True

/-! ## The row -/

/-- The keys a failure of the step writes beside its status. -/
def failureKeys (step : Step) : List StateKey :=
  [.status (.lower step), .exitCode (.lower step), .errorSummary, .failureClass]

/-- The keys of a step. -/
def stepKeys (step : Step) : List StateKey :=
  .status step.canonicalPrefix :: .exitCode step.canonicalPrefix :: failureKeys step

/-- The rows say the same about the step. -/
def Agree (step : Step) (row row' : SampleRow) : Prop :=
  ∀ k ∈ stepKeys step, row.get? k = row'.get? k

/-- No failure is on the row. -/
def Unfailed (step : Step) (row : SampleRow) : Prop :=
  ∀ k ∈ failureKeys step, row.get? k = none

/-- Nothing is on the row but what a failure without a reason writes. -/
structure Untried (step : Step) (row : SampleRow) : Prop where
  status : row.get? (.status step.canonicalPrefix) ≠ some (.str "ok")
  errorSummary : row.get? .errorSummary = none ∨
    row.get? .errorSummary = some (.str step.unknownError)
  unfailed : ∀ k ∈ failureKeys step, k ≠ .errorSummary → row.get? k = none

section

variable {step : Step} {row row' : SampleRow} {ops : List BookOp} {k : StateKey}

theorem ne_of_mem_failureKeys (hk : k ∈ failureKeys step) :
    k ≠ .status step.canonicalPrefix ∧ k ≠ .exitCode step.canonicalPrefix := by
  have hne := canonicalPrefix_ne_lower step
  simp only [failureKeys, List.mem_cons, List.not_mem_nil, or_false] at hk
  rcases hk with rfl | rfl | rfl | rfl
  · refine ⟨fun h => ?_, nofun⟩
    injection h with h
    exact hne h.symm
  · refine ⟨nofun, fun h => ?_⟩
    injection h with h
    exact hne h.symm
  · exact ⟨nofun, nofun⟩
  · exact ⟨nofun, nofun⟩

theorem mem_stepKeys_status : StateKey.status step.canonicalPrefix ∈ stepKeys step :=
  List.mem_cons_self

theorem mem_stepKeys_exitCode : StateKey.exitCode step.canonicalPrefix ∈ stepKeys step :=
  List.mem_cons_of_mem _ List.mem_cons_self

theorem mem_stepKeys_of_failure (hk : k ∈ failureKeys step) : k ∈ stepKeys step :=
  List.mem_cons_of_mem _ (List.mem_cons_of_mem _ hk)

theorem errorSummary_mem : StateKey.errorSummary ∈ failureKeys step := by
  simp [failureKeys]

theorem agree_iff : Agree step row row' ↔
    row.get? (.status step.canonicalPrefix) = row'.get? (.status step.canonicalPrefix) ∧
      row.get? (.exitCode step.canonicalPrefix) = row'.get? (.exitCode step.canonicalPrefix) ∧
      ∀ k ∈ failureKeys step, row.get? k = row'.get? k := by
  rw [Agree, stepKeys, List.forall_mem_cons, List.forall_mem_cons]

theorem get?_setStatus_status (code : Int) (status : String) :
    (setStatus row step.canonicalPrefix code status).get? (.status step.canonicalPrefix) =
      some (.str status) := by
  rw [setStatus, Dict.get?_set_self]

theorem get?_setStatus_exitCode (code : Int) (status : String) :
    (setStatus row step.canonicalPrefix code status).get? (.exitCode step.canonicalPrefix) =
      some (.int code) := by
  have hne : StateKey.status step.canonicalPrefix ≠ .exitCode step.canonicalPrefix :=
    fun h => nomatch h
  rw [setStatus, Dict.get?_set_ne _ hne, Dict.get?_set_self]

theorem get?_setStatus_failure (hk : k ∈ failureKeys step) (code : Int) (status : String) :
    (setStatus row step.canonicalPrefix code status).get? k = row.get? k := by
  obtain ⟨hs, he⟩ := ne_of_mem_failureKeys hk
  rw [setStatus, Dict.get?_set_ne _ (Ne.symm hs), Dict.get?_set_ne _ (Ne.symm he)]

/-- After the same status, the rows agree if they did on what a failure writes. -/
theorem agree_setStatus_iff (code : Int) (status : String) :
    Agree step (setStatus row step.canonicalPrefix code status)
        (setStatus row' step.canonicalPrefix code status) ↔
      ∀ k ∈ failureKeys step, row.get? k = row'.get? k := by
  rw [agree_iff, get?_setStatus_status, get?_setStatus_status, get?_setStatus_exitCode,
    get?_setStatus_exitCode]
  constructor
  · intro h k hk
    have hkey := h.2.2 k hk
    rw [get?_setStatus_failure hk, get?_setStatus_failure hk] at hkey
    exact hkey
  · intro h
    refine ⟨rfl, rfl, fun k hk => ?_⟩
    rw [get?_setStatus_failure hk, get?_setStatus_failure hk]
    exact h k hk

/-- A failure writes all the keys. -/
theorem agree_recordFailure (error : PyError) :
    Agree step (recordFailure step error row) (recordFailure step error row') := by
  intro k hk
  have hne := canonicalPrefix_ne_lower step
  simp only [stepKeys, failureKeys, List.mem_cons, List.not_mem_nil, or_false] at hk
  rcases hk with rfl | rfl | rfl | rfl | rfl | rfl <;>
    simp [recordFailure, Fanout.setStatus, hne]

/-- A recovery pops them. -/
theorem agree_clearFailure :
    Agree step (clearFailure step row) (clearFailure step row') := by
  intro k hk
  simp only [stepKeys, failureKeys, List.mem_cons, List.not_mem_nil, or_false] at hk
  rcases hk with rfl | rfl | rfl | rfl | rfl | rfl <;>
    simp [clearFailure, Dict.get?_erase]

theorem get?_traceIdFor (hk : k ∈ stepKeys step) (newTraceId : String) :
    (row.traceIdFor newTraceId).1.get? k = row.get? k := by
  have hne : StateKey.traceId ≠ k := by
    rintro rfl
    simp [stepKeys, failureKeys] at hk
  rw [SampleRow.traceIdFor]
  split
  · rfl
  · exact Dict.get?_set_ne _ hne _

theorem Agree.onRow (h : Agree step row row') (op : BookOp) :
    Agree step (op.onRow step row) (op.onRow step row') := by
  cases op with
  | succeed => exact (agree_setStatus_iff 0 "ok").mpr (agree_iff.mp h).2.2
  | fail error => exact agree_recordFailure error
  | clear => exact agree_clearFailure
  | traceId newTraceId =>
    intro k hk
    rw [BookOp.onRow, BookOp.onRow, get?_traceIdFor hk, get?_traceIdFor hk]
    exact h k hk
  | markCompleted outcome => exact h
  | markFailed error outcome => exact h

theorem Agree.foldl (h : Agree step row row') (ops : List BookOp) :
    Agree step (ops.foldl (BookOp.onRow step) row) (ops.foldl (BookOp.onRow step) row') := by
  induction ops generalizing row row' with
  | nil => exact h
  | cons op ops ih => exact ih (h.onRow op)

/-- After a failure or a recovery, nothing of before is left. -/
theorem agree_of_resets (h : ops.any BookOp.resets = true) (row row' : SampleRow) :
    Agree step (ops.foldl (BookOp.onRow step) row) (ops.foldl (BookOp.onRow step) row') := by
  induction ops generalizing row row' with
  | nil => exact nomatch h
  | cons op ops ih =>
    rw [List.any_cons, Bool.or_eq_true] at h
    rcases h with h | h
    · have hnow : Agree step (op.onRow step row) (op.onRow step row') := by
        cases op with
        | fail error => exact agree_recordFailure error
        | clear => exact agree_clearFailure
        | succeed => exact nomatch h
        | traceId newTraceId => exact nomatch h
        | markCompleted outcome => exact nomatch h
        | markFailed error outcome => exact nomatch h
      exact hnow.foldl ops
    · exact ih h _ _

/-- An entry that is neither, nor a success, writes none of the keys. -/
theorem onRow_idle {op : BookOp} (h : op.resets = false) (hs : op.succeeds = false)
    (row : SampleRow) : Agree step (op.onRow step row) row := by
  cases op with
  | fail error => exact nomatch h
  | clear => exact nomatch h
  | succeed => exact nomatch hs
  | traceId newTraceId => exact fun k hk => get?_traceIdFor hk newTraceId
  | markCompleted outcome => exact fun _ _ => rfl
  | markFailed error outcome => exact fun _ _ => rfl

/-- Without a failure or a recovery, what a failure wrote stays. -/
theorem foldl_keeps (h : ops.any BookOp.resets = false) (hk : k ∈ failureKeys step)
    (row : SampleRow) : (ops.foldl (BookOp.onRow step) row).get? k = row.get? k := by
  induction ops generalizing row with
  | nil => rfl
  | cons op ops ih =>
    rw [List.any_cons, Bool.or_eq_false_iff] at h
    rw [List.foldl_cons, ih h.2]
    cases hs : op.succeeds with
    | false => exact onRow_idle h.1 hs row k (mem_stepKeys_of_failure hk)
    | true =>
      cases op with
      | succeed => exact get?_setStatus_failure hk 0 "ok"
      | _ => exact nomatch hs

/-- And without a success, everything. -/
theorem foldl_idle (h : ops.any BookOp.resets = false) (hs : ops.any BookOp.succeeds = false)
    (row : SampleRow) : Agree step (ops.foldl (BookOp.onRow step) row) row := by
  induction ops generalizing row with
  | nil => exact fun _ _ => rfl
  | cons op ops ih =>
    rw [List.any_cons, Bool.or_eq_false_iff] at h hs
    intro k hk
    exact (ih h.2 hs.2 _ k hk).trans (onRow_idle h.1 hs.1 row k hk)

/-- The status of a success. -/
def Done (step : Step) (row : SampleRow) : Prop :=
  row.get? (.status step.canonicalPrefix) = some (.str "ok") ∧
    row.get? (.exitCode step.canonicalPrefix) = some (.int 0)

/-- A success that nothing undoes. -/
theorem foldl_done (h : ops.any BookOp.resets = false)
    (hdone : ops.any BookOp.succeeds = true ∨ Done step row) :
    Done step (ops.foldl (BookOp.onRow step) row) := by
  induction ops generalizing row with
  | nil =>
    rcases hdone with hdone | hdone
    · exact nomatch hdone
    · exact hdone
  | cons op ops ih =>
    rw [List.any_cons, Bool.or_eq_false_iff] at h
    refine ih h.2 ?_
    cases hs : op.succeeds with
    | true =>
      cases op with
      | succeed => exact Or.inr ⟨get?_setStatus_status 0 "ok", get?_setStatus_exitCode 0 "ok"⟩
      | _ => exact nomatch hs
    | false =>
      rw [List.any_cons, hs, Bool.false_or] at hdone
      have hidle : Agree step (op.onRow step row) row := onRow_idle h.1 hs row
      exact hdone.imp_right fun hdone =>
        ⟨(hidle _ mem_stepKeys_status).trans hdone.1, (hidle _ mem_stepKeys_exitCode).trans hdone.2⟩

/-! The failure recording after the loop. -/

theorem get?_markUnsuccessful_ne (hsum : k ≠ .errorSummary) :
    (markUnsuccessful step row).get? k =
      (setStatus row step.canonicalPrefix 1 "failed").get? k := by
  rw [markUnsuccessful, Dict.setDefault]
  split
  · rfl
  · exact Dict.get?_set_ne _ (Ne.symm hsum) _

theorem get?_markUnsuccessful_status :
    (markUnsuccessful step row).get? (.status step.canonicalPrefix) = some (.str "failed") := by
  have hne : StateKey.status step.canonicalPrefix ≠ .errorSummary := nofun
  rw [get?_markUnsuccessful_ne hne, get?_setStatus_status]

theorem get?_markUnsuccessful_exitCode :
    (markUnsuccessful step row).get? (.exitCode step.canonicalPrefix) = some (.int 1) := by
  have hne : StateKey.exitCode step.canonicalPrefix ≠ .errorSummary := nofun
  rw [get?_markUnsuccessful_ne hne, get?_setStatus_exitCode]

/-- `setdefault`: the summary of before stays. -/
theorem get?_markUnsuccessful_errorSummary :
    (markUnsuccessful step row).get? .errorSummary =
      some ((row.get? .errorSummary).getD (.str step.unknownError)) := by
  have hkeep : (setStatus row step.canonicalPrefix 1 "failed").get? .errorSummary =
      row.get? .errorSummary := get?_setStatus_failure errorSummary_mem 1 "failed"
  rw [markUnsuccessful, Dict.setDefault, hkeep]
  cases hr : row.get? .errorSummary with
  | none =>
    dsimp only
    rw [Dict.get?_set_self]
    rfl
  | some v =>
    dsimp only
    rw [hkeep, hr]
    rfl

theorem agree_markUnsuccessful_iff :
    Agree step (markUnsuccessful step row) (markUnsuccessful step row') ↔
      (row.get? .errorSummary).getD (.str step.unknownError) =
          (row'.get? .errorSummary).getD (.str step.unknownError) ∧
        ∀ k ∈ failureKeys step, k ≠ .errorSummary → row.get? k = row'.get? k := by
  have hsum : ∀ r : SampleRow, (markUnsuccessful step r).get? .errorSummary =
      some ((r.get? .errorSummary).getD (.str step.unknownError)) :=
    fun _ => get?_markUnsuccessful_errorSummary
  constructor
  · intro h
    refine ⟨?_, fun k hk hne => ?_⟩
    · have hkey := h .errorSummary (mem_stepKeys_of_failure errorSummary_mem)
      rw [hsum, hsum] at hkey
      exact Option.some.inj hkey
    · have hkey := h k (mem_stepKeys_of_failure hk)
      rw [get?_markUnsuccessful_ne hne, get?_markUnsuccessful_ne hne,
        get?_setStatus_failure hk, get?_setStatus_failure hk] at hkey
      exact hkey
  · rintro ⟨hs, h⟩
    rw [agree_iff]
    refine ⟨?_, ?_, fun k hk => ?_⟩
    · rw [get?_markUnsuccessful_status, get?_markUnsuccessful_status]
    · rw [get?_markUnsuccessful_exitCode, get?_markUnsuccessful_exitCode]
    · by_cases hne : k = .errorSummary
      · rw [hne, hsum, hsum, hs]
      · rw [get?_markUnsuccessful_ne hne, get?_markUnsuccessful_ne hne,
          get?_setStatus_failure hk, get?_setStatus_failure hk]
        exact h k hk hne

theorem Agree.unsuccessful (h : Agree step row row') :
    Agree step (unsuccessfulRow step row) (unsuccessfulRow step row') := by
  obtain ⟨hstatus, -, hkeys⟩ := agree_iff.mp h
  rw [unsuccessfulRow, unsuccessfulRow, hstatus]
  split
  · exact h
  · refine agree_markUnsuccessful_iff.mpr ⟨?_, fun k hk _ => hkeys k hk⟩
    rw [hkeys .errorSummary errorSummary_mem]

/-- An attempt that recorded nothing is a failure without a reason. -/
theorem agree_unsubmitted_iff :
    Agree step (unsuccessfulRow step row) (unsuccessfulRow step ∅) ↔ Untried step row := by
  have hempty : unsuccessfulRow step ∅ = markUnsuccessful step ∅ := if_neg (fun h => nomatch h)
  rw [hempty]
  by_cases hok : row.get? (.status step.canonicalPrefix) = some (.str "ok")
  · have hrow : unsuccessfulRow step row = row := if_pos hok
    rw [hrow]
    constructor
    · intro h
      -- a success of before is taken for one of now
      have hstatus := h _ mem_stepKeys_status
      rw [hok, get?_markUnsuccessful_status] at hstatus
      exact absurd hstatus (by decide)
    · intro h
      exact absurd hok h.status
  · have hrow : unsuccessfulRow step row = markUnsuccessful step row := if_neg hok
    have hsum : (row.get? .errorSummary).getD (.str step.unknownError) =
        ((∅ : SampleRow).get? .errorSummary).getD (.str step.unknownError) ↔
        row.get? .errorSummary = none ∨
          row.get? .errorSummary = some (.str step.unknownError) := by
      cases row.get? .errorSummary with
      | none => exact ⟨fun _ => Or.inl rfl, fun _ => rfl⟩
      | some v =>
        constructor
        · intro h
          exact Or.inr (congrArg some h)
        · intro h
          rcases h with h | h
          · exact nomatch h
          · exact Option.some.inj h
    rw [hrow, agree_markUnsuccessful_iff, hsum]
    exact ⟨fun h => ⟨hok, h.1, h.2⟩, fun h => ⟨h.errorSummary, h.unfailed⟩⟩

/-- The row is ready for an attempt that makes these entries. -/
def RowOpen (step : Step) (ops : List BookOp) (row : SampleRow) : Prop :=
  ops.any BookOp.resets = false →
    if ops.any BookOp.succeeds then Unfailed step row else Untried step row

/-- An attempt leaves its own row exactly when the row was ready. -/
theorem agree_awaited_iff (ops : List BookOp) (row : SampleRow) :
    Agree step (unsuccessfulRow step (ops.foldl (BookOp.onRow step) row))
        (unsuccessfulRow step (ops.foldl (BookOp.onRow step) ∅)) ↔ RowOpen step ops row := by
  cases hreset : ops.any BookOp.resets with
  | true =>
    refine ⟨fun _ h => ?_, fun _ => (agree_of_resets hreset row ∅).unsuccessful⟩
    rw [hreset] at h
    cases h
  | false =>
    cases hsucc : ops.any BookOp.succeeds with
    | true =>
      have hopen : RowOpen step ops row ↔ Unfailed step row := by
        rw [RowOpen, hreset, hsucc]
        exact ⟨fun h => h rfl, fun h _ => h⟩
      have hdone : ∀ r : SampleRow, Done step (ops.foldl (BookOp.onRow step) r) :=
        fun _ => foldl_done hreset (Or.inl hsucc)
      have hkept : ∀ r : SampleRow, unsuccessfulRow step (ops.foldl (BookOp.onRow step) r) =
          ops.foldl (BookOp.onRow step) r := fun r => if_pos (hdone r).1
      rw [hopen, hkept, hkept, agree_iff]
      constructor
      · intro h k hk
        have hkey := h.2.2 k hk
        rw [foldl_keeps hreset hk, foldl_keeps hreset hk] at hkey
        exact hkey
      · intro h
        refine ⟨(hdone row).1.trans (hdone ∅).1.symm, (hdone row).2.trans (hdone ∅).2.symm,
          fun k hk => ?_⟩
        rw [foldl_keeps hreset hk, foldl_keeps hreset hk]
        exact h k hk
    | false =>
      have hopen : RowOpen step ops row ↔ Untried step row := by
        rw [RowOpen, hreset, hsucc]
        exact ⟨fun h => h rfl, fun h _ => h⟩
      have hidle : ∀ r : SampleRow, Agree step
          (unsuccessfulRow step (ops.foldl (BookOp.onRow step) r)) (unsuccessfulRow step r) :=
        fun r => (foldl_idle hreset hsucc r).unsuccessful
      rw [hopen, ← agree_unsubmitted_iff]
      constructor
      · intro h k hk
        exact (hidle row k hk).symm.trans ((h k hk).trans (hidle ∅ k hk))
      · intro h k hk
        exact (hidle row k hk).trans ((h k hk).trans (hidle ∅ k hk).symm)

end

/-! ## The job -/

/-- What an entry does to the directories of the job. -/
def BookOp.onPresence (p : Presence) : BookOp → Presence
  | markCompleted outcome => p.markCompleted outcome
  | markFailed _ outcome => p.markFailed outcome
  | succeed | fail _ | clear | traceId _ => p

/-- A job that has just been enqueued. -/
def queued : Presence := ⟨true, false, false⟩

/-- The job is ready for an attempt whose own marks lead from `queued` to `own`: it has no
file; or it is pending, and in no directory but the attempt's own; or its files are the
very ones. -/
def JobOpen (p own : Presence) : Prop :=
  p = ⟨false, false, false⟩ ∨
    (p.pending = true ∧ (p.completed = true → own.completed = true) ∧
      (p.failed = true → own.failed = true)) ∨
    (p.pending = false ∧ p = own)

section

variable {jobs jobs' : JobFiles Payload} {now : Int}

theorem onJobs_spec (hr : JobFiles.Recovered jobs) (op : BookOp) :
    presence (op.onJobs now jobs) = op.onPresence (presence jobs) ∧
      JobFiles.Recovered (op.onJobs now jobs) := by
  cases op with
  | markCompleted outcome =>
    obtain ⟨hp, hrec, -⟩ := markCompleted_spec hr now outcome
    exact ⟨hp, hrec⟩
  | markFailed error outcome =>
    obtain ⟨hp, hrec, -⟩ := markFailed_spec hr error now outcome
    exact ⟨hp, hrec⟩
  | _ => exact ⟨rfl, hr⟩

theorem foldl_onJobs (hr : JobFiles.Recovered jobs) (ops : List BookOp) :
    presence (ops.foldl (BookOp.onJobs now) jobs) =
        ops.foldl BookOp.onPresence (presence jobs) ∧
      JobFiles.Recovered (ops.foldl (BookOp.onJobs now) jobs) := by
  induction ops generalizing jobs with
  | nil => exact ⟨rfl, hr⟩
  | cons op ops ih =>
    have hop : presence (op.onJobs now jobs) = op.onPresence (presence jobs) ∧
        JobFiles.Recovered (op.onJobs now jobs) := onJobs_spec hr op
    obtain ⟨hp, hrec⟩ := ih hop.2
    rw [hop.1] at hp
    exact ⟨hp, hrec⟩

/-- A job that is not pending stays where it is. -/
theorem foldl_onPresence_settled {p : Presence} (h : p.pending = false) (ops : List BookOp) :
    ops.foldl BookOp.onPresence p = p := by
  induction ops with
  | nil => rfl
  | cons op ops ih =>
    have hop : op.onPresence p = p := by
      cases op with
      | markCompleted outcome => cases outcome <;> simp [BookOp.onPresence, Presence.markCompleted, h]
      | markFailed error outcome => cases outcome <;> simp [BookOp.onPresence, Presence.markFailed, h]
      | _ => rfl
    rw [List.foldl_cons, hop, ih]

/-- `p` is `own`, and in the terminal directories that are given besides. -/
def Besides (completed failed : Bool) (p own : Presence) : Prop :=
  p = ⟨own.pending, completed || own.completed, failed || own.failed⟩

theorem Besides.onPresence {completed failed : Bool} {p own : Presence}
    (h : Besides completed failed p own) (op : BookOp) :
    Besides completed failed (op.onPresence p) (op.onPresence own) := by
  obtain ⟨pending, c, f⟩ := own
  have hp : p = ⟨pending, completed || c, failed || f⟩ := h
  subst hp
  cases op with
  | markCompleted outcome =>
    cases outcome <;> cases pending <;>
      simp [Besides, BookOp.onPresence, Presence.markCompleted]
  | markFailed error outcome =>
    cases outcome <;> cases pending <;>
      simp [Besides, BookOp.onPresence, Presence.markFailed]
  | _ => rfl

/-- A pending job goes where a new one goes. -/
theorem foldl_onPresence_pending {p : Presence} (h : p.pending = true) (ops : List BookOp) :
    Besides p.completed p.failed (ops.foldl BookOp.onPresence p)
      (ops.foldl BookOp.onPresence queued) := by
  have hstart : Besides p.completed p.failed p queued := by
    obtain ⟨pending, c, f⟩ := p
    simp only at h
    subst h
    simp [Besides, queued]
  have hrun : ∀ {q own : Presence}, Besides p.completed p.failed q own →
      Besides p.completed p.failed (ops.foldl BookOp.onPresence q)
        (ops.foldl BookOp.onPresence own) := by
    induction ops with
    | nil => exact fun hq => hq
    | cons op ops ih => exact fun hq => ih (hq.onPresence op)
  exact hrun hstart

theorem presence_enqueue (hr : JobFiles.Recovered jobs) (payload : Payload) (priority : Int) :
    presence (jobs.enqueue payload priority now) =
      if presence jobs = ⟨false, false, false⟩ then queued else presence jobs := by
  have hprog : jobs .inProgress = none := hr
  rw [JobFiles.enqueue, JobFiles.findJob, hprog]
  cases hp : jobs .pending <;> cases hc : jobs .completed <;> cases hf : jobs .failed <;>
    simp [presence, queued, hp, hc, hf]

/-- When an attempt's marks leave the job where they leave a new one. -/
theorem presence_iff (hr : JobFiles.Recovered jobs) (payload : Payload) (priority : Int)
    (ops : List BookOp) :
    presence (ops.foldl (BookOp.onJobs now) (jobs.enqueue payload priority now)) =
        ops.foldl BookOp.onPresence queued ↔
      JobOpen (presence jobs) (ops.foldl BookOp.onPresence queued) := by
  rw [(foldl_onJobs (JobFiles.enqueue_recovered hr payload priority now) ops).1,
    presence_enqueue hr]
  generalize presence jobs = p
  by_cases hnone : p = ⟨false, false, false⟩
  · rw [if_pos hnone]
    exact ⟨fun _ => Or.inl hnone, fun _ => rfl⟩
  · rw [if_neg hnone]
    cases hpend : p.pending with
    | false =>
      rw [foldl_onPresence_settled hpend]
      constructor
      · intro h
        exact Or.inr (Or.inr ⟨hpend, h⟩)
      · rintro (h | ⟨h, -⟩ | ⟨-, h⟩)
        · exact absurd h hnone
        · cases hpend.symm.trans h
        · exact h
    | true =>
      have hbesides : ops.foldl BookOp.onPresence p = _ := foldl_onPresence_pending hpend ops
      rw [hbesides]
      generalize ops.foldl BookOp.onPresence queued = own
      obtain ⟨pending, c, f⟩ := own
      constructor
      · intro h
        injection h with _ hc hf
        refine Or.inr (Or.inl ⟨hpend, fun hpc => ?_, fun hpf => ?_⟩)
        · rw [hpc] at hc
          exact hc.symm
        · rw [hpf] at hf
          exact hf.symm
      · rintro (h | ⟨-, hc, hf⟩ | ⟨h, -⟩)
        · exact absurd h hnone
        · have hc' : (p.completed || c) = c := by
            cases hpc : p.completed with
            | false => rfl
            | true => exact (hc hpc).symm
          have hf' : (p.failed || f) = f := by
            cases hpf : p.failed with
            | false => rfl
            | true => exact (hf hpf).symm
          rw [hc', hf']
        · cases hpend.symm.trans h

/-- The directories, read off the presence. -/
theorem directories_iff (hr : JobFiles.Recovered jobs) (hr' : JobFiles.Recovered jobs') :
    ((fun state => (jobs state).isSome) = fun state => (jobs' state).isSome) ↔
      presence jobs = presence jobs' := by
  have hprog : jobs .inProgress = none := hr
  have hprog' : jobs' .inProgress = none := hr'
  constructor
  · intro h
    rw [presence, presence, congrFun h .pending, congrFun h .completed, congrFun h .failed]
  · intro h
    injection h with hp hc hf
    funext state
    cases state with
    | pending => exact hp
    | inProgress => rw [hprog, hprog']
    | completed => exact hc
    | failed => exact hf

end

/-! ## The runs -/

theorem recorded_iff {step : Step} {b b' : Books} : recorded step b = recorded step b' ↔
    Agree step b.row b'.row ∧
      (fun state => (b.jobs state).isSome) = fun state => (b'.jobs state).isSome := by
  rw [agree_iff, recorded, recorded, Recorded.mk.injEq]
  simp only [failureKeys, List.forall_mem_cons]
  constructor
  · rintro ⟨h1, h2, h3, h4, h5, h6, h7⟩
    exact ⟨⟨h1, h2, h3, h4, h5, h6, by rintro _ ⟨⟩⟩, h7⟩
  · rintro ⟨⟨h1, h2, h3, h4, h5, h6, -⟩, h7⟩
    exact ⟨h1, h2, h3, h4, h5, h6, h7⟩

/-- The sample and its job are ready for the attempt. -/
def Open (cfg : CampaignConfig) (l : Ledger) : Event → Prop
  | .attempt _ sid step .cached =>
    Unfailed step (l.state.row sid) ∧ ∀ state, l.jobs sid step state = none
  | .attempt _ sid step .unsubmitted =>
    Untried step (l.state.row sid) ∧ ∀ state, l.jobs sid step state = none
  | .attempt _ sid step (.awaited script) =>
    RowOpen step (l.entries cfg sid step script) (l.state.row sid) ∧
      JobOpen (presence (l.jobs sid step))
        ((l.entries cfg sid step script).foldl BookOp.onPresence queued)
  | .restart => True

/-- No campaign dequeues. -/
def AllRecovered (l : Ledger) : Prop :=
  ∀ sid step, JobFiles.Recovered (l.jobs sid step)

section

variable {cfg : CampaignConfig} {l : Ledger} {sid : String} {step : Step} {script : Script}

theorem foldl_perform (now : Int) (ops : List BookOp) (b : Books) :
    ops.foldl (Books.perform step now) b =
      ⟨ops.foldl (BookOp.onRow step) b.row, ops.foldl (BookOp.onJobs now) b.jobs⟩ := by
  induction ops generalizing b with
  | nil => rfl
  | cons op ops ih => exact ih (b.perform step now op)

/-- `_await_one` acts on the books by its entries. -/
theorem books_awaitSample :
    books (l.awaitSample cfg sid step script) =
      replay sid step script.now (l.state.row sid) (l.jobs sid step)
        (l.entries cfg sid step script) := by
  have hrun := Prog.view_run (h := script.handle step) books
    (fun op answer b =>
      match bookOp script op answer with
      | some entry => b.perform step script.now entry
      | none => b)
    (fun op w => books_handle script step op w) (cfg.fanout step).deps.awaitOne
    (l.submitted sid step script.now)
  rw [Ledger.awaitSample, hrun, replay, Ledger.entries, List.foldl_filterMap]
  congr 1
  funext b call
  cases bookOp script call.1 call.2 <;> rfl

theorem awaitSample_row : (l.awaitSample cfg sid step script).row =
    (l.entries cfg sid step script).foldl (BookOp.onRow step) (l.state.row sid) := by
  have hbooks : books (l.awaitSample cfg sid step script) = _ := books_awaitSample
  rw [replay, foldl_perform] at hbooks
  exact congrArg Books.row hbooks

theorem awaitSample_jobs : (l.awaitSample cfg sid step script).jobs =
    (l.entries cfg sid step script).foldl (BookOp.onJobs script.now)
      ((l.jobs sid step).enqueue ⟨sid, step⟩ 0 script.now) := by
  have hbooks : books (l.awaitSample cfg sid step script) = _ := books_awaitSample
  rw [replay, foldl_perform] at hbooks
  exact congrArg Books.jobs hbooks

theorem step_recovered (e : Event) (hl : AllRecovered l) : AllRecovered (l.step cfg e) := by
  intro sid' step'
  cases e with
  | restart => exact JobFiles.recover_recovered _
  | attempt generation sid step a =>
    cases a with
    | cached => exact hl sid' step'
    | unsubmitted => exact hl sid' step'
    | awaited script =>
      show JobFiles.Recovered (Function.update l.jobs sid (Function.update (l.jobs sid) step
        (l.awaitSample cfg sid step script).jobs) sid' step')
      by_cases hs : sid' = sid
      · subst hs
        rw [Function.update_self]
        by_cases hst : step' = step
        · subst hst
          rw [Function.update_self, awaitSample_jobs]
          exact (foldl_onJobs (JobFiles.enqueue_recovered (hl sid' step') _ _ _) _).2
        · rw [Function.update_of_ne hst]
          exact hl sid' step'
      · rw [Function.update_of_ne hs]
        exact hl sid' step'

theorem no_files_iff {jobs : JobFiles Payload} :
    ((fun state => (jobs state).isSome) = fun state => ((fun _ => none : JobFiles Payload)
      state).isSome) ↔ ∀ state, jobs state = none := by
  constructor
  · intro h state
    exact Option.not_isSome_iff_eq_none.mp fun hs => nomatch hs.symm.trans (congrFun h state)
  · intro h
    funext state
    rw [h state]

/-- An attempt records its own exactly when the sample was ready for it. -/
theorem fresh_iff_open (e : Event) (hl : AllRecovered l) : Fresh cfg l e ↔ Open cfg l e := by
  cases e with
  | restart => exact Iff.rfl
  | attempt generation sid step a =>
    rw [Fresh, recorded_iff]
    cases a with
    | cached =>
      have hrow : (l.state.updateRow sid fun row =>
          setStatus row step.canonicalPrefix 0 "cached").row sid =
          setStatus (l.state.row sid) step.canonicalPrefix 0 "cached" := by
        rw [row_updateRow, if_pos rfl]
      refine and_congr ?_ no_files_iff
      show Agree step ((l.state.updateRow sid _).row sid) _ ↔ _
      rw [hrow]
      exact agree_setStatus_iff 0 "cached"
    | unsubmitted =>
      have hrow : (l.state.updateRow sid (unsuccessfulRow step)).row sid =
          unsuccessfulRow step (l.state.row sid) := by
        rw [row_updateRow, if_pos rfl]
      refine and_congr ?_ no_files_iff
      show Agree step ((l.state.updateRow sid _).row sid) _ ↔ _
      rw [hrow]
      exact agree_unsubmitted_iff
    | awaited script =>
      have hrow : (l.state.updateRow sid fun _ =>
          unsuccessfulRow step (l.awaitSample cfg sid step script).row).row sid =
          unsuccessfulRow step ((l.entries cfg sid step script).foldl (BookOp.onRow step)
            (l.state.row sid)) := by
        rw [row_updateRow, if_pos rfl, awaitSample_row]
      have hjobs : ((l.finish cfg sid step (.awaited script)).jobs sid step) =
          (l.entries cfg sid step script).foldl (BookOp.onJobs script.now)
            ((l.jobs sid step).enqueue ⟨sid, step⟩ 0 script.now) := by
        show Function.update l.jobs sid _ sid step = _
        rw [Function.update_self, Function.update_self, awaitSample_jobs]
      have hown : own cfg l sid step (.awaited script) =
          ⟨unsuccessfulRow step ((l.entries cfg sid step script).foldl (BookOp.onRow step) ∅),
            (l.entries cfg sid step script).foldl (BookOp.onJobs script.now)
              (JobFiles.enqueue (fun _ => none) ⟨sid, step⟩ 0 script.now)⟩ := by
        rw [own, replay, foldl_perform]
      have hempty : JobFiles.Recovered (fun _ => none : JobFiles Payload) := rfl
      have hownPresence : presence ((l.entries cfg sid step script).foldl
          (BookOp.onJobs script.now) (JobFiles.enqueue (fun _ => none) ⟨sid, step⟩ 0 script.now)) =
          (l.entries cfg sid step script).foldl BookOp.onPresence queued :=
        (foldl_onJobs (JobFiles.enqueue_recovered hempty _ _ _) _).1
      rw [hown]
      refine and_congr ?_ ?_
      · show Agree step ((l.state.updateRow sid _).row sid) _ ↔ _
        rw [hrow]
        exact agree_awaited_iff _ _
      · rw [Ledger.books, hjobs, directories_iff
          (foldl_onJobs (JobFiles.enqueue_recovered (hl sid step) _ _ _) _).2
          (foldl_onJobs (JobFiles.enqueue_recovered hempty _ _ _) _).2, hownPresence]
        exact presence_iff (hl sid step) _ _ _

end

/-- In which campaigns every step that finishes records its own attempt. -/
theorem fresh_iff (cfg : CampaignConfig) (es : List Event) :
    Along (Ledger.step cfg) (Fresh cfg) Ledger.start es ↔
      Along (Ledger.step cfg) (Open cfg) Ledger.start es :=
  along_congr (Ledger.step cfg) (I := AllRecovered) (fun _ e hl => step_recovered e hl)
    (fun _ e hl => fresh_iff_open e hl)
    (show AllRecovered Ledger.start from fun _ _ => rfl) es

/-- The simulation of generation 0 failed, and generation 1 applied its parameters: the
error summary is that of generation 0. -/
theorem failure_of_earlier_generation :
    ¬ ∀ es, Along (Ledger.step ⟨0, false⟩) (Fresh ⟨0, false⟩) Ledger.start es := by
  intro h
  have hrun := h [.attempt 0 "0001" .applyParameters (.awaited smoothScript),
    .attempt 0 "0001" .runOpenstudioSim (.awaited lostScript),
    .attempt 1 "0001" .applyParameters (.awaited smoothScript)]
  have hsummary := congrArg Recorded.errorSummary hrun.2.2.1
  exact absurd hsummary (by decide)

end OSimFlow.Campaign.Freshness
