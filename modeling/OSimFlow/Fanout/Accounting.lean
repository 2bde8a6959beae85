import OSimFlow.Fanout.Script

/-!
# Where one sample ends up: completed, failed, or in between

`Accounted` is the promise of the fan-out for one sample: its job is in
`completed` and nowhere else, with no failed status in its state, or in
`failed` and nowhere else, with one. This file settles when `_await_one`
keeps it, for every script.

What decides is small: which of the three directories hold the job
(`Presence`; `in_progress` is empty in a campaign, `Recovered`), the fate of
the recovery loop (`Script.recovery`, read off the manager's and the
resubmissions' answers), and the outcomes at four or five calls. Each block
of `_await_one` has one lemma, from the presence it starts with to its
verdict:

> `markSampleFailed_accounted`: a mark that gets through, on a job not
> completed before.
>
> `handleException_accounted`: nothing recovered and a mark that gets
> through, or a recovery whose callback and mark both do. A recovery that
> raises is caught by nobody, and has already cleared the failed state.
>
> `awaitOne_accounted`: the whole, as `Settles`.
-/

namespace OSimFlow.Fanout

open OSimFlow.Lib
open OSimFlow.Campaign (Step SampleRow StateKey Value)
open OSimFlow.Queues (JobFiles MarkOutcome)
open OSimFlow.Queues.JobFiles (Recovered)
open AwaitProg (invoke)

/-- Completed: in `completed` only, no failed status. Failed: in `failed`
only, with one. -/
def Accounted (step : Step) (w : SampleWorld) : Prop :=
  w.jobs .pending = none ∧ w.jobs .inProgress = none ∧
    ((w.jobs .completed ≠ none ∧ w.jobs .failed = none ∧ ¬ FailedStatus step w.row) ∨
      (w.jobs .completed = none ∧ w.jobs .failed ≠ none ∧ FailedStatus step w.row))

/-- How a run of `_await_one`, or of a part of it, ended: with the sample
accounted for exactly when `acc`, returning exactly when `ret`. -/
structure Ends (step : Step) (out : Except PyError Unit × SampleWorld)
    (acc ret : Prop) : Prop where
  accounted : Accounted step out.2 ↔ acc
  returns : out.1 = .ok () ↔ ret

/-! ## Which directories hold the job -/

/-- Which directories hold a file of the job, `in_progress` apart. -/
structure Presence where
  pending : Bool
  completed : Bool
  failed : Bool
deriving DecidableEq

/-- The directories that hold the job. -/
def presence (jobs : JobFiles Payload) : Presence :=
  ⟨(jobs .pending).isSome, (jobs .completed).isSome, (jobs .failed).isSome⟩

namespace Presence

/-- In `completed` only. -/
def CompletedOnly (p : Presence) : Prop :=
  p.pending = false ∧ p.completed = true ∧ p.failed = false

/-- In `failed` only. -/
def FailedOnly (p : Presence) : Prop :=
  p.pending = false ∧ p.completed = false ∧ p.failed = true

instance (p : Presence) : Decidable p.CompletedOnly := inferInstanceAs (Decidable (_ ∧ _))
instance (p : Presence) : Decidable p.FailedOnly := inferInstanceAs (Decidable (_ ∧ _))

/-- Whether a mark raises: only a job that is pending is moved at all. -/
def markRaises (p : Presence) (o : MarkOutcome) : Bool :=
  p.pending && decide (o ≠ .ok)

/-- After `mark_completed`. -/
def markCompleted (p : Presence) : MarkOutcome → Presence
  | .ok => if p.pending then { p with pending := false, completed := true } else p
  | .raisesBefore _ => p
  | .raisesAfter _ => if p.pending then { p with completed := true } else p

/-- After `mark_failed`. -/
def markFailed (p : Presence) : MarkOutcome → Presence
  | .ok => if p.pending then { p with pending := false, failed := true } else p
  | .raisesBefore _ => p
  | .raisesAfter _ => if p.pending then { p with failed := true } else p

end Presence

theorem accounted_iff {step : Step} {w : SampleWorld} (hr : Recovered w.jobs) :
    Accounted step w ↔
      ((presence w.jobs).CompletedOnly ∧ ¬ FailedStatus step w.row) ∨
        ((presence w.jobs).FailedOnly ∧ FailedStatus step w.row) := by
  have hp : w.jobs .inProgress = none := hr
  simp only [Accounted, hp, presence, Presence.CompletedOnly, Presence.FailedOnly]
  cases w.jobs .pending <;> cases w.jobs .completed <;> cases w.jobs .failed <;>
    simp

theorem accounted_of_not_failed {step : Step} {w : SampleWorld} (hr : Recovered w.jobs)
    (h : ¬ FailedStatus step w.row) :
    Accounted step w ↔ (presence w.jobs).CompletedOnly := by
  simp [accounted_iff hr, h]

/-- What `mark_completed` and `mark_failed` do to the directories, and
whether they raise. -/
theorem markCompleted_spec {jobs : JobFiles Payload} (hr : Recovered jobs) (now : Int)
    (o : MarkOutcome) :
    presence (jobs.markCompleted now o).1 = (presence jobs).markCompleted o ∧
      Recovered (jobs.markCompleted now o).1 ∧
      ((presence jobs).markRaises o = false → (jobs.markCompleted now o).2 = .ok ()) ∧
      ((presence jobs).markRaises o = true →
        ∃ m, (jobs.markCompleted now o).2 = .error (.exception m)) := by
  have hp : jobs .inProgress = none := hr
  cases h : jobs .pending with
  | none =>
    rw [JobFiles.markCompleted, JobFiles.transition_not_active h hr]
    cases o <;> simp [presence, Presence.markCompleted, Presence.markRaises, h, hr]
  | some record =>
    rw [JobFiles.markCompleted, JobFiles.transition_pending h]
    cases o <;>
      simp [presence, Presence.markCompleted, Presence.markRaises, Recovered, h, hp,
        Function.update_of_ne]

theorem markFailed_spec {jobs : JobFiles Payload} (hr : Recovered jobs) (error : String)
    (now : Int) (o : MarkOutcome) :
    presence (jobs.markFailed error now o).1 = (presence jobs).markFailed o ∧
      Recovered (jobs.markFailed error now o).1 ∧
      ((presence jobs).markRaises o = false → (jobs.markFailed error now o).2 = .ok ()) ∧
      ((presence jobs).markRaises o = true →
        ∃ m, (jobs.markFailed error now o).2 = .error (.exception m)) := by
  have hp : jobs .inProgress = none := hr
  cases h : jobs .pending with
  | none =>
    rw [JobFiles.markFailed, JobFiles.transition_not_active h hr]
    cases o <;> simp [presence, Presence.markFailed, Presence.markRaises, h, hr]
  | some record =>
    rw [JobFiles.markFailed, JobFiles.transition_pending h]
    cases o <;>
      simp [presence, Presence.markFailed, Presence.markRaises, Recovered, h, hp,
        Function.update_of_ne]

/-! ## The state's status keys -/

theorem recordFailure_failedStatus (step : Step) (error : PyError) (row : SampleRow) :
    FailedStatus step (recordFailure step error row) := by
  refine Or.inr ?_
  simp [recordFailure, setStatus]

theorem clearFailure_lower (step : Step) (row : SampleRow) :
    (clearFailure step row).get? (.status (.lower step)) = none := by
  simp [clearFailure, Dict.get?_erase]

theorem clearFailure_canonical (step : Step) (row : SampleRow) :
    (clearFailure step row).get? (.status step.canonicalPrefix) = none := by
  simp [clearFailure]

theorem canonicalPrefix_ne_lower (step : Step) :
    step.canonicalPrefix ≠ .lower step := by
  cases step <;> decide

/-- The success callback leaves the lower-cased status alone. -/
theorem recordSuccess_lower (step : Step) (row : SampleRow) :
    (recordSuccess step row).get? (.status (.lower step)) =
      row.get? (.status (.lower step)) := by
  simp [recordSuccess, setStatus, canonicalPrefix_ne_lower]

theorem recordSuccess_canonical (step : Step) (row : SampleRow) :
    (recordSuccess step row).get? (.status step.canonicalPrefix) = some (.str "ok") := by
  simp [recordSuccess, setStatus]

/-! ## The blocks of `_await_one` -/

/-- What a fan-out is configured with, over a `checkpoint_sample` that is a
callback like the others. -/
structure FanoutConfig where
  step : Step
  maxSampleRetries : Nat
  recoveryManager : Bool
  resubmitCallback : Bool

/-- The dependency bundle of a configuration. -/
def FanoutConfig.deps (cfg : FanoutConfig) : FanoutDeps where
  step := cfg.step
  maxSampleRetries := cfg.maxSampleRetries
  recoveryManager := cfg.recoveryManager
  resubmitCallback := cfg.resubmitCallback
  checkpointSample := fun site => invoke (.checkpointSample site)

/-- How the recovery loop comes out, when it is entered. -/
inductive Recovery where
  /-- No (further) round, no new handle, or none that delivered. -/
  | gaveUp
  /-- The resubmission raised, or its handle was cancelled. -/
  | raised
  /-- This resubmitted handle delivered. -/
  | delivered (handle : Nat)
deriving DecidableEq

namespace Script

variable (script : Script)

/-- Whether some call of the success callback, of `attempts` from the
`call`-th on, returns. -/
def bookkept (handle : Nat) : (attempts call : Nat) → Bool
  | 0, _ => true
  | attempts + 1, call =>
    match script.onSuccess handle call with
    | .done => true
    | _ => if attempts = 0 then false else bookkept handle attempts (call + 1)

/-- The fate of the recovery loop, by the answers it gets from round `n` on. -/
def recovery : (rounds n : Nat) → Recovery
  | 0, _ => .gaveUp
  | rounds + 1, n =>
    if script.canRecover n then
      match script.resubmit n with
      | .raises _ => .raised
      | .none => .gaveUp
      | .handle =>
        match script.result (n + 1) with
        | .result => .delivered (n + 1)
        | .exception _ => recovery rounds (n + 1)
        | .cancelled _ => .raised
    else .gaveUp

/-- What `mark_sample_failed` ends in once the queue is marked: the first
error of the checkpoint, the status metric and the alert. -/
def reportFailure (site : Site) : Except PyError Unit :=
  match (script.checkpointSample site).toExcept with
  | .error e => .error e
  | .ok () =>
    match (script.recordSampleStatus site).toExcept with
    | .error e => .error e
    | .ok () => (script.maybeAlert site).toExcept

/-- Whether it ends in none. -/
def reportsFailure (site : Site) : Bool :=
  decide (script.checkpointSample site = .ok ∧ script.recordSampleStatus site = .ok ∧
    script.maybeAlert site = .ok)

end Script

section Blocks

variable (script : Script) (step : Step)

@[simp] theorem run_invoke (c : Callback) (w : SampleWorld) :
    Prog.run (script.handle step) (invoke c) w = script.handleCallback step c w := rfl

@[simp] theorem run_traceIdFor (w : SampleWorld) :
    Prog.run (script.handle step) AwaitProg.traceIdFor w =
      (.ok (), { w with row := (w.row.traceIdFor script.newTraceId).1 }) := rfl

@[simp] theorem run_recordFailure (error : PyError) (w : SampleWorld) :
    Prog.run (script.handle step) (AwaitProg.recordFailure error) w =
      (.ok (), { w with row := recordFailure step error w.row }) := rfl

@[simp] theorem run_clearFailure (w : SampleWorld) :
    Prog.run (script.handle step) AwaitProg.clearFailure w =
      (.ok (), { w with row := clearFailure step w.row }) := rfl

@[simp] theorem run_resetRecovery (w : SampleWorld) :
    Prog.run (script.handle step) AwaitProg.resetRecovery w =
      (.ok (), w) := rfl

@[simp] theorem run_checkAndRecover (n : Nat) (w : SampleWorld) :
    Prog.run (script.handle step) (AwaitProg.checkAndRecover n) w =
      (.ok (script.canRecover n), w) := rfl

@[simp] theorem run_resubmit (n : Nat) (w : SampleWorld) :
    Prog.run (script.handle step) (AwaitProg.resubmit n) w =
      ((script.resubmit n).toExcept, w) := rfl

theorem run_exceptException {α : Type} (body : AwaitProg α)
    (handler : PyError → AwaitProg α) (w : SampleWorld) :
    Prog.run (script.handle step) (exceptException body handler) w =
      match Prog.run (script.handle step) body w with
      | (.ok a, w') => (.ok a, w')
      | (.error e, w') =>
        if e.isException then Prog.run (script.handle step) (handler e) w'
        else (.error e, w') := by
  unfold exceptException
  rw [Prog.run_tryCatch]
  rcases Prog.run (script.handle step) body w with ⟨e | a, w'⟩
  · show Prog.run _ (if e.isException then handler e else throw e) w' = _
    cases he : e.isException <;> simp [he]
  · rfl

/-! ### The retried success callback -/

/-- The retried bookkeeping on a row: its error, if it ends in one, and the
row it leaves. -/
def Script.bookkeeping (handle : Nat) :
    (attempts call : Nat) → SampleRow → Option String × SampleRow
  | 0, _, row => (none, row)
  | attempts + 1, call, row =>
    match script.onSuccess handle call with
    | .done => (none, recordSuccess step row)
    | .raisesEarly m =>
      if attempts = 0 then (some m, row)
      else bookkeeping handle attempts (call + 1) row
    | .raisesLate m =>
      if attempts = 0 then (some m, recordSuccess step row)
      else bookkeeping handle attempts (call + 1) (recordSuccess step row)

theorem run_bookkeeping (handle attempts call : Nat) (w : SampleWorld) :
    Prog.run (script.handle step) (runBookkeepingWithRetry handle attempts call) w =
      match script.bookkeeping step handle attempts call w.row with
      | (none, row) => (.ok (), { w with row := row })
      | (some m, row) => (.error (.exception m), { w with row := row }) := by
  induction attempts generalizing call w with
  | zero => rfl
  | succ attempts ih =>
    rw [runBookkeepingWithRetry, run_exceptException, run_invoke]
    unfold Script.bookkeeping
    cases ho : script.onSuccess handle call with
    | done => simp only [Script.handleCallback, ho]
    | raisesEarly m =>
      by_cases h0 : attempts = 0
      · simp only [Script.handleCallback, ho, h0, PyError.isException, if_true,
          Prog.run_throw]
      · simp only [Script.handleCallback, ho, h0, PyError.isException, if_true,
          if_false, ih]
    | raisesLate m =>
      by_cases h0 : attempts = 0
      · simp only [Script.handleCallback, ho, h0, PyError.isException, if_true,
          Prog.run_throw]
      · simp only [Script.handleCallback, ho, h0, PyError.isException, if_true,
          if_false, ih]

theorem bookkeeping_fst (handle attempts call : Nat) (row : SampleRow) :
    ((script.bookkeeping step handle attempts call row).1 = none) ↔
      script.bookkept handle attempts call = true := by
  induction attempts generalizing call row with
  | zero => simp [Script.bookkeeping, Script.bookkept]
  | succ attempts ih =>
    unfold Script.bookkeeping Script.bookkept
    cases script.onSuccess handle call <;> by_cases h0 : attempts = 0 <;>
      simp [h0, ih]

/-- The bookkeeping does not touch the lower-cased status. -/
theorem bookkeeping_lower (handle attempts call : Nat) (row : SampleRow) :
    (script.bookkeeping step handle attempts call row).2.get? (.status (.lower step)) =
      row.get? (.status (.lower step)) := by
  induction attempts generalizing call row with
  | zero => rfl
  | succ attempts ih =>
    unfold Script.bookkeeping
    cases script.onSuccess handle call <;> by_cases h0 : attempts = 0 <;>
      simp [h0, ih, recordSuccess_lower]

/-- Bookkeeping that returns has recorded "ok". -/
theorem bookkeeping_canonical {handle attempts call : Nat} (h0 : 0 < attempts)
    {row : SampleRow} (h : script.bookkept handle attempts call = true) :
    (script.bookkeeping step handle attempts call row).2.get?
      (.status step.canonicalPrefix) = some (.str "ok") := by
  induction attempts generalizing call row with
  | zero => exact absurd h0 (Nat.lt_irrefl 0)
  | succ attempts ih =>
    unfold Script.bookkept at h
    unfold Script.bookkeeping
    cases ho : script.onSuccess handle call <;> by_cases ha : attempts = 0 <;>
      simp only [ho, ha, if_true, if_false] at h ⊢
    · exact recordSuccess_canonical step row
    · exact recordSuccess_canonical step row
    · cases h
    · exact ih (Nat.pos_of_ne_zero ha) h
    · cases h
    · exact ih (Nat.pos_of_ne_zero ha) h

/-! ### `mark_sample_failed` -/

theorem reportFailure_cases (site : Site) :
    (script.reportsFailure site = true ∧ script.reportFailure site = .ok ()) ∨
      (script.reportsFailure site = false ∧
        ∃ m, script.reportFailure site = .error (.exception m)) := by
  unfold Script.reportsFailure Script.reportFailure
  cases script.checkpointSample site <;> cases script.recordSampleStatus site <;>
    cases script.maybeAlert site <;> simp [CallOutcome.toExcept]

end Blocks

section Handlers

variable (cfg : FanoutConfig) (script : Script)

theorem run_markSampleFailed (site : Site) (error : PyError) (w : SampleWorld) :
    Prog.run (script.handle cfg.step) (cfg.deps.markSampleFailed site error) w =
      match w.jobs.markFailed error.summary script.now (script.markFailed site) with
      | (jobs, .error e) => (.error e, { w with jobs := jobs })
      | (jobs, .ok ()) => (script.reportFailure site,
          { w with jobs := jobs, row := recordFailure cfg.step error w.row }) := by
  unfold FanoutDeps.markSampleFailed Script.reportFailure
  rw [Prog.run_bind, run_invoke]
  simp only [Script.handleCallback]
  rcases w.jobs.markFailed error.summary script.now (script.markFailed site)
    with ⟨jobs, e | ⟨⟩⟩
  · rfl
  · simp only [Prog.run_bind, run_recordFailure, run_invoke, Script.handleCallback,
      FanoutConfig.deps]
    cases (script.checkpointSample site).toExcept with
    | error e => rfl
    | ok _ => cases (script.recordSampleStatus site).toExcept <;> rfl

theorem markSampleFailed_spec (site : Site) (error : PyError) {w : SampleWorld}
    (hr : Recovered w.jobs) :
    ∃ r jobs row,
      Prog.run (script.handle cfg.step) (cfg.deps.markSampleFailed site error) w =
        (r, { w with jobs := jobs, row := row }) ∧
      presence jobs = (presence w.jobs).markFailed (script.markFailed site) ∧
      Recovered jobs ∧
      ((presence w.jobs).markRaises (script.markFailed site) = true →
        row = w.row ∧ ∃ m, r = .error (.exception m)) ∧
      ((presence w.jobs).markRaises (script.markFailed site) = false →
        FailedStatus cfg.step row ∧ r = script.reportFailure site) := by
  obtain ⟨hp, hrec, hok, herr⟩ :=
    markFailed_spec hr error.summary script.now (script.markFailed site)
  have hrun := run_markSampleFailed cfg script site error w
  rcases hm : w.jobs.markFailed error.summary script.now (script.markFailed site)
    with ⟨jobs, r⟩
  rw [hm] at hp hrec hok herr hrun
  cases hraise : (presence w.jobs).markRaises (script.markFailed site) with
  | true =>
    obtain ⟨m, rfl⟩ : ∃ m, r = _ := herr hraise
    exact ⟨_, jobs, w.row, hrun, hp, hrec, fun _ => ⟨rfl, m, rfl⟩, fun h => by cases h⟩
  | false =>
    obtain rfl : r = _ := hok hraise
    exact ⟨_, jobs, _, hrun, hp, hrec, (fun h => by cases h),
      fun _ => ⟨recordFailure_failedStatus _ _ _, rfl⟩⟩

/-- When `mark_sample_failed` accounts for a job found in `p`. -/
def Script.failSettles (site : Site) (p : Presence) : Prop :=
  if p.pending then script.markFailed site = .ok ∧ p.completed = false
  else p.FailedOnly

/-- When it returns. -/
def Script.failReturns (site : Site) (p : Presence) : Prop :=
  p.markRaises (script.markFailed site) = false ∧ script.reportsFailure site = true

theorem markSampleFailed_ends (site : Site) (error : PyError) {w : SampleWorld}
    (hr : Recovered w.jobs) :
    Ends cfg.step
      (Prog.run (script.handle cfg.step) (cfg.deps.markSampleFailed site error) w)
      (script.failSettles site (presence w.jobs))
      (script.failReturns site (presence w.jobs)) := by
  obtain ⟨r, jobs, row, hrun, hp, hrec, hraise, hok⟩ :=
    markSampleFailed_spec cfg script site error hr
  rw [hrun]
  constructor
  · rw [accounted_iff hrec, hp]
    unfold Script.failSettles
    rcases hpres : presence w.jobs with ⟨pending, completed, failed⟩
    rw [hpres] at hraise hok
    cases pending <;> cases ho : script.markFailed site <;> rw [ho] at hraise hok <;>
      simp_all [Presence.markRaises, Presence.markFailed, Presence.CompletedOnly,
        Presence.FailedOnly]
  · unfold Script.failReturns
    cases hm : (presence w.jobs).markRaises (script.markFailed site) with
    | true =>
      obtain ⟨-, m, rfl⟩ := hraise hm
      simp
    | false =>
      obtain ⟨-, rfl⟩ := hok hm
      rcases reportFailure_cases script site with ⟨h1, h2⟩ | ⟨h1, m, h2⟩ <;>
        simp [h1, h2]

/-! ### Recovery -/

theorem run_finishRecovered (handle : Nat) (w : SampleWorld) :
    Prog.run (script.handle cfg.step) (cfg.deps.finishRecovered handle) w =
      match script.onSuccess handle 0 with
      | .raisesEarly m => (.error (.exception m), w)
      | .raisesLate m =>
        (.error (.exception m), { w with row := recordSuccess cfg.step w.row })
      | .done =>
        match w.jobs.markCompleted script.now (script.markCompleted .recovered) with
        | (jobs, .error e) =>
          (.error e, { w with jobs := jobs, row := recordSuccess cfg.step w.row })
        | (jobs, .ok ()) => ((script.checkpointSample .recovered).toExcept,
            { w with jobs := jobs, row := recordSuccess cfg.step w.row }) := by
  unfold FanoutDeps.finishRecovered
  rw [Prog.run_bind, run_invoke]
  simp only [Script.handleCallback]
  cases script.onSuccess handle 0 with
  | raisesEarly m => rfl
  | raisesLate m => rfl
  | done =>
    cases hm : cfg.recoveryManager <;>
      simp only [FanoutConfig.deps, hm, Bool.false_eq_true, if_true, if_false,
        Prog.run_bind, run_resetRecovery, run_invoke, Script.handleCallback] <;>
      rcases w.jobs.markCompleted script.now (script.markCompleted .recovered)
        with ⟨jobs, e | ⟨⟩⟩ <;> rfl

/-- A row without a status of the step's. -/
def Cleared (step : Step) (row : SampleRow) : Prop :=
  row.get? (.status (.lower step)) = none ∧
    row.get? (.status step.canonicalPrefix) = none

theorem Cleared.not_failed {step : Step} {row : SampleRow} (h : Cleared step row) :
    ¬ FailedStatus step row := by
  rintro (hl | hc)
  · rw [h.1] at hl
    exact nomatch hl
  · rw [h.2] at hc
    exact nomatch hc

theorem clearFailure_cleared (step : Step) (row : SampleRow) :
    Cleared step (clearFailure step row) :=
  ⟨clearFailure_lower step row, clearFailure_canonical step row⟩

/-- What the success callback leaves of a cleared row is not failed. -/
theorem Cleared.recordSuccess {step : Step} {row : SampleRow} (h : Cleared step row) :
    ¬ FailedStatus step (recordSuccess step row) := by
  rintro (hl | hc)
  · rw [recordSuccess_lower, h.1] at hl
    exact nomatch hl
  · rw [recordSuccess_canonical] at hc
    exact absurd hc (by decide)

/-- One round of the recovery loop. -/
theorem run_recoveryLoop_succ (rounds n : Nat) {w : SampleWorld}
    (ha : w.awaited = true) :
    Prog.run (script.handle cfg.step) (cfg.deps.recoveryLoop (rounds + 1) n) w =
      let w' := { w with row := clearFailure cfg.step w.row }
      if script.canRecover n then
        match script.resubmit n with
        | .raises m => (.error (.exception m), w')
        | .none => (.ok false, w')
        | .handle =>
          match script.result (n + 1) with
          | .cancelled m => (.error (.cancelledError m), w')
          | .exception _ =>
            Prog.run (script.handle cfg.step) (cfg.deps.recoveryLoop rounds (n + 1)) w'
          | .result =>
            match Prog.run (script.handle cfg.step)
              (cfg.deps.finishRecovered (n + 1)) w' with
            | (.ok (), w'') => (.ok true, w'')
            | (.error e, w'') => (.error e, w'')
      else (.ok false, w) := by
  obtain ⟨jobs, row, awaited⟩ := w
  obtain rfl : awaited = true := ha
  rw [FanoutDeps.recoveryLoop, Prog.run_bind, run_checkAndRecover]
  cases hc : script.canRecover n with
  | false => simp
  | true =>
    simp only [if_true, Prog.run_bind, run_clearFailure, run_resubmit]
    cases hs : script.resubmit n with
    | raises m => rfl
    | none => simp [ResubmitOutcome.toExcept]
    | handle =>
      simp only [ResubmitOutcome.toExcept, if_true, Prog.run_bind, run_exceptException,
        run_invoke, Script.handleCallback]
      cases hres : script.result (n + 1) with
      | cancelled m => simp [PyError.isException]
      | exception m => simp [PyError.isException]
      | result =>
        simp only [Prog.run_pure, if_true, Prog.run_bind]
        rcases Prog.run (script.handle cfg.step) (cfg.deps.finishRecovered (n + 1)) _
          with ⟨e | ⟨⟩, w''⟩ <;> rfl

/-- The recovery loop, by its fate: only rows change on the way, and the row
a resubmission starts from is cleared. -/
theorem run_recoveryLoop (rounds n : Nat) {w : SampleWorld} (ha : w.awaited = true) :
    match script.recovery rounds n with
    | .gaveUp => ∃ row,
        Prog.run (script.handle cfg.step) (cfg.deps.recoveryLoop rounds n) w =
          (.ok false, { w with row := row })
    | .raised => ∃ row e, Cleared cfg.step row ∧
        Prog.run (script.handle cfg.step) (cfg.deps.recoveryLoop rounds n) w =
          (.error e, { w with row := row })
    | .delivered handle => ∃ row, Cleared cfg.step row ∧
        Prog.run (script.handle cfg.step) (cfg.deps.recoveryLoop rounds n) w =
          match Prog.run (script.handle cfg.step) (cfg.deps.finishRecovered handle)
            { w with row := row } with
          | (.ok (), w') => (.ok true, w')
          | (.error e, w') => (.error e, w') := by
  induction rounds generalizing n w with
  | zero => exact ⟨w.row, rfl⟩
  | succ rounds ih =>
    have hclear := clearFailure_cleared cfg.step w.row
    rw [run_recoveryLoop_succ cfg script rounds n ha]
    unfold Script.recovery
    cases script.canRecover n with
    | false => exact ⟨w.row, rfl⟩
    | true =>
      cases script.resubmit n with
      | raises m => exact ⟨_, _, hclear, rfl⟩
      | none => exact ⟨_, rfl⟩
      | handle =>
        cases script.result (n + 1) with
        | cancelled m => exact ⟨_, _, hclear, rfl⟩
        | exception m =>
          exact @ih (n + 1) { w with row := clearFailure cfg.step w.row } ha
        | result => exact ⟨_, hclear, rfl⟩

/-- The fate of the sample's recovery under a configuration. -/
def Script.recoveryOf (cfg : FanoutConfig) : Recovery :=
  if cfg.recoveryManager && cfg.resubmitCallback
  then script.recovery cfg.maxSampleRetries 0 else .gaveUp

/-- When a delivered resubmission accounts for a job found in `p`. -/
def Script.recoverySettles (handle : Nat) (p : Presence) : Prop :=
  if p.pending then script.onSuccess handle 0 = .done ∧
    script.markCompleted .recovered = .ok ∧ p.failed = false
  else p.CompletedOnly

/-- When it returns. -/
def Script.recoveryReturns (handle : Nat) (p : Presence) : Prop :=
  script.onSuccess handle 0 = .done ∧
    p.markRaises (script.markCompleted .recovered) = false ∧
      script.checkpointSample .recovered = .ok

theorem recoverySettles_of_raises {handle : Nat} (h : script.onSuccess handle 0 ≠ .done)
    (p : Presence) : script.recoverySettles handle p ↔ p.CompletedOnly := by
  rcases p with ⟨pending, completed, failed⟩
  cases pending <;> simp [Script.recoverySettles, Presence.CompletedOnly, h]

theorem recoverySettles_of_done {handle : Nat} (h : script.onSuccess handle 0 = .done)
    (p : Presence) :
    script.recoverySettles handle p ↔
      (p.markCompleted (script.markCompleted .recovered)).CompletedOnly := by
  rcases p with ⟨pending, completed, failed⟩
  cases pending <;> cases hm : script.markCompleted .recovered <;>
    simp [Script.recoverySettles, Presence.markCompleted, Presence.CompletedOnly, h, hm]

theorem finishRecovered_ends (handle : Nat) {w : SampleWorld} (hr : Recovered w.jobs)
    (hc : Cleared cfg.step w.row) :
    Ends cfg.step
      (Prog.run (script.handle cfg.step) (cfg.deps.finishRecovered handle) w)
      (script.recoverySettles handle (presence w.jobs))
      (script.recoveryReturns handle (presence w.jobs)) := by
  rw [run_finishRecovered]
  unfold Script.recoveryReturns
  cases ho : script.onSuccess handle 0 with
  | raisesEarly m =>
    have hne : script.onSuccess handle 0 ≠ .done := by rw [ho]; exact fun h => nomatch h
    rw [recoverySettles_of_raises script hne]
    exact ⟨accounted_of_not_failed hr hc.not_failed, by simp⟩
  | raisesLate m =>
    have hne : script.onSuccess handle 0 ≠ .done := by rw [ho]; exact fun h => nomatch h
    rw [recoverySettles_of_raises script hne]
    exact ⟨accounted_of_not_failed (w := { w with row := recordSuccess cfg.step w.row })
      hr hc.recordSuccess, by simp⟩
  | done =>
    rw [recoverySettles_of_done script ho]
    obtain ⟨hp, hrec, hok, herr⟩ :=
      markCompleted_spec hr script.now (script.markCompleted .recovered)
    rcases hm : w.jobs.markCompleted script.now (script.markCompleted .recovered)
      with ⟨jobs, r⟩
    rw [hm] at hp hrec hok herr
    have hacc := accounted_of_not_failed
      (w := { w with jobs := jobs, row := recordSuccess cfg.step w.row }) hrec
      hc.recordSuccess
    rw [show presence jobs = _ from hp] at hacc
    cases hraise : (presence w.jobs).markRaises (script.markCompleted .recovered) with
    | true =>
      obtain ⟨m, rfl⟩ : ∃ m, r = _ := herr hraise
      exact ⟨hacc, by simp⟩
    | false =>
      obtain rfl : r = _ := hok hraise
      refine ⟨hacc, ?_⟩
      cases script.checkpointSample .recovered <;> simp [CallOutcome.toExcept]

/-! ### The handlers and the whole -/

/-- When the outer handler accounts for a job found in `p`. -/
def Script.exceptionSettles (cfg : FanoutConfig) (p : Presence) : Prop :=
  match script.recoveryOf cfg with
  | .gaveUp => script.failSettles .failure p
  | .raised => p.CompletedOnly
  | .delivered handle => script.recoverySettles handle p

/-- When it returns. -/
def Script.exceptionReturns (cfg : FanoutConfig) (p : Presence) : Prop :=
  match script.recoveryOf cfg with
  | .gaveUp => script.failReturns .failure p
  | .raised => False
  | .delivered handle => script.recoveryReturns handle p

theorem handleException_ends (error : PyError) {w : SampleWorld}
    (hr : Recovered w.jobs) (ha : w.awaited = true) :
    Ends cfg.step
      (Prog.run (script.handle cfg.step) (cfg.deps.handleException error) w)
      (script.exceptionSettles cfg (presence w.jobs))
      (script.exceptionReturns cfg (presence w.jobs)) := by
  unfold Script.exceptionSettles Script.exceptionReturns Script.recoveryOf
  rw [FanoutDeps.handleException, Prog.run_bind, FanoutDeps.recover]
  cases hb : cfg.recoveryManager && cfg.resubmitCallback with
  | false =>
    simp only [FanoutConfig.deps, hb, Bool.false_eq_true, if_false, Prog.run_pure]
    exact markSampleFailed_ends cfg script .failure error hr
  | true =>
    have hloop := run_recoveryLoop cfg script cfg.maxSampleRetries 0 ha
    simp only [FanoutConfig.deps, hb, if_true] at hloop ⊢
    cases hrec : script.recovery cfg.maxSampleRetries 0 with
    | gaveUp =>
      rw [hrec] at hloop
      obtain ⟨row, hrun⟩ := hloop
      rw [hrun]
      exact @markSampleFailed_ends cfg script .failure error { w with row := row } hr
    | raised =>
      rw [hrec] at hloop
      obtain ⟨row, e, hc, hrun⟩ := hloop
      rw [hrun]
      exact ⟨@accounted_of_not_failed _ { w with row := row } hr hc.not_failed, by simp⟩
    | delivered handle =>
      rw [hrec] at hloop
      obtain ⟨row, hc, hrun⟩ := hloop
      rw [hrun]
      have hends := @finishRecovered_ends cfg script handle { w with row := row } hr hc
      simp only [FanoutConfig.deps] at hends
      rcases hfin : Prog.run (script.handle cfg.step)
        (FanoutDeps.finishRecovered _ handle) { w with row := row } with ⟨e | ⟨⟩, w'⟩
      · rw [hfin] at hends
        exact hends
      · rw [hfin] at hends
        exact hends

/-- When the inner handler, with whatever follows from it, accounts for a job
found in `p`: an error it raises itself goes to the outer handler. -/
def Script.bookkeepingSettles (cfg : FanoutConfig) (p : Presence) : Prop :=
  (script.failReturns .bookkeeping p ∧ script.failSettles .bookkeeping p) ∨
    (¬ script.failReturns .bookkeeping p ∧
      script.exceptionSettles cfg (p.markFailed (script.markFailed .bookkeeping)))

/-- When it returns. -/
def Script.bookkeepingReturns (cfg : FanoutConfig) (p : Presence) : Prop :=
  script.failReturns .bookkeeping p ∨
    script.exceptionReturns cfg (p.markFailed (script.markFailed .bookkeeping))

/-- Whether the bookkeeping of a good result succeeds, the mark included. -/
def Script.keepsBooks (p : Presence) : Prop :=
  script.bookkept 0 bookkeepingMaxAttempts 0 = true ∧
    p.markRaises (script.markCompleted .success) = false

/-- The directories the inner handler finds when it does not. -/
def Script.unkept (p : Presence) : Presence :=
  if script.bookkept 0 bookkeepingMaxAttempts 0 = true
  then p.markCompleted (script.markCompleted .success) else p

/-- **When a sample is accounted for**, from the directories that hold its
job, and whether a failed status from an earlier fan-out is on its row. -/
def Script.Settles (cfg : FanoutConfig) (p : Presence) (stale : Prop) : Prop :=
  match script.result 0 with
  | .cancelled _ => script.failSettles .cancellation p
  | .exception _ => script.exceptionSettles cfg p
  | .result =>
    (script.keepsBooks p ∧
      (((p.markCompleted (script.markCompleted .success)).CompletedOnly ∧ ¬ stale) ∨
        ((p.markCompleted (script.markCompleted .success)).FailedOnly ∧ stale))) ∨
      (¬ script.keepsBooks p ∧ script.bookkeepingSettles cfg (script.unkept p))

/-- When `_await_one` returns rather than raises. -/
def Script.Returns (cfg : FanoutConfig) (p : Presence) : Prop :=
  match script.result 0 with
  | .cancelled _ => script.failReturns .cancellation p
  | .exception _ => script.exceptionReturns cfg p
  | .result =>
    (script.keepsBooks p ∧ script.checkpointSample .success = .ok) ∨
      (¬ script.keepsBooks p ∧ script.bookkeepingReturns cfg (script.unkept p))

/-- A failed status of the step under its lower-cased name: what the success
callback does not overwrite. -/
def Stale (step : Step) (row : SampleRow) : Prop :=
  row.get? (.status (.lower step)) = some (.str "failed")

theorem traceIdFor_status (row : SampleRow) (tid : String) (p : Campaign.Prefix) :
    (row.traceIdFor tid).1.get? (.status p) = row.get? (.status p) := by
  unfold SampleRow.traceIdFor
  split
  · rfl
  · exact Dict.get?_set_ne row (by exact fun h => by cases h) _

/-- The inner handler on a job in `p`, and what follows from it. -/
theorem bookkeepingHandler_ends (m : String) {w : SampleWorld}
    (hr : Recovered w.jobs) (ha : w.awaited = true) :
    Ends cfg.step
      (match Prog.run (script.handle cfg.step) (cfg.deps.markSampleFailed .bookkeeping
          (.postResultBookkeepingError m)) w with
        | (.ok (), w') => (.ok (), w')
        | (.error e, w') =>
          Prog.run (script.handle cfg.step) (cfg.deps.handleException e) w')
      (script.bookkeepingSettles cfg (presence w.jobs))
      (script.bookkeepingReturns cfg (presence w.jobs)) := by
  have hends := markSampleFailed_ends cfg script .bookkeeping
    (.postResultBookkeepingError m) hr
  obtain ⟨r, jobs, row, hrun, hp, hrec, -, -⟩ := markSampleFailed_spec cfg script
    .bookkeeping (.postResultBookkeepingError m) hr
  unfold Script.bookkeepingSettles Script.bookkeepingReturns
  rw [hrun] at hends ⊢
  rcases r with e | ⟨⟩
  · have hret : ¬ script.failReturns .bookkeeping (presence w.jobs) :=
      fun h => nomatch hends.returns.mpr h
    have hexc := handleException_ends cfg script e
      (w := { w with jobs := jobs, row := row }) hrec ha
    rw [show presence jobs = _ from hp] at hexc
    simpa only [hret, false_and, false_or, not_false_eq_true, true_and] using hexc
  · have hret := hends.returns.mp rfl
    refine ⟨?_, by simp [hret]⟩
    simpa only [hret, true_and, not_true_eq_false, false_and, or_false] using
      hends.accounted

/-- The bookkeeping of a good result, the mark included. -/
theorem run_bookkeep (w : SampleWorld) :
    Prog.run (script.handle cfg.step) cfg.deps.bookkeep w =
      match script.bookkeeping cfg.step 0 bookkeepingMaxAttempts 0 w.row with
      | (some m, row) => (.error (.exception m), { w with row := row })
      | (none, row) =>
        match w.jobs.markCompleted script.now (script.markCompleted .success) with
        | (jobs, r) => (r, { w with jobs := jobs, row := row }) := by
  rw [FanoutDeps.bookkeep, Prog.run_bind, run_bookkeeping]
  rcases script.bookkeeping cfg.step 0 bookkeepingMaxAttempts 0 w.row with ⟨_ | m, row⟩
  · cases hm : cfg.recoveryManager <;>
      simp only [FanoutConfig.deps, hm, Bool.false_eq_true, if_true, if_false,
        Prog.run_bind, Prog.run_pure, run_resetRecovery, run_invoke,
        Script.handleCallback] <;>
      rcases w.jobs.markCompleted script.now (script.markCompleted .success)
        with ⟨jobs, e | ⟨⟩⟩ <;> rfl
  · rfl

/-- What `_await_one` does with the end of its outer `try`. -/
def FanoutConfig.afterTry (cfg : FanoutConfig) (script : Script) :
    Except PyError Bool × SampleWorld → Except PyError Unit × SampleWorld
  | (.ok fallsThrough, w) => Prog.run (script.handle cfg.step)
      (if fallsThrough then cfg.deps.checkpointSample .success else pure ()) w
  | (.error e, w) => (.error e, w)

theorem run_awaitOne (w : SampleWorld) :
    Prog.run (script.handle cfg.step) cfg.deps.awaitOne w =
      cfg.afterTry script
        (match Prog.run (script.handle cfg.step) cfg.deps.awaitResult
            { w with row := (w.row.traceIdFor script.newTraceId).1 } with
          | (.ok fallsThrough, w') => (.ok fallsThrough, w')
          | (.error e, w') => Prog.run (script.handle cfg.step)
              (do cfg.deps.handleError e; pure false) w') := by
  rw [FanoutDeps.awaitOne, Prog.run_bind, run_traceIdFor]
  simp only
  rw [Prog.run_bind, Prog.run_tryCatch]
  rcases Prog.run (script.handle cfg.step) cfg.deps.awaitResult
    { w with row := (w.row.traceIdFor script.newTraceId).1 } with ⟨e | a, w'⟩
  · simp only
    rcases Prog.run (script.handle cfg.step) (do cfg.deps.handleError e; pure false) w'
      with ⟨e' | a, w''⟩ <;> rfl
  · rfl

/-- A handler of the outer `try` decides how `_await_one` ends. -/
theorem afterTry_handled (e : PyError) (w : SampleWorld) :
    cfg.afterTry script (Prog.run (script.handle cfg.step)
        (do cfg.deps.handleError e; pure false) w) =
      Prog.run (script.handle cfg.step) (cfg.deps.handleError e) w := by
  rw [Prog.run_bind]
  rcases Prog.run (script.handle cfg.step) (cfg.deps.handleError e) w with ⟨e' | ⟨⟩, w'⟩
  · rfl
  · rfl

/-- What `mark_sample_failed` raises, `except Exception` catches. -/
theorem markSampleFailed_error {site : Site} {error e : PyError} {w w' : SampleWorld}
    (hr : Recovered w.jobs)
    (h : Prog.run (script.handle cfg.step) (cfg.deps.markSampleFailed site error) w =
      (.error e, w')) : e.isException = true := by
  obtain ⟨r, jobs, row, hrun, -, -, hraise, hok⟩ :=
    markSampleFailed_spec cfg script site error hr
  rw [hrun, Prod.mk.injEq] at h
  obtain ⟨rfl, -⟩ := h
  cases hm : (presence w.jobs).markRaises (script.markFailed site) with
  | true =>
    obtain ⟨-, m, he⟩ := hraise hm
    cases he
    rfl
  | false =>
    have hrep := (hok hm).2
    rcases reportFailure_cases script site with ⟨-, h2⟩ | ⟨-, m, h2⟩
    · rw [h2] at hrep
      exact nomatch hrep
    · rw [h2] at hrep
      cases hrep
      rfl

/-- A bookkeeping error, from the inner handler on. -/
theorem afterTry_unkept (m : String) {w : SampleWorld} (hr : Recovered w.jobs)
    (ha : w.awaited = true) :
    Ends cfg.step
      (cfg.afterTry script
        (match Prog.run (script.handle cfg.step) (do
            cfg.deps.markSampleFailed .bookkeeping (.postResultBookkeepingError m)
            pure false) w with
          | (.ok fallsThrough, w') => (.ok fallsThrough, w')
          | (.error e, w') => Prog.run (script.handle cfg.step)
              (do cfg.deps.handleError e; pure false) w'))
      (script.bookkeepingSettles cfg (presence w.jobs))
      (script.bookkeepingReturns cfg (presence w.jobs)) := by
  have hends := bookkeepingHandler_ends cfg script m hr ha
  rw [Prog.run_bind]
  rcases hrun : Prog.run (script.handle cfg.step) (cfg.deps.markSampleFailed
    .bookkeeping (.postResultBookkeepingError m)) w with ⟨e | ⟨⟩, w'⟩
  · rw [hrun] at hends
    have he := markSampleFailed_error cfg script hr hrun
    simp only
    rw [afterTry_handled, FanoutDeps.handleError, if_pos he]
    exact hends
  · rw [hrun] at hends
    exact hends

theorem keepsBooks_iff (p : Presence) (row : SampleRow) :
    script.keepsBooks p ↔
      (script.bookkeeping cfg.step 0 bookkeepingMaxAttempts 0 row).1 = none ∧
        p.markRaises (script.markCompleted .success) = false := by
  rw [Script.keepsBooks, bookkeeping_fst]

/-- **One sample.** `_await_one` accounts for it exactly when its script
`Settles`, and returns exactly when it `Returns`. -/
theorem awaitOne_ends {w : SampleWorld} (hr : Recovered w.jobs) :
    Ends cfg.step (Prog.run (script.handle cfg.step) cfg.deps.awaitOne w)
      (script.Settles cfg (presence w.jobs) (Stale cfg.step w.row))
      (script.Returns cfg (presence w.jobs)) := by
  rw [run_awaitOne, FanoutDeps.awaitResult, Prog.run_bind, run_invoke]
  unfold Script.Settles Script.Returns
  cases hres : script.result 0 with
  | cancelled m =>
    simp only [Script.handleCallback, hres, afterTry_handled]
    exact @markSampleFailed_ends cfg script .cancellation _ (SampleWorld.mk _ _ true) hr
  | exception m =>
    simp only [Script.handleCallback, hres, afterTry_handled]
    exact @handleException_ends cfg script _ (SampleWorld.mk _ _ true) hr rfl
  | result =>
    simp only [Script.handleCallback, hres]
    rw [run_exceptException, Prog.run_bind, run_bookkeep]
    have hkeeps := keepsBooks_iff cfg script (presence w.jobs)
      (w.row.traceIdFor script.newTraceId).1
    have hlower := bookkeeping_lower script cfg.step 0 bookkeepingMaxAttempts 0
      (w.row.traceIdFor script.newTraceId).1
    rw [traceIdFor_status] at hlower
    rcases hb : script.bookkeeping cfg.step 0 bookkeepingMaxAttempts 0
      (w.row.traceIdFor script.newTraceId).1 with ⟨_ | m, row⟩
    · have hkept : script.bookkept 0 bookkeepingMaxAttempts 0 = true :=
        (bookkeeping_fst script cfg.step 0 bookkeepingMaxAttempts 0 _).mp (by rw [hb])
      have hcanon := @bookkeeping_canonical script cfg.step 0 bookkeepingMaxAttempts 0
        (by decide) (w.row.traceIdFor script.newTraceId).1 hkept
      rw [hb] at hkeeps hlower hcanon
      obtain ⟨hp, hrec, hok, herr⟩ :=
        markCompleted_spec hr script.now (script.markCompleted .success)
      rcases hm : w.jobs.markCompleted script.now (script.markCompleted .success)
        with ⟨jobs, r⟩
      rw [hm] at hp hrec hok herr
      cases hraise : (presence w.jobs).markRaises (script.markCompleted .success) with
      | true =>
        obtain ⟨m, rfl⟩ : ∃ m, r = _ := herr hraise
        have hnot : ¬ script.keepsBooks (presence w.jobs) := by simp [hkeeps, hraise]
        have hends := @afterTry_unkept cfg script m (SampleWorld.mk jobs row true) hrec rfl
        rw [show presence jobs = _ from hp] at hends
        have hun : script.unkept (presence w.jobs) =
            (presence w.jobs).markCompleted (script.markCompleted .success) := by
          rw [Script.unkept, if_pos hkept]
        simp only [PyError.isException, if_true, hnot, false_and, false_or,
          not_false_eq_true, true_and, hun]
        exact hends
      | false =>
        obtain rfl : r = _ := hok hraise
        have hyes : script.keepsBooks (presence w.jobs) := by simp [hkeeps, hraise]
        have hstale : FailedStatus cfg.step row ↔ Stale cfg.step w.row := by
          unfold FailedStatus Stale
          rw [hlower, hcanon]
          simp
        simp only [hyes, true_and, not_true_eq_false, false_and, or_false]
        constructor
        · rw [← hstale, ← show presence jobs = _ from hp]
          exact accounted_iff (w := SampleWorld.mk jobs row true) hrec
        · show (script.checkpointSample .success).toExcept = _ ↔ _
          cases script.checkpointSample .success <;> simp [CallOutcome.toExcept]
    · have hlost : ¬ script.bookkept 0 bookkeepingMaxAttempts 0 = true := by
        rw [← bookkeeping_fst script cfg.step 0 bookkeepingMaxAttempts 0, hb]
        exact fun h => by cases h
      have hnot : ¬ script.keepsBooks (presence w.jobs) := fun h => hlost h.1
      have hun : script.unkept (presence w.jobs) = presence w.jobs := by
        rw [Script.unkept, if_neg hlost]
      simp only [PyError.isException, if_true, hnot, false_and, false_or,
        not_false_eq_true, true_and, hun]
      exact @afterTry_unkept cfg script m (SampleWorld.mk _ row true) hr rfl

end Handlers

end OSimFlow.Fanout
