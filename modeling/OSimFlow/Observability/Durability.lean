import OSimFlow.Observability.RunTrace

/-!
# Which checkpoints survive the campaign's own writes

`Watched` runs the two writers of `RunTrace.lean` against a ghost record of
the last row each sample checkpointed successfully. `Durable` is what a
reader of `run.json` relies on: for every checkpointed sample the file holds
exactly one row, the latest, and the summary counts the rows.

`update_sample` keeps `Durable` (`mergeRow_durable`), and so does any write
that fails before its rename. A write that completes replaces the rows by
those in memory, so it keeps `Durable` exactly when the memory already holds
the latest row of every checkpointed sample — `Covers`. Along runs:

> `durable_iff_covered`: every state of a run is durable iff every write of
> the run that completes does so while `per_sample` covers the checkpoints.

The pause and cancel exits write without `finalize_samples`, with
`per_sample` still empty: `paused_run_drops_rows` is such a run.
-/

namespace OSimFlow.Observability

open OSimFlow.Lib
open OSimFlow.Campaign (SampleTrace SampleState SampleRow)

/-- What happens to `run.json` during campaigns over one output directory. -/
inductive Event where
  /-- A process starts: a fresh `RunTrace` and its first write. -/
  | start (campaignId : String) (now : Int) (disk : DiskOutcome)
  /-- A checkpoint from a fan-out thread. -/
  | updateSample (t : SampleTrace) (now : Int) (disk : DiskOutcome)
  /-- `finalize_samples` over the accumulated `_sample_state`. -/
  | finalizeSamples (newTraceId : String → String) (sampleState : SampleState)
  | pause (now : Int) (disk : DiskOutcome)
  | cancel (now : Int) (disk : DiskOutcome)
  | detached (now : Int) (disk : DiskOutcome)
  | exception (error : String) (now : Int)
  | finallyWrite (now : Int) (disk : DiskOutcome)
  | finish (now : Int) (disk : DiskOutcome)

/-- The record, the file, and the last row checkpointed for each sample. -/
structure Watched where
  monitor : Monitor
  latest : String → Option SampleTrace

namespace Watched

/-- The ghost record after `update_sample(t)` returned. -/
def acknowledge (latest : String → Option SampleTrace) (t : SampleTrace) :
    String → Option SampleTrace :=
  fun sid => if t.sampleId = sid then some t else latest sid

/-- One event. The ghost record moves only when `update_sample` returned. -/
def step (path : String) (w : Watched) : Event → Watched
  | .start campaignId now disk =>
    { w with monitor := Monitor.startWrite w.monitor.file path campaignId now disk }
  | .updateSample t now disk =>
    match w.monitor.updateSample t now disk with
    | (m, none) => ⟨m, acknowledge w.latest t⟩
    | (m, some _) => { w with monitor := m }
  | .finalizeSamples newTraceId sampleState =>
    let trace := w.monitor.trace.finalizeSamples newTraceId sampleState
    { w with monitor := { w.monitor with trace := trace } }
  | .pause now disk => { w with monitor := w.monitor.writePausedTrace path now disk }
  | .cancel now disk => { w with monitor := w.monitor.cancelHandler path now disk }
  | .detached now disk => { w with monitor := w.monitor.detachedHandler path now disk }
  | .exception error now => { w with monitor := w.monitor.exceptionHandler error now }
  | .finallyWrite now disk => { w with monitor := w.monitor.finallyWrite path now disk }
  | .finish now disk => { w with monitor := w.monitor.finishWrite path now disk }

/-- The state after the campaign's start write, over whatever file an
earlier campaign left. -/
def started (path campaignId : String) (now : Int) (old : RunFile) : Watched where
  monitor := Monitor.startWrite old path campaignId now .ok
  latest := fun _ => none

/-- For every checkpointed sample, `run.json` holds exactly one row, the
latest, and the summary counts the rows. -/
def Durable (w : Watched) : Prop :=
  ∀ sid t, w.latest sid = some t →
    ∃ data, w.monitor.file = .json data ∧
      filed SampleTrace.sampleId sid data.perSample = [t] ∧
      data.summary = summarize data.perSample

/-- `rows` hold exactly one row, the latest, of every checkpointed sample. -/
def Covers (latest : String → Option SampleTrace) (rows : List SampleTrace) : Prop :=
  ∀ sid t, latest sid = some t → filed SampleTrace.sampleId sid rows = [t]

/-- The in-memory rows that an event dumps into `run.json`, if it does. -/
def rowsDumped (w : Watched) : Event → Option (List SampleTrace)
  | .start _ _ .ok => some []
  | .pause _ .ok | .cancel _ .ok | .detached _ .ok | .finallyWrite _ .ok
  | .finish _ .ok => some w.monitor.trace.perSample
  | _ => none

/-- A write that completes does so while the memory covers the checkpoints. -/
def Covered (w : Watched) (e : Event) : Prop :=
  ∀ rows, w.rowsDumped e = some rows → Covers w.latest rows

/-! ## The invariant: a path, a parsable file, no row twice -/

/-- After the start write: the path is recorded, no sample has two rows in
memory or on disk, and the file parses, its summary counting its rows. -/
structure Inv (w : Watched) : Prop where
  path : w.monitor.trace.checkpointPath ≠ none
  mem : (w.monitor.trace.perSample.map SampleTrace.sampleId).Nodup
  disk : ∃ data, w.monitor.file = .json data ∧
    (data.perSample.map SampleTrace.sampleId).Nodup ∧
    data.summary = summarize data.perSample

theorem finalizeRows_nodup {newTraceId : String → String}
    {items : List (String × SampleRow)} {rows : List SampleTrace}
    (h : (rows.map SampleTrace.sampleId).Nodup) :
    ((RunTrace.finalizeRows newTraceId items rows).1.map
      SampleTrace.sampleId).Nodup := by
  induction items generalizing rows with
  | nil => exact h
  | cons item items ih =>
    obtain ⟨sid, state⟩ := item
    unfold RunTrace.finalizeRows
    split
    · exact h
    · exact ih (nodup_upsert _ h)

/-- Every way of writing is `Monitor.write` of a trace with the same rows. -/
theorem write_inv {w : Watched} (h : Inv w) {trace : RunTrace} {path : String}
    {now : Int} {disk : DiskOutcome}
    (hmem : (trace.perSample.map SampleTrace.sampleId).Nodup) :
    Inv { w with monitor := Monitor.write ⟨trace, w.monitor.file⟩ path now disk } := by
  cases disk with
  | ok => exact ⟨by simp [Monitor.write], hmem, _, rfl, hmem, rfl⟩
  | osError => exact ⟨by simp [Monitor.write], hmem, h.disk⟩

/-- With the path recorded and the file parsing, `update_sample` merges its
row unless the disk fails. -/
theorem updateSample_eq {w : Watched} (h : Inv w) (t : SampleTrace) (now : Int)
    {data : RunJson} (hdata : w.monitor.file = .json data) :
    w.monitor.updateSample t now .ok =
      ({ w.monitor with file := .json (Monitor.mergeRow data t) }, none) := by
  unfold Monitor.updateSample
  cases hp : w.monitor.trace.checkpointPath with
  | none => exact absurd hp h.path
  | some p => simp only [hdata]

theorem updateSample_osError {w : Watched} (h : Inv w) (t : SampleTrace) (now : Int) :
    w.monitor.updateSample t now .osError =
      (w.monitor, some (.exception "OSError")) := by
  unfold Monitor.updateSample
  cases hp : w.monitor.trace.checkpointPath with
  | none => exact absurd hp h.path
  | some p => rfl

/-- With a file on disk the `finally` block writes. -/
theorem finallyWrite_eq {w : Watched} (h : Inv w) (path : String) (now : Int)
    (disk : DiskOutcome) :
    w.monitor.finallyWrite path now disk = w.monitor.write path now disk := by
  obtain ⟨data, hdata, -⟩ := h.disk
  unfold Monitor.finallyWrite
  rw [hdata]

theorem step_inv {path : String} {w : Watched} (e : Event) (h : Inv w) :
    Inv (w.step path e) := by
  cases e with
  | start campaignId now disk => exact write_inv h List.nodup_nil
  | updateSample t now disk =>
    cases disk with
    | ok =>
      obtain ⟨data, hdata, hnd, -⟩ := h.disk
      simp only [step, updateSample_eq h t now hdata]
      exact ⟨h.path, h.mem, _, rfl, nodup_upsert _ hnd, rfl⟩
    | osError =>
      simp only [step, updateSample_osError h t now]
      exact h
  | finalizeSamples newTraceId sampleState =>
    exact ⟨h.path, finalizeRows_nodup h.mem, h.disk⟩
  | pause now disk => exact write_inv h h.mem
  | cancel now disk => exact write_inv h h.mem
  | detached now disk => exact write_inv h h.mem
  | exception error now => exact ⟨h.path, h.mem, h.disk⟩
  | finallyWrite now disk =>
    simp only [step, finallyWrite_eq h]
    exact write_inv h h.mem
  | finish now disk => exact write_inv h h.mem

theorem started_inv (path campaignId : String) (now : Int) (old : RunFile) :
    Inv (started path campaignId now old) :=
  ⟨by simp [started, Monitor.startWrite, Monitor.write], List.nodup_nil, _, rfl,
    List.nodup_nil, rfl⟩

/-! ## What each event does to durability -/

/-- A completed dump is durable exactly when the dumped rows cover the
checkpoints. -/
theorem dump_durable_iff {latest : String → Option SampleTrace} {trace : RunTrace}
    {now : Int} :
    Durable ⟨⟨trace, .json (trace.toDict now)⟩, latest⟩ ↔
      Covers latest trace.perSample := by
  constructor
  · intro h sid t hl
    obtain ⟨data, hdata, hrow, -⟩ := h sid t hl
    cases hdata
    exact hrow
  · intro h sid t hl
    exact ⟨_, rfl, h sid t hl, rfl⟩

/-- Durability only looks at the file and the ghost record. -/
theorem durable_congr {w w' : Watched} (hf : w'.monitor.file = w.monitor.file)
    (hl : w'.latest = w.latest) : Durable w' ↔ Durable w := by
  simp only [Durable, hf, hl]

/-- Merging one row keeps every other sample's and installs its own. -/
theorem mergeRow_durable {w : Watched} (h : Inv w) (hd : Durable w)
    {data : RunJson} (hdata : w.monitor.file = .json data) (t : SampleTrace) :
    Durable ⟨{ w.monitor with file := .json (Monitor.mergeRow data t) },
      acknowledge w.latest t⟩ := by
  obtain ⟨data', hdata', hnd, -⟩ := h.disk
  obtain rfl : data' = data := by
    rw [hdata] at hdata'
    cases hdata'
    rfl
  intro sid t' hl
  refine ⟨_, rfl, ?_, rfl⟩
  by_cases hsid : t.sampleId = sid
  · subst hsid
    simp only [acknowledge, if_true, Option.some.injEq] at hl
    subst hl
    exact filed_upsert_self SampleTrace.sampleId hnd
  · simp only [acknowledge, if_neg hsid] at hl
    obtain ⟨data'', hdata'', hrow, -⟩ := hd sid t' hl
    rw [hdata] at hdata''
    cases hdata''
    exact (filed_upsert_ne SampleTrace.sampleId hsid _).trans hrow

/-- A write, by its outcome: `Covers` when it completes, nothing to ask when
it fails. -/
theorem write_durable_iff {w : Watched} (hd : Durable w) {trace : RunTrace}
    {path : String} {now : Int} {disk : DiskOutcome} :
    Durable { w with monitor := Monitor.write ⟨trace, w.monitor.file⟩ path now disk } ↔
      (disk = .ok → Covers w.latest trace.perSample) := by
  cases disk with
  | ok =>
    have hok : Durable _ ↔ _ :=
      @dump_durable_iff w.latest { trace with checkpointPath := some path } now
    exact ⟨fun h _ => hok.mp h, fun h => hok.mpr (h rfl)⟩
  | osError =>
    refine ⟨fun _ h => (nomatch h), fun _ => ?_⟩
    exact (durable_congr rfl rfl).mpr hd

/-- One event keeps durability exactly when a dump it completes is covered. -/
theorem step_durable_iff {path : String} {w : Watched} (e : Event) (h : Inv w)
    (hd : Durable w) : Durable (w.step path e) ↔ w.Covered e := by
  have hdump : ∀ {trace : RunTrace} {now : Int} {disk : DiskOutcome},
      (∀ rows, w.rowsDumped e = some rows ↔ disk = .ok ∧ rows = trace.perSample) →
      (Durable { w with
        monitor := Monitor.write ⟨trace, w.monitor.file⟩ path now disk } ↔
        w.Covered e) := by
    intro trace now disk hrows
    rw [write_durable_iff hd]
    constructor
    · intro hc rows hr
      obtain ⟨hok, rfl⟩ := (hrows rows).mp hr
      exact hc hok
    · intro hc hok
      exact hc _ ((hrows _).mpr ⟨hok, rfl⟩)
  have hquiet : w.rowsDumped e = none → Durable (w.step path e) →
      (Durable (w.step path e) ↔ w.Covered e) := by
    intro hnone hdur
    refine ⟨fun _ rows hr => ?_, fun _ => hdur⟩
    rw [hnone] at hr
    exact nomatch hr
  cases e with
  | start campaignId now disk =>
    exact hdump fun rows => by cases disk <;> simp [rowsDumped, eq_comm]
  | updateSample t now disk =>
    refine hquiet rfl ?_
    cases disk with
    | ok =>
      obtain ⟨data, hdata, -⟩ := h.disk
      simp only [step, updateSample_eq h t now hdata]
      exact mergeRow_durable h hd hdata t
    | osError =>
      simp only [step, updateSample_osError h t now]
      exact hd
  | finalizeSamples newTraceId sampleState =>
    exact hquiet rfl ((durable_congr rfl rfl).mpr hd)
  | pause now disk =>
    exact hdump fun rows => by cases disk <;> simp [rowsDumped, eq_comm]
  | cancel now disk =>
    exact hdump fun rows => by
      cases disk <;> simp [rowsDumped, RunTrace.finalize, eq_comm]
  | detached now disk =>
    exact hdump fun rows => by
      cases disk <;> simp [rowsDumped, RunTrace.finalize, eq_comm]
  | exception error now => exact hquiet rfl ((durable_congr rfl rfl).mpr hd)
  | finallyWrite now disk =>
    simp only [step, finallyWrite_eq h]
    exact hdump fun rows => by cases disk <;> simp [rowsDumped, eq_comm]
  | finish now disk =>
    exact hdump fun rows => by
      cases disk <;> simp [rowsDumped, RunTrace.finalize, eq_comm]

/-! ## Runs -/

/-- **Exactly when checkpoints are durable.** From the start write on, every
state of the run is durable iff every write that completes finds each
checkpointed sample's latest row, once, in `per_sample`. -/
theorem durable_iff_covered (path campaignId : String) (now : Int) (old : RunFile)
    (events : List Event) :
    Always (step path) Durable (started path campaignId now old) events ↔
      Along (step path) Covered (started path campaignId now old) events := by
  refine always_iff_along (step path) (fun w e => step_inv e)
    (fun w e => step_durable_iff e) (started_inv path campaignId now old) ?_ events
  intro sid t hl
  exact nomatch hl

/-- The row `_build_sample_trace` assembles for a sample whose three steps
exited with 0. -/
def okTrace (sid : String) : SampleTrace where
  sampleId := sid
  status := "ok"
  elapsedS := 0
  applyExitCode := 0
  simExitCode := 0
  extractExitCode := 0
  eplusoutSql := none
  errorSummary := none
  failureClass := none
  stdoutLog := none
  stderrLog := none
  qualityValid := none
  qualityWarnings := none
  qualityFailures := none
  generation := none
  workerId := none
  workerIp := none
  workerRegion := none
  costUsd := none
  billedDurationSeconds := none
  registerValues := none
  traceId := some "0123abcd"

/-- A soft pause after one checkpoint: `write_paused_trace` dumps a record
whose `per_sample` nobody has filled, and the checkpointed row is gone. -/
theorem paused_run_drops_rows :
    ¬ Always (step "run.json") Durable (started "run.json" "c" 0 .absent)
        [.updateSample (okTrace "0001") 1 .ok, .pause 2 .ok] := by
  intro h
  obtain ⟨data, hdata, hrow, -⟩ := h.last _ "0001" (okTrace "0001") rfl
  cases hdata
  exact nomatch hrow

end Watched

end OSimFlow.Observability
