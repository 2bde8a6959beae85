import Mathlib.Data.List.Sort
import Mathlib.Logic.Function.Basic
import OSimFlow.Lib.Dict

/-!
# Downloading the results of a detached campaign

Workers upload each sample's directory under `<campaign>/work/sim/<sample_id>/`
and finish it with a marker. `download` lists the prefix, copies the samples
that are done and not yet here, and aggregates.

The call is cut at its writes: `advance` fetches one object or makes one local
write, and a `crash` may come before any of them. Of the file contents only
what decides the course is looked into; the readers of `eplusout.err`,
`out.osw` and the KPIs are left open.
-/

namespace OSimFlow.Detached

open OSimFlow.Lib

abbrev SampleId := String

def completeMarker : String := "_OSIMFLOW_COMPLETE"

def failedMarker : String := "_OSIMFLOW_FAILED"

def retryingState : List Char := "retrying".toList

/-- The characters `str.strip` takes off. -/
def isSpace (c : Char) : Bool :=
  let n := c.toNat
  (9 ≤ n && n ≤ 13) || (28 ≤ n && n ≤ 32) || n == 0x85 || n == 0xA0 || n == 0x1680 ||
    (0x2000 ≤ n && n ≤ 0x200A) || n == 0x2028 || n == 0x2029 || n == 0x202F || n == 0x205F ||
    n == 0x3000

/-- `text.strip()`. -/
def strip (text : String) : List Char :=
  ((text.toList.dropWhile isSpace).reverse.dropWhile isSpace).reverse

/-- The objects under the sample prefixes: for each sample, names and contents. -/
abbrev Remote := SampleId → Dict String String

/-- A local directory `work/sim/<sample_id>`. -/
abbrev Dir := String → Option String

/-- What is read out of result files. -/
structure Readers (Kpi : Type) where
  /-- A line of `eplusout.err` is a severe error. -/
  severe : String → Bool
  /-- `out.osw` reports a failed workflow or step. -/
  oswFailed : String → Bool
  /-- The row of `extract_kpis`; `none` where it raises or reports an error. -/
  extractKpis : Dir → Option Kpi

/-- A terminal state of a sample. -/
inductive SampleState where
  | complete
  | failed
deriving DecidableEq

/-- The marker of a state. -/
def SampleState.marker : SampleState → String
  | complete => completeMarker
  | failed => failedMarker

/-- What a campaign's download is given and never changes. -/
structure Handoff (Kpi : Type) where
  campaignId : String
  sampleIds : List SampleId
  readers : Readers Kpi

/-- `sample_states`: a success marker wins, a failure marker under retry does not
count, and a failure of the substrate fills in for neither. -/
def sampleStates (ids : List SampleId) (remote : Remote) (failures : SampleId → Option String)
    (sid : SampleId) : Option SampleState :=
  if sid ∉ ids then none
  else if ((remote sid).get? completeMarker).isSome then some .complete
  else
    match (remote sid).get? failedMarker with
    | some text =>
      if strip text = retryingState then (failures sid).map fun _ => .failed
      else some .failed
    | none => (failures sid).map fun _ => .failed

/-! ## The aggregation -/

section

variable {Kpi : Type} (readers : Readers Kpi) (dir : Dir)

/-- `has_osw_or_marker_failure`. -/
def hasOswOrMarkerFailure : Bool :=
  (match dir failedMarker with
    | some text => decide ((strip text).map Char.toLower ≠ retryingState)
    | none => false) ||
  (match dir "out.osw" with
    | some text => readers.oswFailed text
    | none => false)

/-- `extract_failure(sim_dir) is not None`. -/
def extractFailure : Bool :=
  (match dir "eplusout.err" with
    | some text => decide (text ≠ "") && readers.severe text
    | none => false) ||
  (dir "eplusout.sql").isNone || hasOswOrMarkerFailure readers dir

/-- The KPIs of a sample in the aggregated table. -/
def kpiRow (state : SampleState) : Option Kpi :=
  if state = .complete ∧ (dir "eplusout.sql").isSome ∧ extractFailure readers dir = false then
    readers.extractKpis dir
  else none

end

/-- `aggregated_results.csv`: whether it has the parameter columns, and its rows. -/
structure Csv (Kpi : Type) where
  params : Bool
  rows : List (SampleId × Kpi)

/-- The output directory. -/
structure Disk (Kpi : Type) where
  identity : Option String
  samplesJson : Bool
  files : SampleId → Dir
  csv : Option (Csv Kpi)
  /-- The samples of `failed_simulations.csv`. -/
  failedCsv : Option (List SampleId)

/-! ## A call -/

/-- Where a call of `download` is. -/
inductive Phase where
  | samples
  | loop (todo : List SampleId)
  | copy (sid : SampleId) (keys : List String) (todo : List SampleId)
  | reason (sid : SampleId) (todo : List SampleId)
  | aggregate
  | writeFailed
  | returned
deriving DecidableEq

/-- The locals of a call of `download`. -/
structure Call where
  includeArtifacts : Bool
  /-- `substrate_failures`. -/
  failures : SampleId → Option String
  states : SampleId → Option SampleState
  fetched : List SampleId
  phase : Phase

/-- Not an artifact, or artifacts are asked for. -/
def selected (includeArtifacts : Bool) (rel : String) : Bool :=
  includeArtifacts || !"run/".toList.isPrefixOf rel.toList || rel == "run/run.log"

/-- The object is copied. -/
def Call.copies (c : Call) (sid : SampleId) (rel : String) : Bool :=
  rel != "" && rel != completeMarker &&
    !(c.states sid = some .complete && rel == failedMarker) && selected c.includeArtifacts rel

/-- `local_marker`. -/
def Call.localMarker (c : Call) (sid : SampleId) : String :=
  if c.states sid = some .complete then completeMarker else failedMarker

/-- One file is written. -/
def Disk.write {Kpi : Type} (d : Disk Kpi) (sid : SampleId) (rel text : String) : Disk Kpi :=
  { d with files := Function.update d.files sid (Function.update (d.files sid) rel (some text)) }

section

variable {Kpi : Type} (h : Handoff Kpi)

/-- `sorted(done)`. -/
def sortedDone (c : Call) : List SampleId :=
  (h.sampleIds.dedup.filter fun sid => (c.states sid).isSome).insertionSort (· ≤ ·)

/-- The rows of the aggregated table. -/
def csvRows (c : Call) (files : SampleId → Dir) : List (SampleId × Kpi) :=
  h.sampleIds.filterMap fun sid =>
    (c.states sid).bind fun state =>
      (kpiRow h.readers (files sid) state).map fun kpi => (sid, kpi)

/-- The samples of the table of failures. -/
def failedRows (c : Call) (files : SampleId → Dir) : List SampleId :=
  h.sampleIds.filter fun sid => (c.states sid).isSome && extractFailure h.readers (files sid)

/-- The turn of `sid`: skip it, write its marker where nothing was uploaded for a
substrate failure, or list its objects. -/
def Call.turn (remote : Remote) (d : Disk Kpi) (c : Call) (sid : SampleId)
    (todo : List SampleId) : Disk Kpi × Call :=
  if (d.files sid (c.localMarker sid)).isSome then (d, { c with phase := .loop todo })
  else
    match c.failures sid, (remote sid).keys with
    | some reason, [] =>
      (d.write sid (c.localMarker sid) (reason ++ "\n"),
        { c with fetched := c.fetched ++ [sid], phase := .loop todo })
    | _, keys => (d, { c with phase := .copy sid (keys.insertionSort (· ≤ ·)) todo })

/-- The next fetch or local write of a call. `available`: `samples.json` can be fetched. -/
def Call.advance (remote : Remote) (available : Bool) (d : Disk Kpi) (c : Call) :
    Disk Kpi × Call :=
  match c.phase with
  | .samples =>
    ({ d with samplesJson := d.samplesJson || available },
      { c with phase := .loop (sortedDone h c) })
  | .loop [] =>
    if c.fetched = [] ∧ d.csv.isSome then (d, { c with phase := .returned })
    else (d, { c with phase := .aggregate })
  | .loop (sid :: todo) => c.turn remote d sid todo
  | .copy sid [] todo =>
    if (d.files sid (c.localMarker sid)).isSome then (d, { c with phase := .reason sid todo })
    else (d.write sid (c.localMarker sid) "", { c with phase := .reason sid todo })
  | .copy sid (rel :: keys) todo =>
    match c.copies sid rel, (remote sid).get? rel with
    | true, some text => (d.write sid rel text, { c with phase := .copy sid keys todo })
    | _, _ => (d, { c with phase := .copy sid keys todo })
  | .reason sid todo =>
    let c' := { c with fetched := c.fetched ++ [sid], phase := .loop todo }
    match c.states sid, c.failures sid, d.files sid failedMarker with
    | some .failed, some reason, some text =>
      if strip text = [] then (d.write sid failedMarker (reason ++ "\n"), c') else (d, c')
    | _, _, _ => (d, c')
  | .aggregate =>
    ({ d with csv := some ⟨d.samplesJson, csvRows h c d.files⟩ },
      { c with phase := .writeFailed })
  | .writeFailed =>
    ({ d with failedCsv := some (failedRows h c d.files) }, { c with phase := .returned })
  | .returned => (d, c)

/-- The checks before anything is written: the campaign must be complete unless
`allow_partial`, and the directory this campaign's. -/
def begin? (remote : Remote) (d : Disk Kpi) (includeArtifacts allowPartial : Bool)
    (failures : SampleId → Option String) : Option Call :=
  let states := sampleStates h.sampleIds remote failures
  let done := h.sampleIds.dedup.filter fun sid => (states sid).isSome
  if done.length < h.sampleIds.length ∧ allowPartial = false then none
  else if d.identity = none ∨ d.identity = some h.campaignId then
    some ⟨includeArtifacts, failures, states, [], .samples⟩
  else none

end

/-! ## Calls one after another, under the workers' hands -/

/-- The prefix, the output directory, and the call in progress or last returned. -/
structure Session (Kpi : Type) where
  remote : Remote
  disk : Disk Kpi
  call : Option Call
  /-- The last call asked for artifacts. -/
  wanted : Bool
  /-- For the account: the sample's marker was written by a call without artifacts. -/
  bare : SampleId → Bool

/-- What can happen. -/
inductive Event where
  | upload (sid : SampleId) (rel text : String)
  | start (includeArtifacts allowPartial : Bool) (failures : SampleId → Option String)
  | advance (available : Bool)
  | crash

/-- One of the markers is here. -/
def Marked (dir : Dir) : Prop :=
  (dir completeMarker).isSome ∨ (dir failedMarker).isSome

instance : DecidablePred Marked := fun dir =>
  inferInstanceAs (Decidable ((dir completeMarker).isSome ∨ (dir failedMarker).isSome))

namespace Session

variable {Kpi : Type} (h : Handoff Kpi) (s : Session Kpi)

/-- A fresh output directory. -/
def fresh (remote : Remote) (identity : Option String) : Session Kpi :=
  ⟨remote, ⟨identity, false, fun _ _ => none, none, none⟩, none, false, fun _ => false⟩

/-- The session goes on with what a call did. A sample whose marker appeared was
fetched as this call fetches. -/
def after (c : Call) (next : Disk Kpi × Call) : Session Kpi :=
  { s with
    disk := next.1
    call := some next.2
    bare := fun sid =>
      if Marked (s.disk.files sid) then s.bare sid
      else !c.includeArtifacts }

/-- One step. A worker uploads nothing after the marker of success. -/
def step : Event → Session Kpi
  | .upload sid rel text =>
    if ((s.remote sid).get? completeMarker).isSome then s
    else { s with remote := Function.update s.remote sid ((s.remote sid).set rel text) }
  | .start includeArtifacts allowPartial failures =>
    if ∃ c ∈ s.call, c.phase ≠ .returned then s
    else
      match begin? h s.remote s.disk includeArtifacts allowPartial failures with
      | some c =>
        { s with
          disk := { s.disk with identity := some h.campaignId }
          call := some c
          wanted := includeArtifacts }
      | none => s
  | .advance available =>
    match s.call with
    | some c => s.after c (c.advance h s.remote available s.disk)
    | none => s
  | .crash => { s with call := none }

end Session

end OSimFlow.Detached
