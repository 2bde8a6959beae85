import OSimFlow.Lib.Dict

/-!
# Data points and the operations on them

The records of `data_points.json` and, for each mutating method of
`DataPointManager`, what it makes of them between loading and saving. A call either
raises before it has changed anything or goes through, so each is a function to
`Except`. The clock is read once for a call.

What decides whether a new id is fresh is not the records themselves but who is
recorded as whose source; that is the subject of `Genealogy.lean`.
-/

namespace OSimFlow.DataPoints

open OSimFlow.Lib (Dict)

/-- A reading of `time.time()`. -/
abbrev Time := Nat

/-- Lifecycle state of a single data point. -/
inductive DataPointStatus where
  | pending
  | running
  | completed
  | failed
  | cancelled
  /-- Consumed by a merge. -/
  | merged
deriving DecidableEq, Repr

/-- Record of a single simulation data point. -/
structure DataPoint where
  sampleId : String
  status : DataPointStatus := .pending
  priority : Int := 0
  workDir : Option String := none
  createdAt : Time
  updatedAt : Time
  completedAt : Option Time := none
  errorSummary : Option String := none
  mergedInto : Option String := none
  mergedFrom : List String := []
  reanalyzeCount : Nat := 0
  originalSampleId : Option String := none
  seedModel : Option String := none
  weatherFile : Option String := none
deriving DecidableEq, Repr

/-- `self._data_points`, and the content of the state file. -/
abbrev DataPointDict := Dict String DataPoint

/-- What a method raises, by the line that raises it. -/
inductive DataPointError where
  /-- `KeyError(f"Data point {sample_id!r} not found")`. -/
  | notFound (sampleId : String)
  /-- `KeyError(f"Unknown data point: {sid!r}")`. -/
  | unknownDataPoint (sid : String)
  /-- The `KeyError` of `self._data_points[sample_id]`. -/
  | missingKey (sampleId : String)
  /-- `ValueError(f"Cannot reanalysis {sample_id!r}: status is …")`. -/
  | cannotReanalyze (sampleId : String) (status : DataPointStatus)
  /-- `ValueError("merge requires at least one source_id")`. -/
  | noSources
  /-- `TimeoutError("Could not acquire lock for …")`. -/
  | lockTimeout
  /-- What `_load` does not catch: an unknown status, a file that is no object. -/
  | invalidState
  /-- `_save_atomic` fails: the old file stays. -/
  | writeFailed
deriving DecidableEq, Repr

/-- A call of a mutating method. -/
inductive Call where
  | register (sampleId : String) (workDir : Option String) (priority : Int)
  | withSeedModel (sampleId path : String)
  | withWeatherFile (sampleId path : String)
  | updateStatus (sampleId : String) (status : DataPointStatus) (errorSummary : Option String)
  | setPriority (sampleId : String) (priority : Int)
  | unregister (sampleId : String)
  | markForReanalysis (sampleId : String)
  | merge (sourceIds : List String) (targetId targetWorkDir : String)
  | reorderPending (priorityUpdates : Dict String Int)
deriving DecidableEq

/-- `cancel`. -/
def Call.cancel (sampleId : String) : Call :=
  .updateStatus sampleId .cancelled none

/-- `f"{sample_id}_reanalyze_{n}"`. -/
def reanalyzeId (sampleId : String) (n : Nat) : String :=
  sampleId ++ "_reanalyze_" ++ n.repr

namespace DataPointDict

/-- `dp = self._data_points[sid]` and an update of its fields, if it is there. -/
def modify (points : DataPointDict) (sid : String) (f : DataPoint → DataPoint) :
    DataPointDict :=
  match points.get? sid with
  | some dp => points.set sid (f dp)
  | none => points

theorem get?_modify_ne (points : DataPointDict) {sid sid' : String} (h : sid ≠ sid')
    (f : DataPoint → DataPoint) : (points.modify sid f).get? sid' = points.get? sid' := by
  rw [modify]
  split
  next => exact Dict.get?_set_ne points h _
  next => rfl

/-- `_auto_register`, where `sample_id` is not there. -/
def autoRegister (now : Time) (points : DataPointDict) (sampleId : String) :
    DataPointDict :=
  match points.get? sampleId with
  | some _ => points
  | none => points.set sampleId
      { sampleId := sampleId, createdAt := now, updatedAt := now }

theorem get?_autoRegister_ne (now : Time) (points : DataPointDict) {sid sid' : String}
    (h : sid ≠ sid') : (points.autoRegister now sid).get? sid' = points.get? sid' := by
  rw [autoRegister]
  split
  next => rfl
  next => exact Dict.get?_set_ne points h _

section Methods

variable (now : Time) (points : DataPointDict)

def register (sampleId : String) (workDir : Option String) (priority : Int) :
    DataPointDict :=
  match points.get? sampleId with
  | some dp => points.set sampleId
      { dp with priority := priority, workDir := workDir <|> dp.workDir, updatedAt := now }
  | none => points.set sampleId
      { sampleId := sampleId, priority := priority, workDir := workDir,
        createdAt := now, updatedAt := now }

/-- The per-sample overrides and the status: registered if need be, then updated. -/
def registerAndModify (sampleId : String) (f : DataPoint → DataPoint) : DataPointDict :=
  (points.autoRegister now sampleId).modify sampleId f

def withSeedModel (sampleId path : String) : DataPointDict :=
  points.registerAndModify now sampleId fun dp =>
    { dp with seedModel := some path, updatedAt := now }

def withWeatherFile (sampleId path : String) : DataPointDict :=
  points.registerAndModify now sampleId fun dp =>
    { dp with weatherFile := some path, updatedAt := now }

def updateStatus (sampleId : String) (status : DataPointStatus)
    (errorSummary : Option String) : DataPointDict :=
  points.registerAndModify now sampleId fun dp =>
    { dp with
      status := status
      updatedAt := now
      completedAt :=
        if status ∈ [.completed, .failed, .cancelled] then some now else dp.completedAt
      errorSummary :=
        if errorSummary ∈ [none, some ""] then dp.errorSummary else errorSummary }

def setPriority (sampleId : String) (priority : Int) :
    Except DataPointError DataPointDict :=
  match points.get? sampleId with
  | some dp => .ok (points.set sampleId { dp with priority := priority, updatedAt := now })
  | none => .error (.missingKey sampleId)

def markForReanalysis (sampleId : String) : Except DataPointError DataPointDict :=
  match points.get? sampleId with
  | none => .error (.notFound sampleId)
  | some original =>
    if original.status ∈ [.completed, .failed] then
      let newId := reanalyzeId sampleId (original.reanalyzeCount + 1)
      .ok ((points.set sampleId
          { original with
            reanalyzeCount := original.reanalyzeCount + 1, updatedAt := now }).set newId
        { sampleId := newId
          priority := original.priority
          workDir := original.workDir
          createdAt := now
          updatedAt := now
          originalSampleId := some sampleId
          seedModel := original.seedModel
          weatherFile := original.weatherFile })
    else .error (.cannotReanalyze sampleId original.status)

/-- The target of a merge: updated if it is there, otherwise registered. -/
def mergeTarget (sourceIds : List String) (targetId targetWorkDir : String) :
    DataPointDict :=
  match points.get? targetId with
  | some target => points.set targetId
      { target with status := .merged, mergedFrom := sourceIds, updatedAt := now }
  | none => points.set targetId
      { sampleId := targetId, status := .merged, workDir := some targetWorkDir,
        mergedFrom := sourceIds, createdAt := now, updatedAt := now }

def mergeSource (targetId : String) (points : DataPointDict) (sid : String) :
    DataPointDict :=
  points.modify sid fun dp =>
    { dp with status := .merged, mergedInto := some targetId, updatedAt := now }

def merge (sourceIds : List String) (targetId targetWorkDir : String) :
    Except DataPointError DataPointDict :=
  match sourceIds.find? fun sid => (points.get? sid).isNone with
  | some sid => .error (.unknownDataPoint sid)
  | none => .ok (sourceIds.foldl (mergeSource now targetId)
      (points.mergeTarget now sourceIds targetId targetWorkDir))

def reprioritize (points : DataPointDict) (item : String × Int) : DataPointDict :=
  points.modify item.1 fun dp =>
    if dp.status = .pending then { dp with priority := item.2, updatedAt := now } else dp

def reorderPending (priorityUpdates : Dict String Int) : DataPointDict :=
  priorityUpdates.items.foldl (reprioritize now) points

end Methods

end DataPointDict

/-- What the call makes of the data points. -/
def Call.apply (now : Time) (points : DataPointDict) :
    Call → Except DataPointError DataPointDict
  | register sid workDir priority => .ok (points.register now sid workDir priority)
  | withSeedModel sid path => .ok (points.withSeedModel now sid path)
  | withWeatherFile sid path => .ok (points.withWeatherFile now sid path)
  | updateStatus sid status error => .ok (points.updateStatus now sid status error)
  | setPriority sid priority => points.setPriority now sid priority
  | unregister sid => .ok (points.erase sid)
  | markForReanalysis sid => points.markForReanalysis now sid
  | merge sources target workDir => points.merge now sources target workDir
  | reorderPending updates => .ok (points.reorderPending now updates)

/-- The data points the caller names. -/
def Call.named : Call → List String
  | register sid _ _ | withSeedModel sid _ | withWeatherFile sid _ | updateStatus sid _ _
  | setPriority sid _ | unregister sid | markForReanalysis sid => [sid]
  | merge sources target _ => target :: sources
  | reorderPending updates => updates.keys

/-- The id of the data point that a reanalysis or a merge creates. -/
def Call.creates (points : DataPointDict) : Call → Option String
  | markForReanalysis sid =>
    (points.get? sid).map fun dp => reanalyzeId sid (dp.reanalyzeCount + 1)
  | merge _ target _ => if (points.get? target).isSome then none else some target
  | _ => none

/-- The data point a method returns, looked up in what it leaves. -/
def Call.returns (before after : DataPointDict) : Call → Option DataPoint
  | register sid _ _ | withSeedModel sid _ | withWeatherFile sid _ | updateStatus sid _ _
  | setPriority sid _ => after.get? sid
  | markForReanalysis sid =>
    (before.get? sid).bind fun dp => after.get? (reanalyzeId sid (dp.reanalyzeCount + 1))
  | merge _ target _ => after.get? target
  | unregister _ | reorderPending _ => none

/-- The methods that go through `_locked_rmw`, and so hold the thread lock too. -/
def Call.locksThreads : Call → Bool
  | markForReanalysis _ | merge _ _ _ | reorderPending _ => false
  | _ => true

/-! ## What a call leaves alone -/

namespace DataPointDict

theorem get?_register_ne (now : Time) (points : DataPointDict) {sid sid' : String}
    (h : sid ≠ sid') (workDir : Option String) (priority : Int) :
    (points.register now sid workDir priority).get? sid' = points.get? sid' := by
  rw [register]
  split
  next => exact Dict.get?_set_ne points h _
  next => exact Dict.get?_set_ne points h _

theorem get?_registerAndModify_ne (now : Time) (points : DataPointDict) {sid sid' : String}
    (h : sid ≠ sid') (f : DataPoint → DataPoint) :
    (points.registerAndModify now sid f).get? sid' = points.get? sid' := by
  rw [registerAndModify, get?_modify_ne _ h, get?_autoRegister_ne now points h]

theorem get?_setPriority_ne {now : Time} {points points' : DataPointDict} {sid sid' : String}
    {priority : Int} (hok : points.setPriority now sid priority = .ok points')
    (h : sid ≠ sid') : points'.get? sid' = points.get? sid' := by
  rw [setPriority] at hok
  split at hok
  next =>
    injection hok with hok
    rw [← hok, Dict.get?_set_ne points h]
  next => cases hok

/-- A loop of updates is invisible under a key it does not go through. -/
theorem get?_foldl_ne {β : Type} {step : DataPointDict → β → DataPointDict} {f : β → String}
    (hstep : ∀ points b sid, f b ≠ sid → (step points b).get? sid = points.get? sid)
    {sid : String} {l : List β} (h : sid ∉ l.map f) (points : DataPointDict) :
    (l.foldl step points).get? sid = points.get? sid := by
  induction l generalizing points with
  | nil => rfl
  | cons b l ih =>
    rw [List.map_cons, List.mem_cons, not_or] at h
    rw [List.foldl_cons, ih h.2, hstep points b sid (Ne.symm h.1)]

theorem get?_mergeTarget_ne (now : Time) (points : DataPointDict) (sourceIds : List String)
    {targetId sid : String} (h : targetId ≠ sid) (targetWorkDir : String) :
    (points.mergeTarget now sourceIds targetId targetWorkDir).get? sid = points.get? sid := by
  rw [mergeTarget]
  split
  next => exact Dict.get?_set_ne points h _
  next => exact Dict.get?_set_ne points h _

theorem get?_merge_ne {now : Time} {points points' : DataPointDict} {sourceIds : List String}
    {targetId targetWorkDir sid : String}
    (hok : points.merge now sourceIds targetId targetWorkDir = .ok points')
    (h : sid ∉ targetId :: sourceIds) : points'.get? sid = points.get? sid := by
  rw [List.mem_cons, not_or] at h
  rw [merge] at hok
  split at hok
  next => cases hok
  next =>
    injection hok with hok
    have hloop : (sourceIds.foldl (mergeSource now targetId)
        (points.mergeTarget now sourceIds targetId targetWorkDir)).get? sid =
        (points.mergeTarget now sourceIds targetId targetWorkDir).get? sid := by
      refine get?_foldl_ne (f := id) (fun points _ _ hb => get?_modify_ne points hb _) ?_ _
      rw [List.map_id]
      exact h.2
    rw [← hok, hloop, get?_mergeTarget_ne now points sourceIds (Ne.symm h.1)]

theorem get?_reorderPending_ne (now : Time) (points : DataPointDict)
    {priorityUpdates : Dict String Int} {sid : String} (h : sid ∉ priorityUpdates.keys) :
    (points.reorderPending now priorityUpdates).get? sid = points.get? sid :=
  get?_foldl_ne (fun points _ _ hi => get?_modify_ne points hi _) h points

theorem markForReanalysis_ok {now : Time} {points points' : DataPointDict} {sid : String}
    (hok : points.markForReanalysis now sid = .ok points') :
    ∃ original, points.get? sid = some original ∧
      ∃ original' new, points' = (points.set sid original').set
          (reanalyzeId sid (original.reanalyzeCount + 1)) new ∧
        original'.reanalyzeCount = original.reanalyzeCount + 1 ∧
        original'.mergedFrom = original.mergedFrom ∧
        original'.originalSampleId = original.originalSampleId ∧
        new.reanalyzeCount = 0 ∧ new.mergedFrom = [] ∧ new.originalSampleId = some sid := by
  rw [markForReanalysis] at hok
  split at hok
  next => cases hok
  next original horiginal =>
    split at hok
    next =>
      injection hok with hok
      exact ⟨original, horiginal, _, _, hok.symm, rfl, rfl, rfl, rfl, rfl, rfl⟩
    next => cases hok

end DataPointDict

open DataPointDict

/-- A call leaves every data point alone that it neither names nor creates. -/
theorem Call.apply_frame {now : Time} {points points' : DataPointDict} {call : Call}
    (hok : call.apply now points = .ok points') {sid : String} (hn : sid ∉ call.named)
    (hc : call.creates points ≠ some sid) : points'.get? sid = points.get? sid := by
  cases call with
  | register sid' workDir priority =>
    injection hok with hok
    rw [← hok, get?_register_ne now points (Ne.symm (List.ne_of_not_mem_cons hn))]
  | withSeedModel sid' path =>
    injection hok with hok
    rw [← hok, DataPointDict.withSeedModel,
      get?_registerAndModify_ne now points (Ne.symm (List.ne_of_not_mem_cons hn))]
  | withWeatherFile sid' path =>
    injection hok with hok
    rw [← hok, DataPointDict.withWeatherFile,
      get?_registerAndModify_ne now points (Ne.symm (List.ne_of_not_mem_cons hn))]
  | updateStatus sid' status error =>
    injection hok with hok
    rw [← hok, DataPointDict.updateStatus,
      get?_registerAndModify_ne now points (Ne.symm (List.ne_of_not_mem_cons hn))]
  | setPriority sid' priority =>
    exact get?_setPriority_ne hok (Ne.symm (List.ne_of_not_mem_cons hn))
  | unregister sid' =>
    injection hok with hok
    rw [← hok, Dict.get?_erase_ne points (Ne.symm (List.ne_of_not_mem_cons hn))]
  | markForReanalysis sid' =>
    obtain ⟨original, horiginal, original', new, rfl, -⟩ := markForReanalysis_ok hok
    rw [creates, horiginal, Option.map_some] at hc
    rw [Dict.get?_set_ne _ (fun he => hc (congrArg some he)),
      Dict.get?_set_ne _ (Ne.symm (List.ne_of_not_mem_cons hn))]
  | merge sources target workDir => exact get?_merge_ne hok hn
  | reorderPending updates =>
    injection hok with hok
    rw [← hok, get?_reorderPending_ne now points hn]

end OSimFlow.DataPoints
