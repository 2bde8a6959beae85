import Mathlib.Data.Prod.Lex
import Mathlib.Data.Rat.Defs
import Mathlib.Data.String.Basic
import OSimFlow.Json
import OSimFlow.Pareto.ParetoFront

/-!
# `compile_aggregation`: a row for every manifest

The terminal aggregation sorts the manifests by index and sample id and puts a
row for each into one of two tables: with the KPIs of the sample, where the
manifest claims success and they can be fetched, or with the failure.

> `Partitioned`: the call returns; the ok table has a row for each manifest of the
> one kind and the failed table for each of the other, in that order and under
> the sample's own id; and another order of the manifests makes no difference.

The KPIs of a sample are spread over its row after the sample id was put there,
so a KPI called `sample_id` replaces it (`OwnName`); and scoring a sample for the
Pareto front converts integers that may be too large for a float (`Scorable`).
`partitioned_iff`: nothing else can go wrong.
-/

namespace OSimFlow.Aggregation

open OSimFlow.Lib
open OSimFlow.Pareto

variable {F : Type}

/-- A parsed `_manifest.json` entry. -/
structure AggregatedManifest (F : Type) where
  sampleId : String
  index : Int
  status : String
  kpisKey : Option String
  exitCode : Int
  firstSevereError : Option String
  finishedAt : Option F

/-- A parsed `kpis.json`. -/
abbrev Payload (F : Type) := Dict String (Json F)

/-- `kpi_fetcher`: it returns a payload or `None`, or raises an exception. -/
abbrev KpiFetcher (F : Type) := String → Except String (Option (Payload F))

/-- How `storage.download_file` and `json.loads` end for an object. -/
inductive StoredObject (F : Type) where
  | osError
  | raises (message : String)
  | unparsable
  | json (data : Json F)

/-- `_make_kpi_fetcher`. -/
def makeKpiFetcher (objects : String → StoredObject F) : KpiFetcher F := fun key =>
  if key = "" then .ok none
  else
    match objects key with
    | .osError => .ok none
    | .raises message => .error message
    | .unparsable => .ok none
    | .json (.obj items) => .ok (some (Dict.update ∅ items))
    | .json _ => .ok none

/-- A row of `failed_simulations.csv`. -/
structure FailureRow where
  sampleId : String
  failureCategory : String
  rootCauseLine : String
  totalSevereErrors : Nat
  errorSummary : String
  exitCode : Int
  logPath : String
  diagnosisSuggestion : String

/-- A row of `aggregated_results.csv`. -/
abbrev OkRow (F : Type) := Dict String (Json F)

/-- A table: its columns, and the cells of each row. -/
structure Table (F : Type) where
  columns : List String
  rows : List (List (Option (Json F)))

structure AggregationResult (F : Type) where
  aggregatedResults : Table F
  failedSimulations : List FailureRow
  pareto : Option (Objectives × List (ParetoSolution F))
  okCount : Nat
  failedCount : Nat
  totalCount : Nat
  degradedOkSamples : List String

/-- Either an OK row or a failure row. -/
structure ClassifiedSample (F : Type) where
  okRow : Option (OkRow F)
  failureRow : Option FailureRow
  degraded : Bool
  pareto : Option (ParetoSolution F)

/-- `_OK_STATUSES`. -/
def okStatuses : List String := ["ok", "completed", "success", "succeeded"]

/-- `_MULTI_OBJECTIVE_ALGORITHMS`. -/
def multiObjectiveAlgorithms : List String := ["nsga2", "pso"]

def missingKpisErrorSummary : String :=
  "kpis.json missing (manifest claimed status=ok but no KPIs retrievable)"

/-- The metadata keys of a flat payload. -/
def reserved : List String := ["sample_id", "openstudio_version", "quality", "index", "campaign_id"]

/-- `_extract_kpis_dict`. -/
def extractKpisDict (payload : Payload F) : Option (Dict String (Json F)) :=
  match payload.get? "kpis" with
  | some (.obj (item :: items)) => some (Dict.update ∅ (item :: items))
  | _ =>
    let flat := payload.eraseIf fun k => reserved.contains k
    if flat.items.isEmpty then none else some flat

/-- What the module takes from elsewhere: `str.lower`, the failure classifier of the local path,
its suggestions, and `float` of an integer. -/
structure Env (F : Type) where
  lower : String → String
  classifyLine : String → String
  suggestion : String → String
  floatOfInt : Int → Except PyError F

section

variable (env : Env F)

/-- `m.status.lower() in _OK_STATUSES`. -/
def claimedOk (m : AggregatedManifest F) : Bool :=
  okStatuses.contains (env.lower m.status)

/-- The KPIs of a manifest, if it claims success and they can be had. -/
def fetchKpis (kpiFetcher : KpiFetcher F) (m : AggregatedManifest F) :
    Option (Dict String (Json F)) :=
  if claimedOk env m then
    match m.kpisKey with
    | some key =>
      if key = "" then none
      else
        match kpiFetcher key with
        | .ok (some payload) => extractKpisDict payload
        | .ok none => none
        -- counting as failed
        | .error _ => none
    | none => none
  else none

/-- `_build_failure_row`. -/
def buildFailureRow (m : AggregatedManifest F) (claimed kpisMissing : Bool) : FailureRow :=
  let recorded := m.firstSevereError.filter fun line => line != ""
  let (errorSummary, category) :=
    if claimed && kpisMissing then (missingKpisErrorSummary, "generic_severe")
    else
      let line := recorded.getD "no severe error recorded"
      (line, env.classifyLine line)
  { sampleId := m.sampleId
    failureCategory := category
    rootCauseLine := errorSummary
    totalSevereErrors := if recorded.isSome then 1 else 0
    errorSummary := errorSummary
    exitCode := m.exitCode
    logPath := ""
    diagnosisSuggestion := env.suggestion category }

/-- `[k for k, v in items if isinstance(v, (int, float))]`. -/
def numericKeys (items : Dict String (Json F)) : List String :=
  (items.items.filter fun item => item.2.isNumber).map Prod.fst

/-- The loop of `_to_pareto_solution`: the numeric ones of the named objectives, as floats. -/
def scoreObjectives (kpis : Dict String (Json F)) :
    List String → Dict String F → Except PyError (Dict String F)
  | [], objectives => .ok objectives
  | name :: names, objectives =>
    match kpis.get? name with
    | some v =>
      if v.isNumber then
        match v.toFloat env.floatOfInt with
        | .ok x => scoreObjectives kpis names (objectives.set name x)
        | .error e => .error e
      else scoreObjectives kpis names objectives
    | none => scoreObjectives kpis names objectives

/-- The names `_to_pareto_solution` scores by. -/
def scoredNames (kpis : Dict String (Json F)) (kpiObjectives : List (String × String))
    (objectiveNames : Option (List String)) : List String :=
  if kpiObjectives.isEmpty then objectiveNames.getD (numericKeys kpis)
  else kpiObjectives.map Prod.fst

/-- `_to_pareto_solution`. -/
def toParetoSolution (sampleId : String) (kpis : Dict String (Json F))
    (kpiObjectives : List (String × String)) (objectiveNames : Option (List String)) :
    Except PyError (Option (ParetoSolution F)) :=
  match scoreObjectives env kpis (scoredNames kpis kpiObjectives objectiveNames) ∅ with
  | .error e => .error e
  | .ok objectives =>
    if objectives.items.isEmpty then .ok none
    else .ok (some ⟨sampleId, objectives, ∅, 0⟩)

/-- `row = {"sample_id": m.sample_id}; row.update(kpis)`. -/
def okRow (m : AggregatedManifest F) (kpis : Dict String (Json F)) : OkRow F :=
  Dict.update (Dict.set ∅ "sample_id" (.str m.sampleId)) kpis.items

/-- `_classify_sample`. -/
def classifySample (kpiFetcher : KpiFetcher F) (isMultiObjective : Bool)
    (kpiObjectives : List (String × String)) (objectiveNames : Option (List String))
    (m : AggregatedManifest F) : Except PyError (ClassifiedSample F) :=
  match fetchKpis env kpiFetcher m with
  | none =>
    .ok
      { okRow := none
        failureRow := some (buildFailureRow env m (claimedOk env m) true)
        degraded := claimedOk env m
        pareto := none }
  | some kpis =>
    if isMultiObjective then
      match toParetoSolution env m.sampleId kpis kpiObjectives objectiveNames with
      | .error e => .error e
      | .ok pareto => .ok ⟨some (okRow m kpis), none, false, pareto⟩
    else .ok ⟨some (okRow m kpis), none, false, none⟩

/-- What the loop has gathered. -/
structure Gathered (F : Type) where
  okRows : List (OkRow F)
  okSolutions : List (ParetoSolution F)
  failureRows : List FailureRow
  degradedOk : List String
  objectiveNames : Option (List String)

/-- The objectives that the first successful sample seeds. -/
def seededNames (row : OkRow F) : List String :=
  (numericKeys row).filter fun k => k != "sample_id"

/-- One turn of the loop. -/
def gather (kpiFetcher : KpiFetcher F) (isMultiObjective : Bool)
    (kpiObjectives : List (String × String)) (g : Gathered F) (m : AggregatedManifest F) :
    Except PyError (Gathered F) :=
  match classifySample env kpiFetcher isMultiObjective kpiObjectives g.objectiveNames m with
  | .error e => .error e
  | .ok classified =>
    let g := if classified.degraded then { g with degradedOk := g.degradedOk ++ [m.sampleId] } else g
    let g :=
      match classified.okRow with
      | some row =>
        { g with
          okRows := g.okRows ++ [row]
          objectiveNames :=
            if g.objectiveNames.isNone && isMultiObjective then some (seededNames row)
            else g.objectiveNames }
      | none =>
        match classified.failureRow with
        | some row => { g with failureRows := g.failureRows ++ [row] }
        | none => g
    .ok
      (match classified.pareto with
      | some solution => { g with okSolutions := g.okSolutions ++ [solution] }
      | none => g)

/-- The loop. -/
def gatherAll (kpiFetcher : KpiFetcher F) (isMultiObjective : Bool)
    (kpiObjectives : List (String × String)) :
    List (AggregatedManifest F) → Gathered F → Except PyError (Gathered F)
  | [], g => .ok g
  | m :: ms, g =>
    match gather env kpiFetcher isMultiObjective kpiObjectives g m with
    | .error e => .error e
    | .ok g => gatherAll kpiFetcher isMultiObjective kpiObjectives ms g

/-- The column of a table. -/
def Table.column (t : Table F) (name : String) : List (Option (Json F)) :=
  match t.columns.findIdx? fun c => c == name with
  | some i => t.rows.map fun row => (row[i]?).join
  | none => []

/-- The names that are in a list, by first appearance. -/
def firstSeen (names : List String) : List String :=
  names.foldl (fun seen name => upsert id name seen) []

/-- `_render_ok_csv`: the columns are those of the rows. -/
def renderOkTable (okRows : List (OkRow F)) : Table F :=
  let columns := "sample_id" ::
    (firstSeen (okRows.flatMap Dict.keys)).filter fun c => c != "sample_id"
  ⟨columns, okRows.map fun row => columns.map row.get?⟩

/-- The sort key. -/
def sortKey (m : AggregatedManifest F) : ℤ ×ₗ String :=
  toLex (m.index, m.sampleId)

/-- `sorted(manifests, key=…)`. -/
def ordered (manifests : List (AggregatedManifest F)) : List (AggregatedManifest F) :=
  manifests.mergeSort fun a b => decide (sortKey a ≤ sortKey b)

variable [LT F] [DecidableLT F]

/-- `_compute_pareto_front`. -/
def computeParetoFront (solutions : List (ParetoSolution F))
    (kpiObjectives : List (String × String)) :
    Option (Objectives × List (ParetoSolution F)) :=
  if solutions.isEmpty then none
  else
    let names := firstSeen (solutions.flatMap fun s => s.objectives.keys)
    let maximize := names.map fun name =>
      env.lower (((Dict.update ∅ kpiObjectives).get? name).getD "minimize") == "maximize"
    let objectives : Objectives := ⟨names, maximize, List.length_map _⟩
    let front := addGeneration objectives [] solutions
    if front.isEmpty then none else some (objectives, front)

/-- `is_multi_objective`. -/
def isMultiObjective (algorithm : Option String) : Bool :=
  match algorithm with
  | some name => multiObjectiveAlgorithms.contains (env.lower name)
  | none => false

/-- The `AggregationResult` that is returned in the end. -/
def report (multi : Bool) (kpiObjectives : List (String × String)) (total : Nat)
    (g : Gathered F) : AggregationResult F where
  aggregatedResults := renderOkTable g.okRows
  failedSimulations := g.failureRows
  pareto := if multi then computeParetoFront env g.okSolutions kpiObjectives else none
  okCount := g.okRows.length
  failedCount := g.failureRows.length
  totalCount := total
  degradedOkSamples := g.degradedOk

/-- `compile_aggregation`. -/
def compileAggregation (manifests : List (AggregatedManifest F)) (kpiFetcher : KpiFetcher F)
    (algorithm : Option String) (kpiObjectives : List (String × String)) :
    Except PyError (AggregationResult F) :=
  let multi := isMultiObjective env algorithm
  let names := if kpiObjectives.isEmpty then none else some (kpiObjectives.map Prod.fst)
  match gatherAll env kpiFetcher multi kpiObjectives (ordered manifests) ⟨[], [], [], [], names⟩ with
  | .error e => .error e
  | .ok g => .ok (report env multi kpiObjectives (ordered manifests).length g)

end

/-! ## What can go wrong -/

section

variable (env : Env F) (kpiFetcher : KpiFetcher F)

/-- The manifest gets a row of the ok table. -/
def usable (m : AggregatedManifest F) : Bool :=
  (fetchKpis env kpiFetcher m).isSome

/-- No KPI of the sample takes the place of its id. -/
def OwnName (m : AggregatedManifest F) : Prop :=
  ∀ kpis v, fetchKpis env kpiFetcher m = some kpis → kpis.get? "sample_id" = some v →
    v = .str m.sampleId

/-- The numbers among the named KPIs are floats, or convert to one. -/
def Scores (kpis : Dict String (Json F)) (names : List String) : Prop :=
  ∀ name ∈ names, ∀ v, kpis.get? name = some v → v.isNumber = true →
    ∃ x, v.toFloat env.floatOfInt = .ok x

/-- So do the ones that the first successful sample is scored by, and then the ones it seeds. -/
def SeedScores : List (AggregatedManifest F) → Prop
  | [] => True
  | m :: ms =>
    match fetchKpis env kpiFetcher m with
    | none => SeedScores ms
    | some kpis =>
      Scores env kpis (numericKeys kpis) ∧
        ∀ m' ∈ ms, ∀ kpis', fetchKpis env kpiFetcher m' = some kpis' →
          Scores env kpis' (seededNames (okRow m kpis))

/-- Every successful sample can be scored. -/
def Scorable (kpiObjectives : List (String × String)) (ms : List (AggregatedManifest F)) : Prop :=
  if kpiObjectives.isEmpty then SeedScores env kpiFetcher ms
  else
    ∀ m ∈ ms, ∀ kpis, fetchKpis env kpiFetcher m = some kpis →
      Scores env kpis (kpiObjectives.map Prod.fst)

/-- The call returns, with a row for every manifest under its own id, whatever the order. -/
structure Partitioned [LT F] [DecidableLT F] (manifests : List (AggregatedManifest F))
    (algorithm : Option String) (kpiObjectives : List (String × String)) : Prop where
  returns : ∃ result, compileAggregation env manifests kpiFetcher algorithm kpiObjectives =
      .ok result ∧
    result.aggregatedResults.column "sample_id" =
      ((ordered manifests).filter (usable env kpiFetcher)).map (fun m => some (.str m.sampleId)) ∧
    result.failedSimulations.map FailureRow.sampleId =
      ((ordered manifests).filter fun m => !usable env kpiFetcher m).map (fun m => m.sampleId) ∧
    result.okCount + result.failedCount = manifests.length ∧
    result.degradedOkSamples ⊆ result.failedSimulations.map FailureRow.sampleId
  permuted : (manifests.map sortKey).Nodup → ∀ manifests', manifests'.Perm manifests →
    compileAggregation env manifests' kpiFetcher algorithm kpiObjectives =
      compileAggregation env manifests kpiFetcher algorithm kpiObjectives

/-! ## The loop -/

variable {env kpiFetcher} {kpis : Dict String (Json F)} {m : AggregatedManifest F}
  {ms : List (AggregatedManifest F)} {kpiObjectives : List (String × String)} {multi : Bool}
  {g g' : Gathered F}

theorem scoreObjectives_ok {names : List String} (objectives : Dict String F) :
    (∃ scored, scoreObjectives env kpis names objectives = .ok scored) ↔ Scores env kpis names := by
  induction names generalizing objectives with
  | nil => exact ⟨fun _ name h => absurd h List.not_mem_nil, fun _ => ⟨objectives, rfl⟩⟩
  | cons name names ih =>
    have hcons : Scores env kpis (name :: names) ↔
        (∀ v, kpis.get? name = some v → v.isNumber = true →
          ∃ x, v.toFloat env.floatOfInt = .ok x) ∧ Scores env kpis names := List.forall_mem_cons
    rw [hcons, scoreObjectives]
    cases hv : kpis.get? name with
    | none => exact (ih objectives).trans ⟨fun h => ⟨by rintro _ ⟨⟩, h⟩, fun h => h.2⟩
    | some v =>
      simp only [Option.some.injEq, forall_eq']
      cases hn : v.isNumber with
      | false => exact (ih objectives).trans ⟨fun h => ⟨by rintro ⟨⟩, h⟩, fun h => h.2⟩
      | true =>
        cases hx : v.toFloat env.floatOfInt with
        | error e =>
          refine ⟨fun h => ?_, fun h => ?_⟩
          · obtain ⟨scored, h⟩ := h
            cases h
          · obtain ⟨x, h⟩ := h.1 rfl
            cases h
        | ok x =>
          exact (ih _).trans ⟨fun h => ⟨fun _ => ⟨x, rfl⟩, h⟩, fun h => h.2⟩

theorem toParetoSolution_ok (sampleId : String) {objectiveNames : Option (List String)} :
    (∃ pareto, toParetoSolution env sampleId kpis kpiObjectives objectiveNames = .ok pareto) ↔
      Scores env kpis (scoredNames kpis kpiObjectives objectiveNames) := by
  rw [← scoreObjectives_ok ∅, toParetoSolution]
  cases scoreObjectives env kpis (scoredNames kpis kpiObjectives objectiveNames) ∅ with
  | error e =>
    refine ⟨fun h => ?_, fun h => ?_⟩
    · obtain ⟨pareto, h⟩ := h
      exact nomatch h
    · obtain ⟨scored, h⟩ := h
      exact nomatch h
  | ok objectives =>
    refine ⟨fun _ => ⟨objectives, rfl⟩, fun _ => ?_⟩
    by_cases hempty : objectives.items.isEmpty = true
    · exact ⟨none, if_pos hempty⟩
    · exact ⟨_, if_neg hempty⟩

/-- A turn for a manifest without KPIs. -/
theorem gather_none (h : fetchKpis env kpiFetcher m = none) :
    gather env kpiFetcher multi kpiObjectives g m =
      .ok { g with
        failureRows := g.failureRows ++ [buildFailureRow env m (claimedOk env m) true]
        degradedOk := if claimedOk env m then g.degradedOk ++ [m.sampleId] else g.degradedOk } := by
  rw [gather, classifySample, h]
  cases claimedOk env m <;> rfl

/-- What a turn for a manifest with KPIs leaves, but for its score. -/
structure Kept (multi : Bool) (m : AggregatedManifest F) (kpis : Dict String (Json F))
    (g g' : Gathered F) : Prop where
  okRows : g'.okRows = g.okRows ++ [okRow m kpis]
  failureRows : g'.failureRows = g.failureRows
  degradedOk : g'.degradedOk = g.degradedOk
  objectiveNames : g'.objectiveNames =
    if g.objectiveNames.isNone && multi then some (seededNames (okRow m kpis))
    else g.objectiveNames

theorem gather_some (h : fetchKpis env kpiFetcher m = some kpis)
    (hg : gather env kpiFetcher multi kpiObjectives g m = .ok g') : Kept multi m kpis g g' := by
  rw [gather, classifySample, h] at hg
  cases multi with
  | false =>
    injection hg with hg
    subst hg
    exact ⟨rfl, rfl, rfl, rfl⟩
  | true =>
    simp only [if_true] at hg
    cases hp : toParetoSolution env m.sampleId kpis kpiObjectives g.objectiveNames with
    | error e =>
      rw [hp] at hg
      exact nomatch hg
    | ok pareto =>
      rw [hp] at hg
      injection hg with hg
      subst hg
      cases pareto <;> exact ⟨rfl, rfl, rfl, rfl⟩

theorem gather_some_ok (h : fetchKpis env kpiFetcher m = some kpis) :
    (∃ g', gather env kpiFetcher multi kpiObjectives g m = .ok g') ↔
      (multi = true → Scores env kpis (scoredNames kpis kpiObjectives g.objectiveNames)) := by
  rw [gather, classifySample, h]
  cases multi with
  | false => exact ⟨fun _ => nofun, fun _ => ⟨_, rfl⟩⟩
  | true =>
    simp only [if_true, forall_const]
    rw [← toParetoSolution_ok m.sampleId]
    cases toParetoSolution env m.sampleId kpis kpiObjectives g.objectiveNames with
    | error e =>
      refine ⟨fun h => ?_, fun h => ?_⟩
      · obtain ⟨g', h⟩ := h
        exact nomatch h
      · obtain ⟨pareto, h⟩ := h
        exact nomatch h
    | ok pareto => exact ⟨fun _ => ⟨pareto, rfl⟩, fun _ => ⟨_, rfl⟩⟩

/-- What the loop leaves. -/
structure Gathers (env : Env F) (kpiFetcher : KpiFetcher F) (ms : List (AggregatedManifest F))
    (g g' : Gathered F) : Prop where
  okRows : g'.okRows =
    g.okRows ++ ms.filterMap fun m => (fetchKpis env kpiFetcher m).map (okRow m)
  failureRows : g'.failureRows = g.failureRows ++
    (ms.filter fun m => !usable env kpiFetcher m).map
      fun m => buildFailureRow env m (claimedOk env m) true
  degradedOk : g'.degradedOk ⊆ g.degradedOk ++
    (ms.filter fun m => !usable env kpiFetcher m).map fun m => m.sampleId

theorem gatherAll_gathers (h : gatherAll env kpiFetcher multi kpiObjectives ms g = .ok g') :
    Gathers env kpiFetcher ms g g' := by
  induction ms generalizing g with
  | nil =>
    injection h with h
    subst h
    exact ⟨(List.append_nil _).symm, (List.append_nil _).symm, List.subset_append_left _ _⟩
  | cons m ms ih =>
    rw [gatherAll] at h
    cases hm : fetchKpis env kpiFetcher m with
    | none =>
      have husable : usable env kpiFetcher m = false := by rw [usable, hm]; rfl
      rw [gather_none hm] at h
      obtain ⟨hok, hfail, hdeg⟩ := ih h
      constructor
      · rw [hok, List.filterMap_cons, hm]
        rfl
      · rw [hfail, List.filter_cons, husable]
        simp
      · refine fun sid hsid => ?_
        rcases List.mem_append.mp (hdeg hsid) with hsid | hsid
        · rw [List.filter_cons, husable]
          simp only [Bool.not_false, if_true, List.map_cons, List.mem_append, List.mem_cons]
          dsimp only at hsid
          split at hsid
          · rcases List.mem_append.mp hsid with hsid | hsid
            · exact Or.inl hsid
            · exact Or.inr (Or.inl (List.mem_singleton.mp hsid))
          · exact Or.inl hsid
        · rw [List.filter_cons, husable]
          simp only [Bool.not_false, if_true, List.map_cons, List.mem_append, List.mem_cons]
          exact Or.inr (Or.inr hsid)
    | some kpis =>
      have husable : usable env kpiFetcher m = true := by rw [usable, hm]; rfl
      cases hg : gather env kpiFetcher multi kpiObjectives g m with
      | error e =>
        rw [hg] at h
        exact nomatch h
      | ok g₁ =>
        rw [hg] at h
        have hkept := gather_some hm hg
        obtain ⟨hok, hfail, hdeg⟩ := ih h
        constructor
        · rw [hok, hkept.okRows, List.filterMap_cons, hm]
          simp
        · rw [hfail, hkept.failureRows, List.filter_cons, husable]
          rfl
        · rw [hkept.degradedOk] at hdeg
          rw [List.filter_cons, husable]
          exact hdeg

/-- Where the names are known, the loop returns if every successful sample can be scored. -/
theorem gatherAll_named {names : List String} (hnames : g.objectiveNames = some names) :
    (∃ g', gatherAll env kpiFetcher multi kpiObjectives ms g = .ok g') ↔
      (multi = true → ∀ m ∈ ms, ∀ kpis, fetchKpis env kpiFetcher m = some kpis →
        Scores env kpis (scoredNames kpis kpiObjectives (some names))) := by
  induction ms generalizing g with
  | nil => exact ⟨fun _ _ m hm => absurd hm List.not_mem_nil, fun _ => ⟨g, rfl⟩⟩
  | cons m ms ih =>
    rw [gatherAll]
    simp only [List.forall_mem_cons]
    cases hm : fetchKpis env kpiFetcher m with
    | none =>
      rw [gather_none hm]
      simp only [reduceCtorEq, false_implies, implies_true, true_and]
      exact ih hnames
    | some kpis =>
      have hscore : (∃ g', gather env kpiFetcher multi kpiObjectives g m = .ok g') ↔ _ :=
        gather_some_ok hm
      rw [hnames] at hscore
      cases hg : gather env kpiFetcher multi kpiObjectives g m with
      | error e =>
        refine ⟨fun h => ?_, fun h => ?_⟩
        · obtain ⟨g', h⟩ := h
          exact nomatch h
        · obtain ⟨g', hg'⟩ := hscore.mpr fun hmulti => (h hmulti).1 kpis rfl
          exact nomatch hg.symm.trans hg'
      | ok g₁ =>
        have hnames₁ : g₁.objectiveNames = some names := by
          rw [(gather_some hm hg).objectiveNames, hnames]
          rfl
        have hthis := hscore.mp ⟨g₁, hg⟩
        refine (ih hnames₁).trans ⟨fun h hmulti => ⟨?_, h hmulti⟩, fun h hmulti => (h hmulti).2⟩
        intro kpis' hkpis'
        rw [← Option.some.inj hkpis']
        exact hthis hmulti

/-- Where they are not, the first successful sample seeds them. -/
theorem gatherAll_unnamed (hobjectives : kpiObjectives.isEmpty = true)
    (hnames : g.objectiveNames = none) :
    (∃ g', gatherAll env kpiFetcher multi kpiObjectives ms g = .ok g') ↔
      (multi = true → SeedScores env kpiFetcher ms) := by
  have hscored : ∀ (kpis : Dict String (Json F)) names,
      scoredNames kpis kpiObjectives names = names.getD (numericKeys kpis) :=
    fun _ _ => if_pos hobjectives
  induction ms generalizing g with
  | nil => exact ⟨fun _ _ => trivial, fun _ => ⟨g, rfl⟩⟩
  | cons m ms ih =>
    rw [gatherAll, SeedScores]
    cases hm : fetchKpis env kpiFetcher m with
    | none =>
      rw [gather_none hm]
      exact ih hnames
    | some kpis =>
      have hscore : (∃ g', gather env kpiFetcher multi kpiObjectives g m = .ok g') ↔ _ :=
        gather_some_ok hm
      rw [hnames, hscored] at hscore
      cases hg : gather env kpiFetcher multi kpiObjectives g m with
      | error e =>
        refine ⟨fun h => ?_, fun h => ?_⟩
        · obtain ⟨g', h⟩ := h
          cases h
        · obtain ⟨g', hg'⟩ := hscore.mpr fun hmulti => (h hmulti).1
          cases hg.symm.trans hg'
      | ok g₁ =>
        have hthis := hscore.mp ⟨g₁, hg⟩
        have hnames₁ := (gather_some hm hg).objectiveNames
        rw [hnames] at hnames₁
        cases multi with
        | false =>
          -- the names stay unknown, and nothing is scored
          refine (ih hnames₁).trans ⟨fun _ => by rintro ⟨⟩, fun _ => by rintro ⟨⟩⟩
        | true =>
          refine (gatherAll_named hnames₁).trans ?_
          simp only [hscored, Option.getD_some, forall_const]
          exact ⟨fun h => ⟨hthis rfl, h⟩, fun h => h.2⟩

/-! ## The tables -/

/-- The id a row of the ok table stands under. -/
theorem get?_okRow (m : AggregatedManifest F) (kpis : Dict String (Json F)) :
    (okRow m kpis).get? "sample_id" = some ((kpis.get? "sample_id").getD (.str m.sampleId)) := by
  rw [okRow, Dict.get?_update, Dict.get?_set_self]
  cases kpis.get? "sample_id" <;> rfl

theorem column_renderOkTable (okRows : List (OkRow F)) :
    (renderOkTable okRows).column "sample_id" = okRows.map fun row => row.get? "sample_id" := by
  show (okRows.map fun row => _).map _ = _
  rw [List.map_map]
  refine List.map_congr_left fun row _ => ?_
  rfl

/-- The ids of the ok table. -/
theorem okRows_ids (ms : List (AggregatedManifest F)) :
    ((ms.filterMap fun m => (fetchKpis env kpiFetcher m).map (okRow m)).map
        fun row => row.get? "sample_id") =
      (ms.filter (usable env kpiFetcher)).map (fun m => some (.str m.sampleId)) ↔
      ∀ m ∈ ms, OwnName env kpiFetcher m := by
  induction ms with
  | nil => exact ⟨fun _ m hm => absurd hm List.not_mem_nil, fun _ => rfl⟩
  | cons m ms ih =>
    rw [List.forall_mem_cons, ← ih]
    cases hm : fetchKpis env kpiFetcher m with
    | none =>
      have husable : usable env kpiFetcher m = false := by rw [usable, hm]; rfl
      have hown : OwnName env kpiFetcher m := fun kpis v h => nomatch hm.symm.trans h
      rw [List.filterMap_cons, hm, List.filter_cons, husable]
      exact ⟨fun h => ⟨hown, h⟩, fun h => h.2⟩
    | some kpis =>
      have husable : usable env kpiFetcher m = true := by rw [usable, hm]; rfl
      have hown : OwnName env kpiFetcher m ↔
          (kpis.get? "sample_id").getD (.str m.sampleId) = .str m.sampleId := by
        constructor
        · intro h
          cases hv : kpis.get? "sample_id" with
          | none => rfl
          | some v => exact h kpis v hm hv
        · intro h kpis' v hkpis' hv
          rw [← Option.some.inj (hm.symm.trans hkpis')] at hv
          rw [hv] at h
          exact h
      rw [List.filterMap_cons, hm, List.filter_cons, husable, hown]
      simp only [Option.map_some, if_true, List.map_cons, get?_okRow, List.cons.injEq,
        Option.some.injEq]

/-! ## The order -/

theorem pairwise_ordered (l : List (AggregatedManifest F)) :
    (ordered l).Pairwise fun a b => sortKey a ≤ sortKey b := by
  refine List.Pairwise.imp (fun h => of_decide_eq_true h) (List.pairwise_mergeSort ?_ ?_ l)
  · intro a b c hab hbc
    exact decide_eq_true (le_trans (of_decide_eq_true hab) (of_decide_eq_true hbc))
  · intro a b
    rw [Bool.or_eq_true, decide_eq_true_iff, decide_eq_true_iff]
    exact le_total _ _

/-- Another order of manifests with different keys is sorted away. -/
theorem ordered_perm {manifests manifests' : List (AggregatedManifest F)}
    (hperm : manifests'.Perm manifests) (hkeys : (manifests.map sortKey).Nodup) :
    ordered manifests' = ordered manifests := by
  have hall : (ordered manifests').Perm (ordered manifests) :=
    (List.mergeSort_perm _ _).trans (hperm.trans (List.mergeSort_perm _ _).symm)
  refine List.Perm.eq_of_pairwise (fun a b ha hb hab hba => ?_) (pairwise_ordered _)
    (pairwise_ordered _) hall
  have ha' : a ∈ manifests := hperm.subset ((List.mergeSort_perm _ _).subset ha)
  have hb' : b ∈ manifests := (List.mergeSort_perm _ _).subset hb
  exact List.inj_on_of_nodup_map hkeys ha' hb' (le_antisymm hab hba)

theorem length_ok_add_failed (env : Env F) (kpiFetcher : KpiFetcher F)
    (ms : List (AggregatedManifest F)) :
    (ms.filterMap fun m => (fetchKpis env kpiFetcher m).map (okRow m)).length +
      (ms.filter fun m => !usable env kpiFetcher m).length = ms.length := by
  induction ms with
  | nil => rfl
  | cons m ms ih =>
    cases hm : fetchKpis env kpiFetcher m with
    | none =>
      have husable : usable env kpiFetcher m = false := by rw [usable, hm]; rfl
      rw [List.filterMap_cons, hm, List.filter_cons, husable]
      simp only [Option.map_none, Bool.not_false, if_true, List.length_cons]
      omega
    | some kpis =>
      have husable : usable env kpiFetcher m = true := by rw [usable, hm]; rfl
      rw [List.filterMap_cons, hm, List.filter_cons, husable]
      simp only [Option.map_some, Bool.not_true, Bool.false_eq_true, if_false, List.length_cons]
      omega

/-! ## When every manifest has its row -/

/-- The loop returns from the start if every successful sample can be scored. -/
theorem gatherAll_start (ms : List (AggregatedManifest F)) :
    (∃ g', gatherAll env kpiFetcher multi kpiObjectives ms ⟨[], [], [], [],
        if kpiObjectives.isEmpty then none else some (kpiObjectives.map Prod.fst)⟩ = .ok g') ↔
      (multi = true → Scorable env kpiFetcher kpiObjectives ms) := by
  by_cases hempty : kpiObjectives.isEmpty = true
  · rw [Scorable, if_pos hempty, if_pos hempty]
    exact gatherAll_unnamed hempty rfl
  · rw [Scorable, if_neg hempty, if_neg hempty]
    refine (gatherAll_named rfl).trans ?_
    have hscored : ∀ kpis : Dict String (Json F), scoredNames kpis kpiObjectives
        (some (kpiObjectives.map Prod.fst)) = kpiObjectives.map Prod.fst := fun _ => if_neg hempty
    simp only [hscored]

theorem mem_ordered {manifests : List (AggregatedManifest F)} :
    m ∈ ordered manifests ↔ m ∈ manifests :=
  (List.mergeSort_perm _ _).mem_iff

variable [LT F] [DecidableLT F]

/-- Where the call returns, the loop did. -/
theorem compileAggregation_ok {manifests : List (AggregatedManifest F)}
    {algorithm : Option String} {result : AggregationResult F}
    (h : compileAggregation env manifests kpiFetcher algorithm kpiObjectives = .ok result) :
    ∃ g, gatherAll env kpiFetcher (isMultiObjective env algorithm) kpiObjectives
        (ordered manifests) ⟨[], [], [], [],
          if kpiObjectives.isEmpty then none else some (kpiObjectives.map Prod.fst)⟩ = .ok g ∧
      result = report env (isMultiObjective env algorithm) kpiObjectives
        (ordered manifests).length g := by
  rw [compileAggregation] at h
  split at h
  · exact nomatch h
  · next g hg =>
    injection h with h
    exact ⟨g, hg, h.symm⟩

/-- The call returns with the rows of the ok table under their own ids just when no KPI is
called `sample_id` and what is scored are floats. -/
theorem okTable_iff (env : Env F) (kpiFetcher : KpiFetcher F)
    (manifests : List (AggregatedManifest F)) (algorithm : Option String)
    (kpiObjectives : List (String × String)) :
    (∃ result, compileAggregation env manifests kpiFetcher algorithm kpiObjectives = .ok result ∧
      result.aggregatedResults.column "sample_id" =
        ((ordered manifests).filter (usable env kpiFetcher)).map
          (fun m => some (.str m.sampleId))) ↔
      (∀ m ∈ manifests, OwnName env kpiFetcher m) ∧
        (isMultiObjective env algorithm = true →
          Scorable env kpiFetcher kpiObjectives (ordered manifests)) := by
  rw [← gatherAll_start]
  constructor
  · rintro ⟨result, hresult, hok⟩
    obtain ⟨g, hg, rfl⟩ := compileAggregation_ok hresult
    have hids := (column_renderOkTable g.okRows).symm.trans hok
    rw [(gatherAll_gathers hg).okRows] at hids
    exact ⟨fun m hm => (okRows_ids _).mp hids m (mem_ordered.mpr hm), g, hg⟩
  · rintro ⟨hown, g, hg⟩
    refine ⟨report env (isMultiObjective env algorithm) kpiObjectives
      (ordered manifests).length g, by rw [compileAggregation, hg], ?_⟩
    refine (column_renderOkTable g.okRows).trans ?_
    rw [(gatherAll_gathers hg).okRows]
    exact (okRows_ids _).mpr fun m hm => hown m (mem_ordered.mp hm)

theorem Partitioned.okTable {manifests : List (AggregatedManifest F)} {algorithm : Option String}
    (h : Partitioned env kpiFetcher manifests algorithm kpiObjectives) :
    (∀ m ∈ manifests, OwnName env kpiFetcher m) ∧
      (isMultiObjective env algorithm = true →
        Scorable env kpiFetcher kpiObjectives (ordered manifests)) := by
  obtain ⟨result, hresult, hok, _⟩ := h.returns
  exact (okTable_iff env kpiFetcher manifests algorithm kpiObjectives).mp ⟨result, hresult, hok⟩

/-- Every manifest has its row under its own id, whatever the order, if no KPI is called
`sample_id` and what is scored are floats. -/
theorem partitioned_iff (env : Env F) (kpiFetcher : KpiFetcher F)
    (manifests : List (AggregatedManifest F)) (algorithm : Option String)
    (kpiObjectives : List (String × String)) :
    Partitioned env kpiFetcher manifests algorithm kpiObjectives ↔
      (∀ m ∈ manifests, OwnName env kpiFetcher m) ∧
        (isMultiObjective env algorithm = true →
          Scorable env kpiFetcher kpiObjectives (ordered manifests)) := by
  have hlen : (ordered manifests).length = manifests.length := List.length_mergeSort _
  refine ⟨Partitioned.okTable, fun h => ?_⟩
  obtain ⟨result, hresult, hok⟩ :=
    (okTable_iff env kpiFetcher manifests algorithm kpiObjectives).mpr h
  obtain ⟨g, hg, rfl⟩ := compileAggregation_ok hresult
  obtain ⟨hrows, hfail, hdeg⟩ := gatherAll_gathers hg
  have hids : g.failureRows.map FailureRow.sampleId =
      ((ordered manifests).filter fun m => !usable env kpiFetcher m).map fun m => m.sampleId := by
    rw [hfail, List.nil_append, List.map_map]
    rfl
  refine ⟨⟨_, hresult, hok, hids, ?_, ?_⟩, ?_⟩
  · have hcounts : _ + _ = (ordered manifests).length :=
      length_ok_add_failed env kpiFetcher (ordered manifests)
    show g.okRows.length + g.failureRows.length = manifests.length
    rw [hrows, hfail, ← hlen, ← hcounts, List.nil_append, List.nil_append, List.length_map]
  · show g.degradedOk ⊆ g.failureRows.map FailureRow.sampleId
    rw [hids]
    exact hdeg
  · intro hkeys manifests' hperm
    rw [compileAggregation, compileAggregation, ordered_perm hperm hkeys]

end

/-! ## A KPI called `sample_id` -/

/-- A campaign without objectives, where the floats are the rationals. -/
def plainEnv : Env ℚ where
  lower := id
  classifyLine _ := "generic_severe"
  suggestion _ := ""
  floatOfInt n := .ok n

/-- Sample "0001" published `{"kpis": {"sample_id": "0002", "eui": 1}}`. -/
def renamedObjects : String → StoredObject ℚ := fun _ =>
  .json (.obj [("kpis", .obj [("sample_id", .str "0002"), ("eui", .int 1)])])

def completedManifest : AggregatedManifest ℚ where
  sampleId := "0001"
  index := 0
  status := "completed"
  kpisKey := some "c/samples/0001/kpis.json"
  exitCode := 0
  firstSevereError := none
  finishedAt := none

/-- The row of sample "0001" stands under another id. -/
theorem row_under_kpi_sample_id :
    ¬ ∀ (objects : String → StoredObject ℚ) (manifests : List (AggregatedManifest ℚ)),
      Partitioned plainEnv (makeKpiFetcher objects) manifests none [] := by
  intro h
  have hown := (h renamedObjects [completedManifest]).okTable.1 completedManifest
    List.mem_cons_self
  have hid : (.str "0002" : Json ℚ) = .str "0001" := hown _ _ rfl rfl
  injection hid with hid
  exact absurd hid (by decide)

end OSimFlow.Aggregation
