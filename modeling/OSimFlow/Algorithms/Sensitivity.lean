import Mathlib.Data.Rat.Floor
import OSimFlow.Algorithms.Sampling
import OSimFlow.Lib.Positions
import OSimFlow.Lib.Succeeds

/-!
# Sensitivity indices of a Sobol campaign

SALib's `analyze` takes one output for each row of the design and trusts their order.
The list of samples it is given them from is the design with a baseline sample put in
front (unless the samples come from the cache), with overrides, and of all that only
what the shard selects; and for each sample `compute_sensitivity_indices` chooses the
KPI again: `eui` where it is a number, else the first number.

> `OnDesign`: one output was handed over for each row of the design, in the order of the
> rows, all of one KPI, and the indices are SALib's of these.

`Computable` says when there are indices at all, `Complete` and `OneKpi` when they are
those of the design.
-/

namespace OSimFlow.Algorithms.Sensitivity

open OSimFlow.Lib (Dict mapM_ok_of_forall succeeds_mapM_all forall₂_of_mapM_ok
  exists_of_forall₂ atPositions positionsFrom positionsFrom_true map_filter_zipIdx
  take_drop_eq_positionsFrom atPositions_map atPositions_eq_drop atPositions_eq_drop_iff)
open Sampling

/-! ## The list of samples -/

/-- What `--shard-…` selects; the configuration refuses the rest. -/
inductive Shard where
  | whole
  | partition (count index : Nat) (index_lt : index < count)
  | range (start stop : Nat) (start_lt : start < stop)

/-- `apply_sharding`. -/
def Shard.apply {α : Type} (samples : List α) : Shard → List α
  | whole => samples
  | partition count index _ =>
    (samples.zipIdx.filter fun x => decide (x.2 % count = index)).map Prod.fst
  | range start stop _ => (samples.take stop).drop start

/-- Whether a position is selected. -/
def Shard.selects : Shard → Nat → Bool
  | whole, _ => true
  | partition count index _, i => decide (i % count = index)
  | range start stop _, i => decide (start ≤ i ∧ i < stop)

/-- A sample as the steps pass it on. -/
structure SampleSpec (K : Type) where
  sampleId : String
  values : Dict String (Scalar K)
  seedModel : Option String
  weatherFile : Option String

/-- What a data point sets for its sample. -/
structure Overrides where
  seedModel : Option String
  weatherFile : Option String

/-- A campaign with `algorithm: sobol`. With a cache `hit` the samples are read from the
file that the sampler wrote for the same variables. -/
structure Campaign (K : Type) where
  varList : List (VarDef K)
  nSamples : Nat
  prebuiltWorkflow : Bool
  hit : Bool
  baseline : Option (String × Dict String (Scalar K))
  dpManager : String → Option Overrides
  shard : Shard

/-- SALib: the rows of a design; whether it takes a number of outputs for a number of
variables; and the indices of each variable. -/
structure Salib (K : Type) where
  sobolSample : Problem K → Nat → Except SampleError (List (List K))
  accepts : (numVars outputs : Nat) → Bool
  firstOrder : Problem K → List K → Nat → K
  totalEffect : Problem K → List K → Nat → K

/-- An output that is handed to SALib, with where it was read. -/
structure Reading (K : Type) where
  sampleId : String
  kpi : String
  value : K

/-- What is written to `sensitivity_indices.json`, and for the account what was handed
over. -/
structure Report (K : Type) where
  handed : List (Reading K)
  s1 : Dict String K
  st : Dict String K
  kpiUsed : String

section

variable {K : Type} [Field K] [LinearOrder K] [FloorRing K]

namespace Campaign

variable (num : Numerics K) (salib : Salib K) (c : Campaign K)

/-- The variables that SALib varies. -/
def varied : List (VarDef K) := dimensions (partitionVariables c.varList).1

/-- The samples that the sampler makes of the rows of the design; a prebuilt workflow has
no design. -/
def design : Except SampleError (List (Sample K)) :=
  if c.prebuiltWorkflow then .ok []
  else generateSobol num salib.sobolSample c.varList c.nSamples

/-- The samples of the file. -/
def fileSamples (rows : List (Sample K)) : List (Sample K) :=
  if c.prebuiltWorkflow then (sampleIds (max 1 c.nSamples)).map fun id => ⟨id, ∅⟩ else rows

/-- The baseline sample, if it is injected. -/
def injected (samples : List (Sample K)) : List (Sample K) :=
  match c.baseline with
  | none => []
  | some (id, params) =>
    if c.hit ∨ id ∈ samples.map Sample.sampleId then [] else [⟨id, params⟩]

/-- `_inject_dp_overrides`, on a sample. -/
def withOverrides (s : Sample K) : SampleSpec K :=
  match c.dpManager s.sampleId with
  | none => ⟨s.sampleId, s.values, none, none⟩
  | some o => ⟨s.sampleId, s.values, o.seedModel, o.weatherFile⟩

/-- The samples of the generation. -/
def samples (rows : List (Sample K)) : List (SampleSpec K) :=
  c.shard.apply ((c.injected (c.fileSamples rows) ++ c.fileSamples rows).map c.withOverrides)

end Campaign

/-! ## `compute_sensitivity_indices` -/

/-- The items whose value is a number. -/
def numeric (kpis : Dict String (Scalar K)) : List (String × K) :=
  kpis.items.filterMap fun item =>
    match item.2 with
    | .number x => some (item.1, x)
    | _ => none

/-- `eui` if it is a number, else the first number. -/
def primaryKpi (kpis : Dict String (Scalar K)) : Option (String × K) :=
  match kpis.get? "eui" with
  | some (.number x) => some ("eui", x)
  | _ => (numeric kpis).head?

/-- `kpi_values.get(sid, {})`. -/
def kpisOf (kpiValues : Dict String (Dict String (Scalar K))) (sampleId : String) :
    Dict String (Scalar K) :=
  (kpiValues.get? sampleId).getD ∅

/-- The output of a sample. -/
def reading (kpiValues : Dict String (Dict String (Scalar K))) (s : SampleSpec K) :
    Except SampleError (Reading K) :=
  match primaryKpi (kpisOf kpiValues s.sampleId) with
  | none => .error (.runtimeError
      ("compute_sensitivity_indices: no numeric KPI found for sample " ++ s.sampleId))
  | some (kpi, value) => .ok ⟨s.sampleId, kpi, value⟩

/-- `{n: … for n, v in zip(problem["names"], …)}`. -/
def byName (problem : Problem K) (index : Nat → K) : Dict String K :=
  problem.names.zipIdx.foldl (fun d name => d.set name.1 (index name.2)) ∅

/-- The output of the function. -/
def report (salib : Salib K) (problem : Problem K)
    (kpiValues : Dict String (Dict String (Scalar K))) (handed : List (Reading K)) : Report K where
  handed := handed
  s1 := byName problem (salib.firstOrder problem (handed.map Reading.value))
  st := byName problem (salib.totalEffect problem (handed.map Reading.value))
  kpiUsed :=
    if (kpiValues.values.headD ∅).get? "eui" = none then "first_numeric" else "eui"

/-- `compute_sensitivity_indices`, with its `calc_second_order` left at `False`. -/
def computeSensitivityIndices (num : Numerics K) (salib : Salib K) (varList : List (VarDef K))
    (samples : List (SampleSpec K)) (kpiValues : Dict String (Dict String (Scalar K))) :
    Except SampleError (Report K) :=
  let independentVars := dimensions (partitionVariables varList).1
  if varList = [] then
    .error (.runtimeError "compute_sensitivity_indices: no variables defined")
  else if independentVars = [] then
    .error (.runtimeError "compute_sensitivity_indices: no independent variables to vary")
  else
    match buildSalibProblem (sobolBounds num) independentVars with
    | .error e => .error e
    | .ok problem =>
      match samples.mapM (reading kpiValues) with
      | .error e => .error e
      | .ok handed =>
        if salib.accepts independentVars.length handed.length then
          .ok (report salib problem kpiValues handed)
        else .error (.runtimeError "compute_sensitivity_indices: SALib sobol.analyze failed")

/-- The indices of a campaign with these KPIs. -/
def Campaign.indices (num : Numerics K) (salib : Salib K) (c : Campaign K)
    (kpiValues : Dict String (Dict String (Scalar K))) : Except SampleError (Report K) :=
  match c.design num salib with
  | .error e => .error e
  | .ok rows => computeSensitivityIndices num salib c.varList (c.samples rows) kpiValues

/-! ## The property -/

/-- The indices are SALib's, of one KPI over the rows of the design. -/
def OnDesign (salib : Salib K) (kpiValues : Dict String (Dict String (Scalar K)))
    (problem : Problem K) (rows : List (Sample K)) (r : Report K) : Prop :=
  ∃ kpi outputs,
    List.Forall₂ (fun row x => (kpisOf kpiValues row.sampleId).get? kpi = some (.number x))
      rows outputs ∧
    r.handed = (rows.zip outputs).map (fun cell => ⟨cell.1.sampleId, kpi, cell.2⟩) ∧
    r.s1 = byName problem (salib.firstOrder problem outputs) ∧
    r.st = byName problem (salib.totalEffect problem outputs)

/-- The sample has a number for the KPI. -/
def HasNumber (kpiValues : Dict String (Dict String (Scalar K))) (kpi : String)
    (sampleId : String) : Prop :=
  ∃ x, (kpisOf kpiValues sampleId).get? kpi = some (.number x)

/-- How many samples come before the rows of the design, or instead of them. -/
def Campaign.extra (c : Campaign K) (rows : List (Sample K)) : Nat :=
  (c.injected (c.fileSamples rows)).length + if c.prebuiltWorkflow then max 1 c.nSamples else 0

/-- The shard leaves out what is not a row of the design, and nothing else. -/
def Complete (c : Campaign K) (rows : List (Sample K)) : Prop :=
  ∀ p < c.extra rows + rows.length, c.shard.selects p = true ↔ c.extra rows ≤ p

/-- All rows have a number for `eui`, or none has and the first number of all is of one
KPI. -/
def OneKpi (kpiValues : Dict String (Dict String (Scalar K))) (rows : List (Sample K)) : Prop :=
  (∀ row ∈ rows, HasNumber kpiValues "eui" row.sampleId) ∨
    ∃ kpi, ∀ row ∈ rows, ¬ HasNumber kpiValues "eui" row.sampleId ∧
      ((numeric (kpisOf kpiValues row.sampleId)).head?.map Prod.fst) = some kpi

/-- There is something to vary, every sample that was selected has a number, and SALib
takes their number of outputs. -/
structure Computable (num : Numerics K) (salib : Salib K) (c : Campaign K)
    (kpiValues : Dict String (Dict String (Scalar K))) (rows : List (Sample K)) : Prop where
  varied : c.varied ≠ []
  bounds : ∀ v ∈ c.varied, ∃ b, sobolBounds num v = .ok b
  numbers : ∀ s ∈ c.samples rows, numeric (kpisOf kpiValues s.sampleId) ≠ []
  accepted : salib.accepts c.varied.length (c.samples rows).length = true

/-! ## The samples that are analysed -/

omit [Field K] [LinearOrder K] [FloorRing K] in
theorem Shard.apply_eq {α : Type} (shard : Shard) (l : List α) :
    shard.apply l = atPositions shard.selects l := by
  cases shard with
  | whole => exact (positionsFrom_true fun _ _ => rfl).symm
  | partition count index hlt =>
    exact map_filter_zipIdx (Shard.partition count index hlt).selects l 0
  | range start stop _ => exact take_drop_eq_positionsFrom l 0 start stop

section

variable {num : Numerics K} {salib : Salib K} {c : Campaign K} {rows : List (Sample K)}

omit [Field K] [LinearOrder K] [FloorRing K] in
@[simp] theorem sampleId_withOverrides (s : Sample K) :
    (c.withOverrides s).sampleId = s.sampleId := by
  unfold Campaign.withOverrides
  split <;> rfl

/-- The rows of the design are the last samples of the list. -/
theorem drop_extra (hdesign : c.design num salib = .ok rows) :
    (c.injected (c.fileSamples rows) ++ c.fileSamples rows).length = c.extra rows + rows.length ∧
      (c.injected (c.fileSamples rows) ++ c.fileSamples rows).drop (c.extra rows) = rows := by
  unfold Campaign.extra
  by_cases hpre : c.prebuiltWorkflow = true
  · have hrows : rows = [] := by
      unfold Campaign.design at hdesign
      rw [if_pos hpre] at hdesign
      exact (Except.ok.inj hdesign).symm
    have hlen : (c.fileSamples rows).length = max 1 c.nSamples := by
      unfold Campaign.fileSamples
      rw [if_pos hpre, List.length_map, sampleIds, List.length_map, List.length_range]
    rw [if_pos hpre, List.length_append, hlen, hrows]
    refine ⟨rfl, List.drop_eq_nil_of_le ?_⟩
    rw [← hrows, List.length_append, hlen]
  · have hfile : c.fileSamples rows = rows := if_neg hpre
    rw [if_neg hpre, hfile, Nat.add_zero, List.length_append]
    exact ⟨rfl, List.drop_left⟩

/-- No id occurs twice. -/
theorem nodup_ids (hdesign : c.design num salib = .ok rows) :
    ((c.injected (c.fileSamples rows) ++ c.fileSamples rows).map Sample.sampleId).Nodup := by
  have hfile : ((c.fileSamples rows).map Sample.sampleId).Nodup := by
    unfold Campaign.design at hdesign
    unfold Campaign.fileSamples
    split
    next hpre =>
      rw [List.map_map]
      exact (List.map_id (sampleIds _)).symm ▸ nodup_sampleIds _
    next hpre =>
      rw [if_neg hpre] at hdesign
      rw [numbered_generateSobol hdesign]
      exact nodup_sampleIds _
  unfold Campaign.injected
  split
  · exact hfile
  · next id params _ =>
    split
    · exact hfile
    · next hnew =>
      refine List.nodup_cons.mpr ⟨fun hm => hnew (Or.inr hm), hfile⟩

/-- What the shard selects are the rows of the design just when it is complete. -/
theorem ids_samples_iff (hdesign : c.design num salib = .ok rows) :
    (c.samples rows).map SampleSpec.sampleId = rows.map Sample.sampleId ↔ Complete c rows := by
  obtain ⟨hlen, hdrop⟩ := drop_extra hdesign
  have hids : (c.samples rows).map SampleSpec.sampleId =
      atPositions c.shard.selects
        ((c.injected (c.fileSamples rows) ++ c.fileSamples rows).map Sample.sampleId) := by
    rw [Campaign.samples, Shard.apply_eq, ← atPositions_map, List.map_map]
    congr 1
    exact List.map_congr_left fun s _ => sampleId_withOverrides s
  have hrows : rows.map Sample.sampleId =
      ((c.injected (c.fileSamples rows) ++ c.fileSamples rows).map Sample.sampleId).drop
        (c.extra rows) := by rw [← List.map_drop, hdrop]
  rw [hids, hrows, atPositions_eq_drop_iff (nodup_ids hdesign), List.length_map, hlen]
  rfl

theorem samples_eq (hdesign : c.design num salib = .ok rows) (h : Complete c rows) :
    c.samples rows = rows.map c.withOverrides := by
  obtain ⟨hlen, hdrop⟩ := drop_extra hdesign
  rw [Campaign.samples, Shard.apply_eq, atPositions_eq_drop (k := c.extra rows), ← List.map_drop,
    hdrop]
  rw [List.length_map, hlen]
  exact h

end

end

/-! ## The KPI of a sample -/

section

variable {K : Type} {kpis : Dict String (Scalar K)}

theorem mem_numeric {kpi : String} {x : K} :
    (kpi, x) ∈ numeric kpis ↔ kpis.get? kpi = some (.number x) := by
  rw [← Dict.mem_items, numeric, List.mem_filterMap]
  constructor
  · rintro ⟨⟨k, v⟩, hm, hv⟩
    cases v with
    | null => exact nomatch hv
    | text s => exact nomatch hv
    | number y =>
      cases hv
      exact hm
  · exact fun hm => ⟨(kpi, .number x), hm, rfl⟩

theorem primaryKpi_of_number {x : K} (h : kpis.get? "eui" = some (.number x)) :
    primaryKpi kpis = some ("eui", x) := by
  unfold primaryKpi
  rw [h]

theorem primaryKpi_of_not (h : ¬ ∃ x, kpis.get? "eui" = some (.number x)) :
    primaryKpi kpis = (numeric kpis).head? := by
  unfold primaryKpi
  split
  next x hx => exact absurd ⟨x, hx⟩ h
  next => rfl

/-- What is chosen is a number of the sample. -/
theorem get?_of_primaryKpi {kpi : String} {x : K} (h : primaryKpi kpis = some (kpi, x)) :
    kpis.get? kpi = some (.number x) := by
  by_cases heui : ∃ y, kpis.get? "eui" = some (.number y)
  · obtain ⟨y, hy⟩ := heui
    rw [primaryKpi_of_number hy] at h
    cases h
    exact hy
  · rw [primaryKpi_of_not heui] at h
    exact mem_numeric.mp (List.mem_of_mem_head? h)

theorem primaryKpi_isSome (h : numeric kpis ≠ []) : ∃ kpi x, primaryKpi kpis = some (kpi, x) := by
  by_cases heui : ∃ y, kpis.get? "eui" = some (.number y)
  · obtain ⟨y, hy⟩ := heui
    exact ⟨"eui", y, primaryKpi_of_number hy⟩
  · rw [primaryKpi_of_not heui]
    obtain ⟨item, rest, hitems⟩ := List.exists_cons_of_ne_nil h
    exact ⟨item.1, item.2, by rw [hitems]; rfl⟩

/-- The same KPI is chosen for all rows. -/
theorem oneKpi_iff {kpiValues : Dict String (Dict String (Scalar K))} {rows : List (Sample K)} :
    OneKpi kpiValues rows ↔
      ∃ kpi, ∀ row ∈ rows, ∃ x, primaryKpi (kpisOf kpiValues row.sampleId) = some (kpi, x) := by
  constructor
  · rintro (heui | ⟨kpi, hfirst⟩)
    · refine ⟨"eui", fun row hrow => ?_⟩
      obtain ⟨x, hx⟩ := heui row hrow
      exact ⟨x, primaryKpi_of_number hx⟩
    · refine ⟨kpi, fun row hrow => ?_⟩
      obtain ⟨hnot, hhead⟩ := hfirst row hrow
      obtain ⟨⟨k, x⟩, hitem, hk⟩ := Option.map_eq_some_iff.mp hhead
      cases hk
      exact ⟨x, (primaryKpi_of_not hnot).trans hitem⟩
  · rintro ⟨kpi, hkpi⟩
    by_cases heq : kpi = "eui"
    · refine Or.inl fun row hrow => ?_
      obtain ⟨x, hx⟩ := hkpi row hrow
      exact ⟨x, heq ▸ get?_of_primaryKpi hx⟩
    · refine Or.inr ⟨kpi, fun row hrow => ?_⟩
      obtain ⟨x, hx⟩ := hkpi row hrow
      have hnot : ¬ HasNumber kpiValues "eui" row.sampleId := by
        rintro ⟨y, hy⟩
        rw [primaryKpi_of_number hy] at hx
        cases hx
        exact heq rfl
      refine ⟨hnot, ?_⟩
      rw [← primaryKpi_of_not hnot, hx]
      rfl

theorem numeric_ne_nil_of_reading {kpiValues : Dict String (Dict String (Scalar K))}
    {s : SampleSpec K} {r : Reading K} (h : reading kpiValues s = .ok r) :
    numeric (kpisOf kpiValues s.sampleId) ≠ [] := by
  intro hnil
  have hnone : primaryKpi (kpisOf kpiValues s.sampleId) = none := by
    rw [primaryKpi_of_not, hnil]
    · rfl
    · rintro ⟨x, hx⟩
      rw [← mem_numeric, hnil] at hx
      exact nomatch hx
  unfold reading at h
  rw [hnone] at h
  exact nomatch h

end

/-! ## The run -/

section

variable {K : Type} [Field K] [LinearOrder K] [FloorRing K]
variable {kpiValues : Dict String (Dict String (Scalar K))}

/-- What is handed over for a sample that has a number. -/
def readingOf (kpiValues : Dict String (Dict String (Scalar K))) (sampleId : String) : Reading K :=
  let chosen := (primaryKpi (kpisOf kpiValues sampleId)).getD ("", 0)
  ⟨sampleId, chosen.1, chosen.2⟩

omit [LinearOrder K] [FloorRing K] in
theorem reading_eq {s : SampleSpec K} (h : numeric (kpisOf kpiValues s.sampleId) ≠ []) :
    reading kpiValues s = .ok (readingOf kpiValues s.sampleId) := by
  obtain ⟨kpi, x, hx⟩ := primaryKpi_isSome h
  unfold reading readingOf
  rw [hx]
  rfl

variable {num : Numerics K} {salib : Salib K} {c : Campaign K} {rows : List (Sample K)}

omit [FloorRing K] in
theorem buildSalibProblem_ok {vars : List (VarDef K)}
    (h : ∀ v ∈ vars, ∃ b, sobolBounds num v = .ok b) :
    ∃ problem, buildSalibProblem (sobolBounds num) vars = .ok problem := by
  obtain ⟨bounds, hbounds, _⟩ := succeeds_mapM_all (P := fun _ => True) fun v hv =>
    (h v hv).elim fun b hb => ⟨b, hb, trivial⟩
  exact ⟨⟨vars.map VarDef.name, bounds⟩, by rw [buildSalibProblem, hbounds]; rfl⟩

omit [FloorRing K] in
theorem bounds_of_buildSalibProblem {vars : List (VarDef K)} {problem : Problem K}
    (h : buildSalibProblem (sobolBounds num) vars = .ok problem) :
    ∀ v ∈ vars, ∃ b, sobolBounds num v = .ok b := by
  intro v hv
  unfold buildSalibProblem at h
  cases hbounds : vars.mapM (sobolBounds num) with
  | error e => rw [hbounds] at h; exact nomatch h
  | ok bounds =>
    obtain ⟨b, _, hb⟩ := exists_of_forall₂ (forall₂_of_mapM_ok hbounds) v hv
    exact ⟨b, hb⟩

/-- There are indices just when they are computable, and they are those of the readings. -/
theorem indices_ok_iff (hdesign : c.design num salib = .ok rows) {problem : Problem K}
    {r : Report K} (hproblem : buildSalibProblem (sobolBounds num) c.varied = .ok problem) :
    c.indices num salib kpiValues = .ok r ↔
      Computable num salib c kpiValues rows ∧
        r = report salib problem kpiValues
          ((c.samples rows).map fun s => readingOf kpiValues s.sampleId) := by
  unfold Campaign.indices
  rw [hdesign]
  show computeSensitivityIndices num salib c.varList (c.samples rows) kpiValues = .ok r ↔ _
  unfold computeSensitivityIndices
  by_cases hvars : c.varList = []
  · rw [if_pos hvars]
    refine ⟨fun h => (nomatch h), fun ⟨hc, _⟩ => absurd ?_ hc.varied⟩
    rw [Campaign.varied, hvars]
    rfl
  by_cases hvaried : c.varied = []
  · rw [if_neg hvars, if_pos (show dimensions (partitionVariables c.varList).1 = [] from hvaried)]
    exact ⟨fun h => (nomatch h), fun ⟨hc, _⟩ => absurd hvaried hc.varied⟩
  rw [if_neg hvars, if_neg (show ¬ dimensions (partitionVariables c.varList).1 = [] from hvaried)]
  rw [show buildSalibProblem (sobolBounds num) (dimensions (partitionVariables c.varList).1) =
    .ok problem from hproblem]
  dsimp only
  cases hread : (c.samples rows).mapM (reading kpiValues) with
  | error e =>
    refine ⟨fun h => (nomatch h), fun ⟨hc, _⟩ => ?_⟩
    rw [mapM_ok_of_forall fun s hs => reading_eq (hc.numbers s hs)] at hread
    exact nomatch hread
  | ok handed =>
    have hnumbers : ∀ s ∈ c.samples rows, numeric (kpisOf kpiValues s.sampleId) ≠ [] := by
      intro s hs
      obtain ⟨r, _, hr⟩ := exists_of_forall₂ (forall₂_of_mapM_ok hread) s hs
      exact numeric_ne_nil_of_reading hr
    have hhanded : handed = (c.samples rows).map fun s => readingOf kpiValues s.sampleId := by
      rw [mapM_ok_of_forall fun s hs => reading_eq (hnumbers s hs)] at hread
      exact (Except.ok.inj hread).symm
    have hlen : handed.length = (c.samples rows).length := by rw [hhanded, List.length_map]
    dsimp only
    rw [hlen, ← hhanded]
    by_cases haccepts : salib.accepts c.varied.length (c.samples rows).length = true
    · rw [if_pos (show salib.accepts (dimensions (partitionVariables c.varList).1).length
        (c.samples rows).length = true from haccepts)]
      constructor
      · intro h
        exact ⟨⟨hvaried, bounds_of_buildSalibProblem hproblem, hnumbers, haccepts⟩,
          (Except.ok.inj h).symm⟩
      · rintro ⟨_, rfl⟩
        rfl
    · rw [if_neg (show ¬ salib.accepts (dimensions (partitionVariables c.varList).1).length
        (c.samples rows).length = true from haccepts)]
      exact ⟨fun h => (nomatch h), fun ⟨hc, _⟩ => absurd hc.accepted haccepts⟩

/-! ## The indices are those of the design -/

omit [LinearOrder K] [FloorRing K] in
/-- What is handed over for the rows, if one KPI is chosen for all. -/
theorem handed_eq {kpi : String} {outputs : List K}
    (h : List.Forall₂ (fun row x => primaryKpi (kpisOf kpiValues row.sampleId) = some (kpi, x))
      rows outputs) :
    rows.map (fun row => readingOf kpiValues row.sampleId) =
      (rows.zip outputs).map fun cell => ⟨cell.1.sampleId, kpi, cell.2⟩ := by
  induction h with
  | nil => rfl
  | cons hx _ ih =>
    rw [List.map_cons, ih, List.zip_cons_cons, List.map_cons, readingOf, hx]
    rfl

omit [Field K] [LinearOrder K] [FloorRing K] in
theorem map_value_zip {kpi : String} {outputs : List K} (h : rows.length = outputs.length) :
    ((rows.zip outputs).map fun cell => (⟨cell.1.sampleId, kpi, cell.2⟩ : Reading K)).map
      Reading.value = outputs := by
  rw [List.map_map]
  exact List.map_snd_zip (Nat.le_of_eq h.symm)

/-- The rows all selected and one KPI chosen, the report is on the design. -/
theorem onDesign_report (hdesign : c.design num salib = .ok rows) {problem : Problem K}
    (hcomplete : Complete c rows) (hkpi : OneKpi kpiValues rows) :
    OnDesign salib kpiValues problem rows (report salib problem kpiValues
      ((c.samples rows).map fun s => readingOf kpiValues s.sampleId)) := by
  obtain ⟨kpi, hkpi⟩ := oneKpi_iff.mp hkpi
  let outputs := rows.map fun row => (readingOf kpiValues row.sampleId).value
  have hchosen : List.Forall₂
      (fun row x => primaryKpi (kpisOf kpiValues row.sampleId) = some (kpi, x)) rows outputs := by
    refine List.forall₂_map_right_iff.mpr (List.forall₂_same.mpr fun row hrow => ?_)
    obtain ⟨x, hx⟩ := hkpi row hrow
    rw [readingOf, hx]
    rfl
  have hhanded : (c.samples rows).map (fun s => readingOf kpiValues s.sampleId) =
      (rows.zip outputs).map fun cell => ⟨cell.1.sampleId, kpi, cell.2⟩ := by
    rw [samples_eq hdesign hcomplete, List.map_map, ← handed_eq hchosen]
    refine List.map_congr_left fun row _ => ?_
    rw [Function.comp_apply, sampleId_withOverrides]
  refine ⟨kpi, outputs, hchosen.imp fun _ _ hx => get?_of_primaryKpi hx, hhanded, ?_, ?_⟩
  · rw [hhanded, report, map_value_zip hchosen.length_eq]
  · rw [hhanded, report, map_value_zip hchosen.length_eq]

/-- A report on the design comes of its rows alone, and of one KPI. -/
theorem complete_of_onDesign (hdesign : c.design num salib = .ok rows) {problem : Problem K}
    (hcomp : Computable num salib c kpiValues rows)
    (h : OnDesign salib kpiValues problem rows (report salib problem kpiValues
      ((c.samples rows).map fun s => readingOf kpiValues s.sampleId))) :
    Complete c rows ∧ OneKpi kpiValues rows := by
  obtain ⟨kpi, outputs, hvalues, hhanded, _, _⟩ := h
  have hcomplete : Complete c rows := by
    rw [← ids_samples_iff hdesign]
    have hids := congrArg (List.map Reading.sampleId) hhanded
    rw [report, List.map_map, List.map_map] at hids
    refine hids.trans ?_
    exact (List.map_map (f := Prod.fst) (g := Sample.sampleId)).symm.trans
      (by rw [List.map_fst_zip (Nat.le_of_eq hvalues.length_eq)])
  refine ⟨hcomplete, oneKpi_iff.mpr ⟨kpi, fun row hrow => ?_⟩⟩
  have hmem : c.withOverrides row ∈ c.samples rows := by
    rw [samples_eq hdesign hcomplete]
    exact List.mem_map_of_mem hrow
  have hnumbers := hcomp.numbers _ hmem
  rw [sampleId_withOverrides] at hnumbers
  obtain ⟨k, x, hx⟩ := primaryKpi_isSome hnumbers
  have hreading : readingOf kpiValues row.sampleId ∈
      (c.samples rows).map fun s => readingOf kpiValues s.sampleId :=
    List.mem_map.mpr ⟨_, hmem, by rw [sampleId_withOverrides]⟩
  rw [show (c.samples rows).map (fun s => readingOf kpiValues s.sampleId) = _ from hhanded]
    at hreading
  obtain ⟨cell, _, hcell⟩ := List.mem_map.mp hreading
  rw [readingOf, hx] at hcell
  have hk : kpi = k := congrArg Reading.kpi hcell
  exact ⟨x, hk ▸ hx⟩

/-- Indices that are written are those of the design just when, for a campaign that has
any, the shard selects the rows of the design alone and one KPI is chosen for all. -/
theorem onDesign_iff (hdesign : c.design num salib = .ok rows) :
    (∀ problem r, buildSalibProblem (sobolBounds num) c.varied = .ok problem →
        c.indices num salib kpiValues = .ok r → OnDesign salib kpiValues problem rows r) ↔
      (Computable num salib c kpiValues rows → Complete c rows ∧ OneKpi kpiValues rows) := by
  constructor
  · intro h hcomp
    obtain ⟨problem, hproblem⟩ := buildSalibProblem_ok hcomp.bounds
    exact complete_of_onDesign hdesign hcomp
      (h problem _ hproblem ((indices_ok_iff hdesign hproblem).mpr ⟨hcomp, rfl⟩))
  · intro h problem r hproblem hr
    obtain ⟨hcomp, rfl⟩ := (indices_ok_iff hdesign hproblem).mp hr
    obtain ⟨hcomplete, hkpi⟩ := h hcomp
    exact onDesign_report hdesign hcomplete hkpi

end

/-! ## One variable, one base sample -/

/-- A numeric library of which a uniform variable uses nothing. -/
def noNumerics : Numerics Rat where
  exp := id
  normPpf u _ _ := u
  lognormPpf u _ _ := u
  triangPpf u _ _ _ := u
  betaPpf u _ _ _ _ := u
  gammaPpf u _ _ _ := u
  exponPpf u _ := u
  floatOfText _ := none
  safeEval _ _ := true

def mean (l : List Rat) : Rat := l.sum / l.length

def variance (l : List Rat) : Rat := mean (l.map fun x => (x - mean l) ^ 2)

/-- SALib's estimators; the design is that of one variable and one base sample. -/
def salibOne : Salib Rat where
  sobolSample _ _ := .ok [[1 / 2], [1 / 4], [3 / 4]]
  accepts numVars outputs := decide (0 < outputs ∧ outputs % (numVars + 2) = 0)
  firstOrder problem outputs j :=
    let column (k : Nat) :=
      atPositions (fun p => p % (problem.names.length + 2) == k)
        (outputs.map fun x => x - mean outputs)
    let a := column 0
    let b := column (problem.names.length + 1)
    mean (List.zipWith (· * ·) b (List.zipWith (· - ·) (column (j + 1)) a)) / variance (a ++ b)
  totalEffect problem outputs j :=
    let column (k : Nat) := atPositions (fun p => p % (problem.names.length + 2) == k) outputs
    mean ((List.zipWith (· - ·) (column 0) (column (j + 1))).map fun x => x ^ 2) /
      (2 * variance (column 0 ++ column (problem.names.length + 1)))

def wallR : VarDef Rat where
  name := "wall_r"
  distribution := some .uniform
  params := { min := some 0, max := some 4 }

def plain : Campaign Rat where
  varList := [wallR]
  nSamples := 1
  prebuiltWorkflow := false
  hit := false
  baseline := none
  dpManager _ := none
  shard := .whole

def threeRows : List (Sample Rat) := rawSamples [wallR] ∅ [[1 / 2], [1 / 4], [3 / 4]]

theorem design_plain : plain.design noNumerics salibOne = .ok threeRows := rfl

/-- Each sample's KPIs, the second without the first's. -/
def kpisWith (second : String) : Dict String (Dict String (Scalar Rat)) :=
  ((Dict.set ∅ "0001" (Dict.set ∅ "eui" (.number 100))).set "0002"
    (Dict.set ∅ second (.number 120))).set "0003" (Dict.set ∅ "eui" (.number 90))

def wallRProblem : Problem Rat := ⟨["wall_r"], [(0, 4)]⟩

theorem ids_threeRows : threeRows.map Sample.sampleId = ["0001", "0002", "0003"] := by
  decide +kernel

theorem onDesign_plain : ∃ r, plain.indices noNumerics salibOne (kpisWith "eui") = .ok r ∧
    OnDesign salibOne (kpisWith "eui") wallRProblem threeRows r := by
  have hrows : ∀ row ∈ threeRows, HasNumber (kpisWith "eui") "eui" row.sampleId := by
    intro row hrow
    have hid := List.mem_map_of_mem (f := Sample.sampleId) hrow
    rw [ids_threeRows, List.mem_cons, List.mem_cons, List.mem_singleton] at hid
    rcases hid with hid | hid | hid
    · exact ⟨100, hid ▸ rfl⟩
    · exact ⟨120, hid ▸ rfl⟩
    · exact ⟨90, hid ▸ rfl⟩
  have hcomplete : Complete plain threeRows := fun p _ => ⟨fun _ => Nat.zero_le p, fun _ => rfl⟩
  refine ⟨_, rfl, ?_⟩
  exact (onDesign_iff design_plain).mpr (fun _ => ⟨hcomplete, Or.inl hrows⟩) wallRProblem _ rfl rfl

/-- With a second sample that has no `eui`, the output in the middle is a cost. -/
theorem mixed_kpis : ¬ ∀ problem r,
    buildSalibProblem (sobolBounds noNumerics) plain.varied = .ok problem →
    plain.indices noNumerics salibOne (kpisWith "cost") = .ok r →
    OnDesign salibOne (kpisWith "cost") problem threeRows r := by
  intro h
  have hindices : plain.indices noNumerics salibOne (kpisWith "cost") =
      .ok (report salibOne wallRProblem (kpisWith "cost")
        [⟨"0001", "eui", 100⟩, ⟨"0002", "cost", 120⟩, ⟨"0003", "eui", 90⟩]) := by
    rfl
  obtain ⟨kpi, outputs, _, hhanded, _, _⟩ := h wallRProblem _ rfl hindices
  have hkpi : ∀ reading ∈ [(⟨"0001", "eui", 100⟩ : Reading Rat), ⟨"0002", "cost", 120⟩,
      ⟨"0003", "eui", 90⟩], reading.kpi = kpi := by
    intro reading hm
    rw [show [(⟨"0001", "eui", 100⟩ : Reading Rat), ⟨"0002", "cost", 120⟩,
      ⟨"0003", "eui", 90⟩] = _ from hhanded] at hm
    obtain ⟨cell, _, rfl⟩ := List.mem_map.mp hm
    rfl
  have heui := hkpi _ List.mem_cons_self
  have hcost := hkpi _ (List.mem_cons_of_mem _ List.mem_cons_self)
  exact absurd (heui.trans hcost.symm) (by decide)

end OSimFlow.Algorithms.Sensitivity
