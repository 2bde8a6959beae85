import Mathlib
import OSimFlow.Json
import OSimFlow.Lib.Extended
import OSimFlow.Lib.Instances
import OSimFlow.Lib.Succeeds

/-!
# The results of the uncertainty quantification

After the KPIs are extracted `compute_uq_indices` summarises each of them: a distribution
with a histogram, a confidence interval, and the probability that a threshold is passed. It
reads the KPIs of the listed samples for the first two, and of all ids for the last.

> `OnePopulation`: for each KPI the three are about the numeric values of the listed
> samples, as a multiset, and the file that is written is strict JSON.

What goes wrong is written out in `Clean`: ids that are not listed, values that are no
numbers, and a single value, whose standard deviation is `nan` (`onePopulation_iff`).

Finite floats are exact. The square root and the quantile of the t distribution at the
confidence level, which lies between 0 and 1, are parameters.
-/

namespace OSimFlow.Algorithms.Uncertainty

open OSimFlow.Lib (Dict Extended mapM_eq_filterMap mapM_eq_some_iff mapM_ok_mem
  forall₂_of_mapM_ok exists_of_forall₂ mapM_ok_of_forall)

/-- A float; `none` is `nan`. -/
abbrev Flt (K : Type) := Option (Extended K)

abbrev Value (K : Type) := Json (Flt K)

/-- `math.sqrt`, and `scipy.stats.t.ppf((1 + confidence) / 2, df)`. -/
structure Numerics (K : Type) where
  sqrt : K → K
  tPpf : Nat → K

inductive UqError where
  | noKpiValues
  | noNumericKpis
  | valueError
  | typeError
deriving DecidableEq

section

variable {K : Type}

/-- A finite float. -/
def fin (x : K) : Flt K := some (.finite x)

def Flt.finite? : Flt K → Option K
  | some (.finite x) => some x
  | _ => none

variable [Field K] [LinearOrder K]

/-- `float(v)` where `isinstance(v, (int, float))`. -/
def number : Value K → Option (Flt K)
  | .bool b => some (fin (if b then 1 else 0))
  | .int n => some (fin (n : K))
  | .float x => some x
  | _ => none

/-- `v > t` and `v < t`; a `nan` compares with nothing. -/
def Flt.lt : Flt K → Flt K → Bool
  | some v, some t => decide (v < t)
  | _, _ => false

/-! ## The statistics -/

/-- `np.sort(values)`. -/
def npSort (values : List K) : List K := values.insertionSort (· ≤ ·)

/-- `np.mean(values)`. -/
def npMean (values : List K) : K := values.sum / values.length

/-- `np.std(values, ddof=1)`; for a single value `0 / 0`. -/
def npStd (num : Numerics K) (values : List K) : Flt K :=
  if values.length < 2 then none
  else fin (num.sqrt
    ((values.map fun v => (v - npMean values) ^ 2).sum / ((values.length : K) - 1)))

def npMin (values : List K) : K := (npSort values).headD 0

def npMax (values : List K) : K := (npSort values).getLastD 0

attribute [local instance] Lib.atLeastTwo_two in
/-- `np.median(values)`. -/
def npMedian (values : List K) : K :=
  let a := npSort values
  let n := values.length
  if n % 2 = 1 then a.getD (n / 2) 0 else (a.getD (n / 2 - 1) 0 + a.getD (n / 2) 0) / 2

variable [FloorRing K]

attribute [local instance] Lib.atLeastTwo_hundred in
/-- `np.percentile(values, p)`: linear between the neighbours. -/
def npPercentile (values : List K) (p : Nat) : K :=
  let a := npSort values
  let h := ((values.length : K) - 1) * p / 100
  let low := ⌊h⌋.toNat
  let below := a.getD low 0
  below + (h - low) * (a.getD (min (low + 1) (values.length - 1)) 0 - below)

/-- A bin of the histogram. -/
structure Bin (K : Type) where
  binStart : K
  binEnd : K
  count : Nat

attribute [local instance] Lib.atLeastTwo_two in
/-- The outer edges of `np.histogram`; a range of no width is widened. -/
def outerEdges (values : List K) : K × K :=
  if npMin values = npMax values then (npMin values - 1 / 2, npMax values + 1 / 2)
  else (npMin values, npMax values)

/-- The bin of a value; the last one is closed. -/
def binIndex (edges : K × K) (nbins : Nat) (v : K) : Nat :=
  let i := ⌊(v - edges.1) / (edges.2 - edges.1) * nbins⌋.toNat
  if i = nbins then i - 1 else i

def edge (edges : K × K) (nbins i : Nat) : K :=
  edges.1 + i * ((edges.2 - edges.1) / nbins)

/-- `np.histogram(values, bins=nbins)`. -/
def npHistogram (values : List K) (nbins : Nat) : List (Bin K) :=
  (List.range nbins).map fun i =>
    { binStart := edge (outerEdges values) nbins i
      binEnd := edge (outerEdges values) nbins (i + 1)
      count := values.countP fun v => decide (binIndex (outerEdges values) nbins v = i) }

/-! ## The results of a KPI -/

structure Distribution (K : Type) where
  mean : K
  std : Flt K
  median : K
  min : K
  max : K
  n : Nat
  percentiles : List (String × K)
  histogram : List (Bin K)

/-- `_compute_distribution_summary`. -/
def distributionSummary (num : Numerics K) (values : List K) : Distribution K where
  mean := npMean values
  std := npStd num values
  median := npMedian values
  min := npMin values
  max := npMax values
  n := values.length
  percentiles := [5, 10, 25, 50, 75, 90, 95].map fun p =>
    ("p" ++ toString p, npPercentile values p)
  histogram := npHistogram values (Nat.min 20 (Nat.max 5 (Nat.sqrt values.length)))

/-- A confidence interval; that of a single value has no `std` and no `n`. -/
structure Interval (K : Type) where
  mean : K
  ciLower : K
  ciUpper : K
  spread : Option (Flt K × Nat)

/-- `_compute_confidence_interval`. -/
def confidenceInterval (num : Numerics K) (values : List K) : Interval K :=
  let n := values.length
  if n < 2 then
    { mean := npMean values
      ciLower := values.getD 0 0
      ciUpper := values.getD 0 0
      spread := none }
  else
    let mean := npMean values
    let se := ((npStd num values).finite?.getD 0) / num.sqrt n
    let tCrit := num.tPpf (n - 1)
    { mean := mean
      ciLower := mean - tCrit * se
      ciUpper := mean + tCrit * se
      spread := some (npStd num values, n) }

structure Pof (K : Type) where
  pof : K
  threshold : Flt K
  direction : String
  kpiName : String
  nFailed : Nat
  nTotal : Nat
deriving DecidableEq

/-- A value beyond the threshold. -/
def beyond (threshold : Flt K) (direction : String) (v : Flt K) : Bool :=
  if direction = "greater" then threshold.lt v else v.lt threshold

/-- `_compute_pof`; an array with a value that is no number cannot be compared. -/
def computePof (kpiValues : List (Value K)) (kpiName : String) (threshold : Flt K)
    (direction : String) : Except UqError (Pof K) :=
  match kpiValues.mapM number with
  | none => .error .typeError
  | some values =>
    let nTotal := values.length
    let nFailed := values.countP (beyond threshold direction)
    .ok { pof := (nFailed : K) / (nTotal : K), threshold, direction, kpiName, nFailed, nTotal }

/-! ## All KPIs -/

/-- `kpi_values`: ids to KPI names to values. -/
abbrev KpiValues (K : Type) := Dict String (Dict String (Value K))

structure KpiResult (K : Type) where
  distribution : Distribution K
  interval : Interval K
  pof : Option (Pof K)

/-- `kpi_values.get(sid, {}).get(kpi_name)`. -/
def reading (kpiValues : KpiValues K) (kpiName sid : String) : Option (Value K) :=
  (kpiValues.get? sid).bind (·.get? kpiName)

/-- `values_list`. -/
def valuesList (samples : List String) (kpiValues : KpiValues K) (kpiName : String) :
    List (Flt K) :=
  samples.filterMap fun sid => (reading kpiValues kpiName sid).bind number

/-- The values that `_compute_pof` is handed. -/
def pofValues (kpiValues : KpiValues K) (kpiName : String) : List (Value K) :=
  kpiValues.items.filterMap fun item => item.2.get? kpiName

/-- The turn of the loop for `kpi_name`; `np.histogram` refuses a range that is not finite. -/
def analyseKpi (num : Numerics K) (samples : List String) (kpiValues : KpiValues K)
    (failureThresholds : Dict String (Flt K × String)) (kpiName : String) :
    Except UqError (Option (KpiResult K)) :=
  if (valuesList samples kpiValues kpiName).isEmpty then .ok none
  else
    match (valuesList samples kpiValues kpiName).mapM Flt.finite? with
    | none => .error .valueError
    | some values =>
      match failureThresholds.get? kpiName with
      | none => .ok (some
          { distribution := distributionSummary num values
            interval := confidenceInterval num values
            pof := none })
      | some (threshold, direction) =>
        match computePof (pofValues kpiValues kpiName) kpiName threshold direction with
        | .error e => .error e
        | .ok pof => .ok (some
            { distribution := distributionSummary num values
              interval := confidenceInterval num values
              pof := some pof })

/-- `sorted(all_kpi_names)`. -/
def kpiNames (kpiValues : KpiValues K) : List String :=
  (kpiValues.values.flatMap Dict.keys).dedup.insertionSort (· ≤ ·)

/-- What is written; the results of a KPI stand under its name in three objects. -/
structure Results (K : Type) where
  confidenceLevel : K
  nSamples : Nat
  kpis : List (String × KpiResult K)

/-- `compute_uq_indices`. -/
def computeUqIndices (num : Numerics K) (confidence : K) (samples : List String)
    (kpiValues : KpiValues K) (failureThresholds : Dict String (Flt K × String)) :
    Except UqError (Results K) :=
  if kpiValues.items.isEmpty then .error .noKpiValues
  else if (kpiNames kpiValues).isEmpty then .error .noNumericKpis
  else
    match (kpiNames kpiValues).mapM fun name =>
        (analyseKpi num samples kpiValues failureThresholds name).map fun r => (name, r) with
    | .error e => .error e
    | .ok results => .ok
        { confidenceLevel := confidence
          nSamples := samples.length
          kpis := results.filterMap fun entry => entry.2.map fun r => (entry.1, r) }

/-! ## The file -/

def Bin.toJson (b : Bin K) : Value K :=
  .obj [("bin_start", .float (fin b.binStart)), ("bin_end", .float (fin b.binEnd)),
    ("count", .int b.count)]

def Distribution.toJson (d : Distribution K) : Value K :=
  .obj [("mean", .float (fin d.mean)), ("std", .float d.std),
    ("median", .float (fin d.median)), ("min", .float (fin d.min)),
    ("max", .float (fin d.max)), ("n", .int d.n),
    ("percentiles", .obj (d.percentiles.map fun p => (p.1, .float (fin p.2)))),
    ("histogram", .arr (d.histogram.map Bin.toJson))]

def Interval.toJson (c : Interval K) : Value K :=
  .obj ([("mean", .float (fin c.mean)), ("ci_lower", .float (fin c.ciLower)),
    ("ci_upper", .float (fin c.ciUpper))] ++
    match c.spread with
    | none => []
    | some (std, n) => [("std", .float std), ("n", .int n)])

def Pof.toJson (p : Pof K) : Value K :=
  .obj [("pof", .float (fin p.pof)), ("threshold", .float p.threshold),
    ("direction", .str p.direction), ("kpi_name", .str p.kpiName),
    ("n_failed", .int p.nFailed), ("n_total", .int p.nTotal)]

def Results.pofs (r : Results K) : List (String × Pof K) :=
  r.kpis.filterMap fun k => k.2.pof.map fun p => (k.1, p)

/-- `output`. -/
def Results.toJson (r : Results K) : Value K :=
  .obj ([("algorithm", .str "uq"), ("confidence_level", .float (fin r.confidenceLevel)),
    ("n_samples", .int r.nSamples),
    ("distributions", .obj (r.kpis.map fun k => (k.1, k.2.distribution.toJson))),
    ("confidence_intervals", .obj (r.kpis.map fun k => (k.1, k.2.interval.toJson)))] ++
    if r.pofs.isEmpty then []
    else [("probability_of_failure", .obj (r.pofs.map fun p => (p.1, p.2.toJson)))])

/-- `json.dumps` writes `NaN` and `Infinity` for what strict JSON has no word for. -/
def Strict (v : Value K) : Prop := ∀ x ∈ v.floats, ∃ k, x = fin k

/-! ## One population -/

/-- The results of a KPI are about the population `M`, in whatever order it is read. -/
structure About (num : Numerics K) (M : Multiset K) (kpiName : String)
    (threshold : Option (Flt K × String)) (r : KpiResult K) : Prop where
  distribution : ∀ values : List K, (values : Multiset K) = M →
    r.distribution = distributionSummary num values
  interval : ∀ values : List K, (values : Multiset K) = M →
    r.interval = confidenceInterval num values
  histogram : (r.distribution.histogram.map Bin.count).sum = M.card
  pof : r.pof = threshold.map fun t =>
    let failed := M.countP fun v => beyond t.1 t.2 (fin v) = true
    { pof := (failed : K) / (M.card : K), threshold := t.1, direction := t.2, kpiName,
      nFailed := failed, nTotal := M.card }

/-- All is computed over the numeric values of the listed samples; there is nothing to
compute where no id has a KPI. -/
def OnePopulation (num : Numerics K) (confidence : K) (samples : List String)
    (kpiValues : KpiValues K) (failureThresholds : Dict String (Flt K × String)) : Prop :=
  kpiNames kpiValues = [] ∨
    ∃ results, computeUqIndices num confidence samples kpiValues failureThresholds =
        .ok results ∧
      (∀ kpiName, valuesList samples kpiValues kpiName ≠ [] → ∃ r M,
        (kpiName, r) ∈ results.kpis ∧
        (valuesList samples kpiValues kpiName : Multiset (Flt K)) = M.map fin ∧
        About num M kpiName (failureThresholds.get? kpiName) r) ∧
      Strict results.toJson

/-! ## When it holds -/

/-- The numbers that ids have which are not listed. -/
def unlisted (samples : List String) (kpiValues : KpiValues K) (kpiName : String) :
    List (Flt K) :=
  (kpiValues.items.filter fun item => !samples.contains item.1).filterMap fun item =>
    (item.2.get? kpiName).bind number

/-- The numbers that are read again because an id is listed again. -/
def repeated (samples : List String) (kpiValues : KpiValues K) (kpiName : String) :
    List (Flt K) :=
  (samples.diff samples.dedup).filterMap fun sid => (reading kpiValues kpiName sid).bind number

/-- A KPI with at least two numbers, all finite; and if it has a threshold, that is finite,
no id has anything but a number, and ids that are not listed have as many numbers, and as
many beyond the threshold, as are read more than once. -/
structure Clean (samples : List String) (kpiValues : KpiValues K)
    (failureThresholds : Dict String (Flt K × String)) (kpiName : String) : Prop where
  finite : ∀ x ∈ valuesList samples kpiValues kpiName, ∃ k, x = fin k
  two : 2 ≤ (valuesList samples kpiValues kpiName).length
  threshold : ∀ t direction, failureThresholds.get? kpiName = some (t, direction) →
    (∃ k, t = fin k) ∧ (∀ v ∈ pofValues kpiValues kpiName, (number v).isSome) ∧
    (unlisted samples kpiValues kpiName).length =
      (repeated samples kpiValues kpiName).length ∧
    (unlisted samples kpiValues kpiName).countP (beyond t direction) =
      (repeated samples kpiValues kpiName).countP (beyond t direction)

end

/-! ## Statistics of a multiset -/

section

variable {K : Type} [Field K] [LinearOrder K]

omit [Field K] in
theorem npSort_perm {a b : List K} (h : a.Perm b) : npSort a = npSort b :=
  ((List.perm_insertionSort _ a).trans (h.trans (List.perm_insertionSort _ b).symm)).eq_of_pairwise'
    (List.pairwise_insertionSort _ a) (List.pairwise_insertionSort _ b)

omit [LinearOrder K] in
theorem npMean_perm {a b : List K} (h : a.Perm b) : npMean a = npMean b := by
  unfold npMean
  rw [h.sum_eq, h.length_eq]

omit [LinearOrder K] in
theorem npStd_perm (num : Numerics K) {a b : List K} (h : a.Perm b) :
    npStd num a = npStd num b := by
  unfold npStd
  rw [h.length_eq, npMean_perm h, (h.map _).sum_eq]

theorem outerEdges_perm {a b : List K} (h : a.Perm b) : outerEdges a = outerEdges b := by
  unfold outerEdges npMin npMax
  rw [npSort_perm h]

omit [LinearOrder K] in
theorem confidenceInterval_perm (num : Numerics K) {a b : List K} (h : a.Perm b) :
    confidenceInterval num a = confidenceInterval num b := by
  by_cases hlen : a.length < 2
  · -- a list of at most one element has one order
    have heq : a = b := by
      match a, h, hlen with
      | [], h, _ => exact h.nil_eq
      | [x], h, _ => exact (List.perm_singleton.mp h.symm).symm
    rw [heq]
  · unfold confidenceInterval
    rw [if_neg hlen, if_neg (h.length_eq ▸ hlen), npStd_perm num h, npMean_perm h, h.length_eq]

variable [FloorRing K]

theorem npHistogram_perm {a b : List K} (h : a.Perm b) (nbins : Nat) :
    npHistogram a nbins = npHistogram b nbins := by
  unfold npHistogram
  rw [outerEdges_perm h]
  refine List.map_congr_left fun i _ => ?_
  rw [h.countP_eq]

theorem distributionSummary_perm (num : Numerics K) {a b : List K} (h : a.Perm b) :
    distributionSummary num a = distributionSummary num b := by
  have hpercentile (p : Nat) : npPercentile a p = npPercentile b p := by
    unfold npPercentile
    rw [npSort_perm h, h.length_eq]
  unfold distributionSummary npMedian npMin npMax
  rw [npMean_perm h, npStd_perm num h, npSort_perm h, h.length_eq, npHistogram_perm h]
  simp only [hpercentile]

/-! ## The bins -/

variable [IsStrictOrderedRing K]

omit [FloorRing K] [IsStrictOrderedRing K] in
theorem npMin_le {values : List K} {v : K} (h : v ∈ values) : npMin values ≤ v := by
  have hmem : v ∈ npSort values := (List.mem_insertionSort _).mpr h
  have hrel := (List.pairwise_insertionSort (· ≤ ·) values).rel_head hmem
  rw [npMin, List.headD_eq_head?_getD, List.head?_eq_some_head (List.ne_nil_of_mem hmem)]
  exact hrel

omit [FloorRing K] [IsStrictOrderedRing K] in
theorem le_npMax {values : List K} {v : K} (h : v ∈ values) : v ≤ npMax values := by
  have hmem : v ∈ npSort values := (List.mem_insertionSort _).mpr h
  have hrel := (List.pairwise_insertionSort (· ≤ ·) values).rel_getLast hmem
  rw [npMax, List.getLastD_eq_getLast?, List.getLast?_eq_some_getLast (List.ne_nil_of_mem hmem)]
  exact hrel

omit [FloorRing K] in
theorem outerEdges_spec {values : List K} {v : K} (h : v ∈ values) :
    (outerEdges values).1 < (outerEdges values).2 ∧ (outerEdges values).1 ≤ v ∧
      v ≤ (outerEdges values).2 := by
  have hmin := npMin_le h
  have hmax := le_npMax h
  have hhalf : (0 : K) < 1 / 2 := one_half_pos
  unfold outerEdges
  split
  next heq =>
    dsimp only
    exact ⟨by linarith, by linarith, by linarith⟩
  next hne =>
    exact ⟨lt_of_le_of_ne (hmin.trans hmax) hne, hmin, hmax⟩

theorem binIndex_lt {edges : K × K} {v : K} (hlt : edges.1 < edges.2) (hlow : edges.1 ≤ v)
    (hhigh : v ≤ edges.2) {nbins : Nat} (hpos : 0 < nbins) : binIndex edges nbins v < nbins := by
  have hwidth : 0 < edges.2 - edges.1 := sub_pos.mpr hlt
  have hone : (v - edges.1) / (edges.2 - edges.1) ≤ 1 :=
    (div_le_one hwidth).mpr (sub_le_sub_right hhigh _)
  have hzero : 0 ≤ (v - edges.1) / (edges.2 - edges.1) :=
    div_nonneg (sub_nonneg.mpr hlow) (le_of_lt hwidth)
  have hle : (v - edges.1) / (edges.2 - edges.1) * nbins ≤ ((nbins : Int) : K) := by
    rw [Int.cast_natCast]
    exact mul_le_of_le_one_left (Nat.cast_nonneg nbins) hone
  have hfloor : ⌊(v - edges.1) / (edges.2 - edges.1) * (nbins : K)⌋ ≤ nbins :=
    Int.cast_le.mp ((Int.floor_le _).trans hle)
  unfold binIndex
  dsimp only
  split <;> omega

theorem sum_indicator_range (k : Nat) :
    ∀ n : Nat, ((List.range n).map fun i => if k = i then 1 else 0).sum =
      if k < n then 1 else 0 := by
  intro n
  induction n with
  | zero => rfl
  | succ n ih =>
    rw [List.range_succ, List.map_append, List.sum_append, ih]
    show (if k < n then 1 else 0) + ((if k = n then 1 else 0) + 0) = _
    split_ifs <;> omega

omit [Field K] [LinearOrder K] [FloorRing K] [IsStrictOrderedRing K] in
/-- Counting by a number below `nbins` counts everything once. -/
theorem sum_countP_eq_length (index : K → Nat) (nbins : Nat) :
    ∀ values : List K, (∀ v ∈ values, index v < nbins) →
      ((List.range nbins).map fun i => values.countP fun v => decide (index v = i)).sum =
        values.length := by
  intro values
  induction values with
  | nil =>
    intro _
    simp
  | cons v values ih =>
    intro h
    have hrest := ih fun w hw => h w (List.mem_cons_of_mem v hw)
    have hone := sum_indicator_range (index v) nbins
    rw [if_pos (h v List.mem_cons_self)] at hone
    simp only [List.countP_cons, decide_eq_true_eq, List.sum_map_add]
    rw [hrest, hone, List.length_cons]

/-- The histogram counts every value once. -/
theorem sum_histogram (num : Numerics K) (values : List K) :
    ((distributionSummary num values).histogram.map Bin.count).sum = values.length := by
  show ((npHistogram values (Nat.min 20 (Nat.max 5 (Nat.sqrt values.length)))).map
    Bin.count).sum = _
  unfold npHistogram
  rw [List.map_map]
  refine sum_countP_eq_length _ _ values fun v hv => ?_
  obtain ⟨hlt, hlow, hhigh⟩ := outerEdges_spec hv
  refine binIndex_lt hlt hlow hhigh ?_
  exact Nat.lt_of_lt_of_le (by decide : 0 < 5)
    (Nat.le_min.mpr ⟨by decide, Nat.le_max_left _ _⟩)

end

/-! ## Reading the values -/

section

variable {K : Type}

theorem fin_injective : Function.Injective (fin : K → Flt K) := by
  intro a b h
  exact Extended.finite.inj (Option.some.inj h)

theorem finite?_eq_some_iff {x : Flt K} {k : K} : x.finite? = some k ↔ x = fin k := by
  match x with
  | some (.finite y) =>
    exact ⟨fun h => congrArg fin (Option.some.inj h), fun h => congrArg some (fin_injective h)⟩
  | some .posInf => exact iff_of_false (fun h => nomatch h) (fun h => nomatch h)
  | some .negInf => exact iff_of_false (fun h => nomatch h) (fun h => nomatch h)
  | none => exact iff_of_false (fun h => nomatch h) (fun h => nomatch h)

theorem mapM_finite?_iff {l : List (Flt K)} {values : List K} :
    l.mapM Flt.finite? = some values ↔ l = values.map fin := by
  rw [mapM_eq_some_iff]
  induction l generalizing values with
  | nil =>
    cases values with
    | nil => exact iff_of_true rfl rfl
    | cons v values => exact iff_of_false (fun h => nomatch h) (fun h => nomatch h)
  | cons x l ih =>
    cases values with
    | nil => exact iff_of_false (fun h => nomatch h) (fun h => nomatch h)
    | cons v values =>
      rw [List.map_cons, List.map_cons, List.map_cons, List.cons.injEq, List.cons.injEq, ih,
        finite?_eq_some_iff]

theorem exists_map_fin {l : List (Flt K)} (h : ∀ x ∈ l, ∃ k, x = fin k) :
    ∃ values : List K, l = values.map fin := by
  induction l with
  | nil => exact ⟨[], rfl⟩
  | cons x l ih =>
    obtain ⟨k, hk⟩ := h x List.mem_cons_self
    obtain ⟨values, hvalues⟩ := ih fun y hy => h y (List.mem_cons_of_mem x hy)
    exact ⟨k :: values, by rw [hk, hvalues, List.map_cons]⟩

variable [Field K] [LinearOrder K] [FloorRing K]

/-- What the loop has for a KPI whose values are `values`. -/
theorem analyseKpi_ok {num : Numerics K} {samples : List String} {kpiValues : KpiValues K}
    {failureThresholds : Dict String (Flt K × String)} {kpiName : String}
    {r : KpiResult K}
    (h : analyseKpi num samples kpiValues failureThresholds kpiName = .ok (some r)) :
    ∃ values : List K, values ≠ [] ∧ valuesList samples kpiValues kpiName = values.map fin ∧
      r.distribution = distributionSummary num values ∧
      r.interval = confidenceInterval num values ∧
      match failureThresholds.get? kpiName with
      | none => r.pof = none
      | some t => ∃ p, r.pof = some p ∧
          computePof (pofValues kpiValues kpiName) kpiName t.1 t.2 = .ok p := by
  unfold analyseKpi at h
  split at h
  next => cases h
  next hne =>
    split at h
    next => cases h
    next values hvalues =>
      have hmap := mapM_finite?_iff.mp hvalues
      have hvalues_ne : values ≠ [] := by
        intro hnil
        rw [hmap, hnil] at hne
        exact hne rfl
      refine ⟨values, hvalues_ne, hmap, ?_⟩
      split at h
      next hnone =>
        rw [hnone]
        obtain rfl := Option.some.inj (Except.ok.inj h)
        exact ⟨rfl, rfl, rfl⟩
      next threshold direction hsome =>
        rw [hsome]
        split at h
        next => cases h
        next pof hpof =>
          obtain rfl := Option.some.inj (Except.ok.inj h)
          exact ⟨rfl, rfl, pof, rfl, hpof⟩

theorem analyseKpi_of_nil {num : Numerics K} {samples : List String}
    {kpiValues : KpiValues K} {failureThresholds : Dict String (Flt K × String)}
    {kpiName : String} (h : valuesList samples kpiValues kpiName = []) :
    analyseKpi num samples kpiValues failureThresholds kpiName = .ok none := by
  unfold analyseKpi
  rw [h]
  rfl

omit [FloorRing K] in
theorem computePof_ok_iff {l : List (Value K)} {kpiName direction : String}
    {threshold : Flt K} {p : Pof K} :
    computePof l kpiName threshold direction = .ok p ↔
      (∀ v ∈ l, (number v).isSome) ∧
      p = { pof := ((l.filterMap number).countP (beyond threshold direction) : K) /
              ((l.filterMap number).length : K)
            threshold, direction, kpiName
            nFailed := (l.filterMap number).countP (beyond threshold direction)
            nTotal := (l.filterMap number).length } := by
  unfold computePof
  cases hl : l.mapM number with
  | none =>
    refine iff_of_false (fun h => nomatch h) fun ⟨hall, _⟩ => ?_
    exact nomatch hl.symm.trans (mapM_eq_filterMap.mpr ⟨hall, rfl⟩)
  | some values =>
    obtain ⟨hall, rfl⟩ := mapM_eq_filterMap.mp hl
    exact ⟨fun h => ⟨hall, (Except.ok.inj h).symm⟩, fun h => congrArg Except.ok h.2.symm⟩

/-! ## Two selections from one mapping -/

omit [LinearOrder K] [FloorRing K] in
/-- What the listed samples give and what all ids give, over what both have. -/
theorem selections_perm (samples : List String) (kpiValues : KpiValues K) (kpiName : String) :
    ∃ common : List (Flt K),
      (valuesList samples kpiValues kpiName).Perm
        (common ++ repeated samples kpiValues kpiName) ∧
      ((pofValues kpiValues kpiName).filterMap number).Perm
        (common ++ unlisted samples kpiValues kpiName) := by
  let read (sid : String) : Option (Flt K) := (reading kpiValues kpiName sid).bind number
  have hitem : ∀ item ∈ kpiValues.items, (item.2.get? kpiName).bind number = read item.1 := by
    intro item hmem
    show _ = ((kpiValues.get? item.1).bind (·.get? kpiName)).bind number
    rw [Dict.mem_items.mp hmem]
    rfl
  refine ⟨samples.dedup.filterMap read, ?_, ?_⟩
  · -- each listed id once, and then again
    have hsplit : samples.Perm (samples.dedup ++ samples.diff samples.dedup) := by
      refine (List.subperm_append_diff_self_of_count_le fun sid _ => ?_).symm
      exact (List.dedup_sublist samples).count_le sid
    have := hsplit.filterMap read
    rw [List.filterMap_append] at this
    exact this
  · have hall : (pofValues kpiValues kpiName).filterMap number =
        kpiValues.items.filterMap fun item => (item.2.get? kpiName).bind number :=
      List.filterMap_filterMap
    have hsplit := (List.filter_append_perm (fun item : String × Dict String (Value K) =>
      samples.contains item.1) kpiValues.items).symm.filterMap
        fun item => (item.2.get? kpiName).bind number
    rw [List.filterMap_append] at hsplit
    rw [hall]
    refine hsplit.trans (List.Perm.append ?_ (List.Perm.of_eq rfl))
    -- the listed ids that the mapping has
    have hkeys : ((kpiValues.items.filter fun item => samples.contains item.1).map
        Prod.fst).Perm (samples.dedup.filter fun sid => kpiValues.keys.contains sid) := by
      have hnodup : ((kpiValues.items.filter fun item =>
          samples.contains item.1).map Prod.fst).Nodup :=
        (List.filter_sublist.map Prod.fst).nodup kpiValues.nodup
      refine (List.perm_ext_iff_of_nodup hnodup ((List.nodup_dedup samples).filter _)).mpr ?_
      intro sid
      simp only [List.mem_map, List.mem_filter, List.mem_dedup, List.contains_iff_mem, Dict.keys]
      constructor
      · intro ⟨item, ⟨hmem, hlisted⟩, heq⟩
        exact ⟨heq ▸ hlisted, item, hmem, heq⟩
      · intro ⟨hlisted, item, hmem, heq⟩
        exact ⟨item, ⟨hmem, heq ▸ hlisted⟩, heq⟩
    have hleft : (kpiValues.items.filter fun item => samples.contains item.1).filterMap
        (fun item => (item.2.get? kpiName).bind number) =
        ((kpiValues.items.filter fun item => samples.contains item.1).map
          Prod.fst).filterMap read := by
      rw [List.filterMap_map]
      exact List.filterMap_congr fun item hmem => hitem item (List.mem_of_mem_filter hmem)
    have hright : samples.dedup.filterMap read =
        (samples.dedup.filter fun sid => kpiValues.keys.contains sid).filterMap read := by
      rw [List.filterMap_filter]
      refine List.filterMap_congr fun sid _ => ?_
      by_cases hkey : sid ∈ kpiValues.keys
      · rw [if_pos (List.contains_iff_mem.mpr hkey)]
      · rw [if_neg fun h => hkey (List.contains_iff_mem.mp h)]
        show ((kpiValues.get? sid).bind (·.get? kpiName)).bind number = none
        cases hget : kpiValues.get? sid with
        | none => rfl
        | some kpis => exact absurd (Dict.mem_keys_of_get? hget) hkey
    rw [hleft, hright]
    exact hkeys.filterMap read

omit [LinearOrder K] [FloorRing K] in
/-- The two selections count the same just when what only one of them has does. -/
theorem counts_eq_iff (samples : List String) (kpiValues : KpiValues K) (kpiName : String)
    (p : Flt K → Bool) :
    ((pofValues kpiValues kpiName).filterMap number).countP p =
        (valuesList samples kpiValues kpiName).countP p ↔
      (unlisted samples kpiValues kpiName).countP p =
        (repeated samples kpiValues kpiName).countP p := by
  obtain ⟨common, hlisted, hall⟩ := selections_perm samples kpiValues kpiName
  rw [hall.countP_eq, hlisted.countP_eq, List.countP_append, List.countP_append]
  omega

omit [LinearOrder K] [FloorRing K] in
theorem lengths_eq_iff (samples : List String) (kpiValues : KpiValues K) (kpiName : String) :
    ((pofValues kpiValues kpiName).filterMap number).length =
        (valuesList samples kpiValues kpiName).length ↔
      (unlisted samples kpiValues kpiName).length =
        (repeated samples kpiValues kpiName).length := by
  obtain ⟨common, hlisted, hall⟩ := selections_perm samples kpiValues kpiName
  rw [hall.length_eq, hlisted.length_eq, List.length_append, List.length_append]
  omega

/-! ## The results of one KPI -/

variable [IsStrictOrderedRing K]

/-- The probability of failure that is due. -/
def duePof (M : Multiset K) (kpiName : String) (t : Flt K × String) : Pof K :=
  let failed := M.countP fun v => beyond t.1 t.2 (fin v) = true
  { pof := (failed : K) / (M.card : K), threshold := t.1, direction := t.2, kpiName,
    nFailed := failed, nTotal := M.card }

omit [Field K] [FloorRing K] [IsStrictOrderedRing K] in
theorem countP_map_fin (values : List K) (t : Flt K × String) :
    (values.map fin).countP (beyond t.1 t.2) =
      (values : Multiset K).countP fun v => beyond t.1 t.2 (fin v) = true := by
  rw [Multiset.coe_countP, List.countP_map]
  refine List.countP_congr fun v _ => ?_
  simp

omit [FloorRing K] [IsStrictOrderedRing K] in
/-- `_compute_pof` gives it just when all are numbers and the selections agree. -/
theorem computePof_due_iff {samples : List String} {kpiValues : KpiValues K}
    {kpiName : String} {values : List K}
    (hvalues : valuesList samples kpiValues kpiName = values.map fin)
    (t : Flt K × String) :
    computePof (pofValues kpiValues kpiName) kpiName t.1 t.2 =
        .ok (duePof (values : Multiset K) kpiName t) ↔
      (∀ v ∈ pofValues kpiValues kpiName, (number v).isSome) ∧
      (unlisted samples kpiValues kpiName).length =
        (repeated samples kpiValues kpiName).length ∧
      (unlisted samples kpiValues kpiName).countP (beyond t.1 t.2) =
        (repeated samples kpiValues kpiName).countP (beyond t.1 t.2) := by
  rw [computePof_ok_iff, ← lengths_eq_iff, ← counts_eq_iff, hvalues, countP_map_fin,
    List.length_map]
  refine and_congr_right fun _ => ?_
  constructor
  · intro h
    exact ⟨(congrArg Pof.nTotal h).symm, (congrArg Pof.nFailed h).symm⟩
  · intro ⟨htotal, hfailed⟩
    rw [htotal, hfailed]
    rfl

theorem about_of_parts {num : Numerics K} {values : List K} {kpiName : String}
    {threshold : Option (Flt K × String)} {r : KpiResult K}
    (hdistribution : r.distribution = distributionSummary num values)
    (hinterval : r.interval = confidenceInterval num values)
    (hpof : r.pof = threshold.map (duePof (values : Multiset K) kpiName)) :
    About num (values : Multiset K) kpiName threshold r where
  distribution := fun other hother =>
    hdistribution.trans (distributionSummary_perm num (Multiset.coe_eq_coe.mp hother).symm)
  interval := fun other hother =>
    hinterval.trans (confidenceInterval_perm num (Multiset.coe_eq_coe.mp hother).symm)
  histogram := by
    rw [hdistribution, sum_histogram, Multiset.coe_card]
  pof := hpof

/-- A clean KPI has results, and they are about the listed values. -/
theorem analyseKpi_of_clean (num : Numerics K) {samples : List String}
    {kpiValues : KpiValues K} {failureThresholds : Dict String (Flt K × String)}
    {kpiName : String} (h : Clean samples kpiValues failureThresholds kpiName) :
    ∃ r, ∃ values : List K,
      analyseKpi num samples kpiValues failureThresholds kpiName = .ok (some r) ∧
      valuesList samples kpiValues kpiName = values.map fin ∧
      About num (values : Multiset K) kpiName (failureThresholds.get? kpiName) r := by
  obtain ⟨values, hvalues⟩ := exists_map_fin h.finite
  have hne : (valuesList samples kpiValues kpiName).isEmpty = false := by
    have := h.two
    cases hl : valuesList samples kpiValues kpiName with
    | nil =>
      rw [hl, List.length_nil] at this
      omega
    | cons => rfl
  unfold analyseKpi
  rw [hne, mapM_finite?_iff.mpr hvalues]
  dsimp only
  cases ht : failureThresholds.get? kpiName with
  | none => exact ⟨_, values, rfl, hvalues, about_of_parts rfl rfl rfl⟩
  | some t =>
    obtain ⟨_, hnumbers, hlengths, hcounts⟩ := h.threshold t.1 t.2 ht
    have hpof := (computePof_due_iff hvalues t).mpr ⟨hnumbers, hlengths, hcounts⟩
    dsimp only
    rw [hpof]
    exact ⟨_, values, rfl, hvalues, about_of_parts rfl rfl rfl⟩

/-! ## Strict JSON -/

section

variable {K : Type}

@[simp] theorem strict_float {x : Flt K} : Strict (.float x) ↔ ∃ k, x = fin k := by
  simp [Strict, Json.floats]

theorem exists_fin (k : K) : ∃ x, fin k = fin x := ⟨k, rfl⟩

@[simp] theorem strict_int (n : Int) : Strict (.int n : Value K) := by
  simp [Strict, Json.floats]

@[simp] theorem strict_str (s : String) : Strict (.str s : Value K) := by
  simp [Strict, Json.floats]

theorem strict_obj {items : List (String × Value K)} :
    Strict (.obj items) ↔ ∀ item ∈ items, Strict item.2 := by
  simp only [Strict, Json.floats, Json.mem_floatsFields]
  exact ⟨fun h item hitem x hx => h x ⟨item, hitem, hx⟩,
    fun h x ⟨item, hitem, hx⟩ => h item hitem x hx⟩

theorem strict_arr {items : List (Value K)} :
    Strict (.arr items) ↔ ∀ item ∈ items, Strict item := by
  simp only [Strict, Json.floats, Json.mem_floatsItems]
  exact ⟨fun h item hitem x hx => h x ⟨item, hitem, hx⟩,
    fun h x ⟨item, hitem, hx⟩ => h item hitem x hx⟩

@[simp] theorem strict_nil : Strict (.obj [] : Value K) :=
  strict_obj.mpr fun _ h => nomatch h

@[simp] theorem strict_cons {name : String} {v : Value K} {items : List (String × Value K)} :
    Strict (.obj ((name, v) :: items)) ↔ Strict v ∧ Strict (.obj items) := by
  simp only [strict_obj, List.forall_mem_cons]

@[simp] theorem strict_append {a b : List (String × Value K)} :
    Strict (.obj (a ++ b)) ↔ Strict (.obj a) ∧ Strict (.obj b) := by
  simp only [strict_obj, List.forall_mem_append]

@[simp] theorem strict_map {α : Type} {l : List α} {f : α → String × Value K} :
    Strict (.obj (l.map f)) ↔ ∀ a ∈ l, Strict (f a).2 := by
  simp only [strict_obj, List.forall_mem_map]

@[simp] theorem strict_arr_map {α : Type} {l : List α} {f : α → Value K} :
    Strict (.arr (l.map f)) ↔ ∀ a ∈ l, Strict (f a) := by
  simp only [strict_arr, List.forall_mem_map]

/-- Only the standard deviation of a distribution can be out. -/
theorem strict_distribution {d : Distribution K} : Strict d.toJson ↔ ∃ k, d.std = fin k := by
  simp [Distribution.toJson, Bin.toJson]

theorem strict_interval {c : Interval K} :
    Strict c.toJson ↔ ∀ std n, c.spread = some (std, n) → ∃ k, std = fin k := by
  unfold Interval.toJson
  cases c.spread with
  | none => simp
  | some spread =>
    obtain ⟨std, n⟩ := spread
    simp

theorem strict_pof {p : Pof K} : Strict p.toJson ↔ ∃ k, p.threshold = fin k := by
  simp [Pof.toJson]

theorem strict_results {r : Results K} :
    Strict r.toJson ↔ ∀ entry ∈ r.kpis, Strict entry.2.distribution.toJson ∧
      Strict entry.2.interval.toJson ∧ ∀ p, entry.2.pof = some p → Strict p.toJson := by
  have hpofs : Strict (.obj (if r.pofs.isEmpty then []
      else [("probability_of_failure", .obj (r.pofs.map fun p => (p.1, p.2.toJson)))]) :
        Value K) ↔ ∀ entry ∈ r.kpis, ∀ p, entry.2.pof = some p → Strict p.toJson := by
    have hmem : (∀ entry ∈ r.pofs, Strict entry.2.toJson) ↔
        ∀ entry ∈ r.kpis, ∀ p, entry.2.pof = some p → Strict p.toJson := by
      simp only [Results.pofs, List.mem_filterMap, Option.map_eq_some_iff]
      exact ⟨fun h entry hentry p hp => h (entry.1, p) ⟨entry, hentry, p, hp, rfl⟩,
        fun h _ ⟨entry, hentry, p, hp, heq⟩ => heq ▸ h entry hentry p hp⟩
    rw [← hmem]
    split
    next hempty =>
      refine iff_of_true strict_nil fun entry hentry => ?_
      rw [List.isEmpty_iff.mp hempty] at hentry
      exact nomatch hentry
    next => simp
  unfold Results.toJson
  rw [strict_append, hpofs]
  simp only [strict_cons, strict_str, strict_int, strict_float, strict_map, strict_nil,
    exists_fin, true_and, and_true]
  exact ⟨fun h entry hentry => ⟨h.1.1 entry hentry, h.1.2 entry hentry, h.2 entry hentry⟩,
    fun h => ⟨⟨fun entry hentry => (h entry hentry).1, fun entry hentry =>
      (h entry hentry).2.1⟩, fun entry hentry => (h entry hentry).2.2⟩⟩

end

/-! ## All KPIs -/

omit [LinearOrder K] [FloorRing K] [IsStrictOrderedRing K] in
theorem mem_kpiNames_of_valuesList {samples : List String} {kpiValues : KpiValues K}
    {kpiName : String} (h : valuesList samples kpiValues kpiName ≠ []) :
    kpiName ∈ kpiNames kpiValues := by
  obtain ⟨x, hx⟩ := List.exists_mem_of_ne_nil _ h
  obtain ⟨sid, _, hsid⟩ := List.mem_filterMap.mp hx
  obtain ⟨v, hv, _⟩ := Option.bind_eq_some_iff.mp hsid
  obtain ⟨kpis, hkpis, hget⟩ := Option.bind_eq_some_iff.mp hv
  have hname : kpiName ∈ kpiValues.values.flatMap Dict.keys :=
    List.mem_flatMap.mpr ⟨kpis, Dict.mem_values_iff.mpr ⟨sid, hkpis⟩, Dict.mem_keys_of_get? hget⟩
  exact (List.mem_insertionSort _).mpr (List.mem_dedup.mpr hname)

omit [Field K] [LinearOrder K] [FloorRing K] [IsStrictOrderedRing K] in
theorem items_ne_nil {kpiValues : KpiValues K} (h : kpiNames kpiValues ≠ []) :
    kpiValues.items.isEmpty = false := by
  cases hitems : kpiValues.items with
  | nil =>
    have hvalues : kpiValues.values = [] := by rw [Dict.values, hitems, List.map_nil]
    exact absurd (by rw [kpiNames, hvalues]; rfl) h
  | cons => rfl

omit [IsStrictOrderedRing K] in
/-- The loop over the names. -/
theorem computeUqIndices_eq (num : Numerics K) (confidence : K) (samples : List String)
    {kpiValues : KpiValues K} (failureThresholds : Dict String (Flt K × String))
    (hnames : kpiNames kpiValues ≠ []) :
    computeUqIndices num confidence samples kpiValues failureThresholds =
      match (kpiNames kpiValues).mapM fun name =>
        (analyseKpi num samples kpiValues failureThresholds name).map fun r => (name, r) with
      | .error e => .error e
      | .ok results => .ok
          { confidenceLevel := confidence
            nSamples := samples.length
            kpis := results.filterMap fun entry => entry.2.map fun r => (entry.1, r) } := by
  unfold computeUqIndices
  rw [items_ne_nil hnames, List.isEmpty_eq_false_iff.mpr hnames]
  rfl

omit [IsStrictOrderedRing K] in
/-- The results that are written are those of the loop. -/
theorem mem_kpis_iff {num : Numerics K} {confidence : K} {samples : List String}
    {kpiValues : KpiValues K} {failureThresholds : Dict String (Flt K × String)}
    {results : Results K} (hnames : kpiNames kpiValues ≠ [])
    (h : computeUqIndices num confidence samples kpiValues failureThresholds = .ok results)
    (kpiName : String) (r : KpiResult K) :
    (kpiName, r) ∈ results.kpis ↔ kpiName ∈ kpiNames kpiValues ∧
      analyseKpi num samples kpiValues failureThresholds kpiName = .ok (some r) := by
  rw [computeUqIndices_eq num confidence samples failureThresholds hnames] at h
  split at h
  next => exact nomatch h
  next entries hentries =>
    obtain rfl := Except.ok.inj h
    have hstep := forall₂_of_mapM_ok hentries
    simp only [List.mem_filterMap, Option.map_eq_some_iff, Prod.mk.injEq]
    constructor
    · intro ⟨entry, hentry, r', hr', hname, hrr⟩
      obtain ⟨name, hmem, hrun⟩ := mapM_ok_mem hentries entry hentry
      cases ho : analyseKpi num samples kpiValues failureThresholds name with
      | error e =>
        rw [ho] at hrun
        exact nomatch hrun
      | ok o =>
        rw [ho] at hrun
        obtain rfl := Except.ok.inj hrun
        obtain rfl : o = some r := hr'.trans (congrArg some hrr)
        obtain rfl : name = kpiName := hname
        exact ⟨hmem, ho⟩
    · intro ⟨hmem, hrun⟩
      obtain ⟨entry, hentry, heq⟩ := exists_of_forall₂ hstep kpiName hmem
      rw [hrun] at heq
      obtain rfl := Except.ok.inj heq
      exact ⟨_, hentry, r, rfl, rfl, rfl⟩

omit [LinearOrder K] [FloorRing K] [IsStrictOrderedRing K] in
theorem npStd_fin_iff {num : Numerics K} {values : List K} :
    (∃ k, npStd num values = fin k) ↔ 2 ≤ values.length := by
  unfold npStd
  split
  next h => exact iff_of_false (fun ⟨_, hk⟩ => nomatch hk) (by omega)
  next h => exact iff_of_true ⟨_, rfl⟩ (by omega)

omit [IsStrictOrderedRing K] in
/-- The standard deviation is out for a single value, in both places. -/
theorem strict_analysed {num : Numerics K} {values : List K} {r : KpiResult K}
    (hdistribution : r.distribution = distributionSummary num values)
    (hinterval : r.interval = confidenceInterval num values) :
    Strict r.distribution.toJson ∧ Strict r.interval.toJson ↔ 2 ≤ values.length := by
  rw [strict_distribution, strict_interval, hdistribution, hinterval]
  show (∃ k, npStd num values = fin k) ∧ _ ↔ _
  rw [npStd_fin_iff]
  refine and_iff_left_of_imp fun htwo std n hspread => ?_
  unfold confidenceInterval at hspread
  rw [if_neg (by omega)] at hspread
  obtain ⟨rfl, _⟩ := Prod.mk.inj (Option.some.inj hspread)
  exact npStd_fin_iff.mpr htwo

omit [IsStrictOrderedRing K] in
/-- Results that are about the listed values, and can be written, come from a clean KPI. -/
theorem clean_of_about {num : Numerics K} {samples : List String} {kpiValues : KpiValues K}
    {failureThresholds : Dict String (Flt K × String)} {kpiName : String}
    {r : KpiResult K} {M : Multiset K}
    (hanalyse : analyseKpi num samples kpiValues failureThresholds kpiName = .ok (some r))
    (hM : (valuesList samples kpiValues kpiName : Multiset (Flt K)) = M.map fin)
    (hr : About num M kpiName (failureThresholds.get? kpiName) r)
    (hstrict : Strict r.distribution.toJson ∧ Strict r.interval.toJson ∧
      ∀ p, r.pof = some p → Strict p.toJson) :
    Clean samples kpiValues failureThresholds kpiName := by
  obtain ⟨values, _, hvalues, hdistribution, hinterval, hpof⟩ := analyseKpi_ok hanalyse
  have hvaluesM : M = (values : Multiset K) := by
    rw [hvalues, ← Multiset.map_coe] at hM
    exact (Multiset.map_injective fin_injective hM).symm
  refine ⟨?_, ?_, ?_⟩
  · intro x hx
    rw [hvalues] at hx
    obtain ⟨k, _, hk⟩ := List.mem_map.mp hx
    exact ⟨k, hk.symm⟩
  · rw [hvalues, List.length_map]
    exact (strict_analysed hdistribution hinterval).mp ⟨hstrict.1, hstrict.2.1⟩
  · intro t direction ht
    rw [ht] at hpof
    obtain ⟨p, hp, hcompute⟩ := hpof
    have hdue : p = duePof (values : Multiset K) kpiName (t, direction) := by
      have := hr.pof
      rw [ht, hp, hvaluesM] at this
      exact Option.some.inj this
    rw [hdue] at hcompute hp
    have hthreshold := strict_pof.mp (hstrict.2.2 _ hp)
    exact ⟨hthreshold, (computePof_due_iff hvalues (t, direction)).mp hcompute⟩

omit [IsStrictOrderedRing K] in
theorem strict_of_clean {num : Numerics K} {samples : List String} {kpiValues : KpiValues K}
    {failureThresholds : Dict String (Flt K × String)} {kpiName : String}
    {r : KpiResult K}
    (hanalyse : analyseKpi num samples kpiValues failureThresholds kpiName = .ok (some r))
    (h : Clean samples kpiValues failureThresholds kpiName) :
    Strict r.distribution.toJson ∧ Strict r.interval.toJson ∧
      ∀ p, r.pof = some p → Strict p.toJson := by
  obtain ⟨values, _, hvalues, hdistribution, hinterval, hpof⟩ := analyseKpi_ok hanalyse
  have htwo := h.two
  rw [hvalues, List.length_map] at htwo
  have hboth := (strict_analysed hdistribution hinterval).mpr htwo
  refine ⟨hboth.1, hboth.2, fun p hp => strict_pof.mpr ?_⟩
  cases ht : failureThresholds.get? kpiName with
  | none =>
    rw [ht] at hpof
    exact nomatch hpof.symm.trans hp
  | some t =>
    rw [ht] at hpof
    obtain ⟨p', hp', hcompute⟩ := hpof
    obtain rfl := Option.some.inj (hp'.symm.trans hp)
    rw [(computePof_ok_iff.mp hcompute).2]
    exact (h.threshold t.1 t.2 ht).1

/-- For every list of samples and every mapping of KPIs. -/
theorem onePopulation_iff (num : Numerics K) (confidence : K) (samples : List String)
    (kpiValues : KpiValues K) (failureThresholds : Dict String (Flt K × String)) :
    OnePopulation num confidence samples kpiValues failureThresholds ↔
      ∀ kpiName, valuesList samples kpiValues kpiName ≠ [] →
        Clean samples kpiValues failureThresholds kpiName := by
  constructor
  · intro h kpiName hne
    have hname := mem_kpiNames_of_valuesList hne
    rcases h with hnil | ⟨results, hrun, habout, hstrict⟩
    · rw [hnil] at hname
      exact nomatch hname
    obtain ⟨r, M, hmem, hM, hr⟩ := habout kpiName hne
    have hanalyse := ((mem_kpis_iff (List.ne_nil_of_mem hname) hrun kpiName r).mp hmem).2
    exact clean_of_about hanalyse hM hr (strict_results.mp hstrict (kpiName, r) hmem)
  · intro h
    by_cases hnames : kpiNames kpiValues = []
    · exact .inl hnames
    · refine .inr ?_
      have hclean (kpiName : String) (hne : valuesList samples kpiValues kpiName ≠ []) :=
        analyseKpi_of_clean num (h kpiName hne)
      obtain ⟨results, hrun⟩ : ∃ results,
          computeUqIndices num confidence samples kpiValues failureThresholds =
            .ok results := by
        have hall (kpiName : String) : ∃ o,
            analyseKpi num samples kpiValues failureThresholds kpiName = .ok o := by
          by_cases hnil : valuesList samples kpiValues kpiName = []
          · exact ⟨none, analyseKpi_of_nil hnil⟩
          · obtain ⟨r, _, hr, _⟩ := hclean kpiName hnil
            exact ⟨some r, hr⟩
        choose o ho using hall
        rw [computeUqIndices_eq num confidence samples failureThresholds hnames,
          mapM_ok_of_forall fun kpiName _ => by rw [ho kpiName]; rfl]
        exact ⟨_, rfl⟩
      have hmem := mem_kpis_iff hnames hrun
      refine ⟨results, hrun, fun kpiName hne => ?_, ?_⟩
      · obtain ⟨r, values, hanalyse, hvalues, habout⟩ := hclean kpiName hne
        refine ⟨r, values, (hmem kpiName r).mpr ⟨mem_kpiNames_of_valuesList hne, hanalyse⟩,
          ?_, habout⟩
        rw [hvalues, Multiset.map_coe]
      · refine strict_results.mpr fun ⟨kpiName, r⟩ hentry => ?_
        have hanalyse := ((hmem kpiName r).mp hentry).2
        obtain ⟨values, hne, hvalues, _⟩ := analyseKpi_ok hanalyse
        have hlist : valuesList samples kpiValues kpiName ≠ [] := by
          rw [hvalues]
          exact fun hnil => hne (List.map_eq_nil_iff.mp hnil)
        exact strict_of_clean hanalyse (h kpiName hlist)


end

/-- The 97.5 % quantile with three degrees of freedom. -/
def exactRoots : Numerics ℚ where
  sqrt := Rat.sqrt
  tPpf := fun _ => 3182446305283708 / 1000000000000000

def overOne : Dict String (Flt ℚ × String) := ⟨[("eui", fin 1, "greater")], by decide⟩

def kpisOf (values : List (String × ℚ)) (h : (values.map Prod.fst).Nodup) : KpiValues ℚ where
  items := values.map fun v => (v.1, ⟨[("eui", .float (fin v.2))], List.nodup_singleton _⟩)
  nodup := by
    rw [List.map_map]
    exact h

/-- Two samples and a baseline, which is no sample. -/
def withBaseline : KpiValues ℚ :=
  kpisOf [("0001", 0), ("0002", 2), ("baseline", 3)] (by decide)

/-- The baseline is counted, in the probability of failure alone. -/
theorem baseline_counts :
    ¬ OnePopulation exactRoots (95 / 100) ["0001", "0002"] withBaseline overOne := by
  intro h
  have hnames : kpiNames withBaseline = ["eui"] := by decide +kernel
  rcases h with hnil | ⟨results, hrun, habout, _⟩
  · rw [hnames] at hnil
    exact nomatch hnil
  have hlisted : (valuesList ["0001", "0002"] withBaseline "eui").length = 2 := by
    decide +kernel
  obtain ⟨r, M, hmem, hM, hr⟩ := habout "eui" fun hnil => by
    rw [hnil] at hlisted
    exact nomatch hlisted
  have hne : kpiNames withBaseline ≠ [] := by
    rw [hnames]
    exact List.cons_ne_nil _ _
  have hanalyse := ((mem_kpis_iff hne hrun "eui" r).mp hmem).2
  obtain ⟨values, _, _, _, _, p, hp, hcompute⟩ := analyseKpi_ok hanalyse
  have htotal : p.nTotal = 3 := by
    rw [(computePof_ok_iff.mp hcompute).2]
    decide +kernel
  have hcard : M.card = 2 := by
    have := congrArg Multiset.card hM
    rw [Multiset.coe_card, hlisted, Multiset.card_map] at this
    exact this.symm
  have hdue := congrArg (Option.map Pof.nTotal) (hr.pof.symm.trans hp)
  have htwo : M.card = p.nTotal := Option.some.inj hdue
  omega

def fourSamples : KpiValues ℚ :=
  kpisOf [("0001", 0), ("0002", 0), ("0003", 0), ("0004", 2)] (by decide)

theorem fourSamples_onePopulation :
    OnePopulation exactRoots (95 / 100) ["0001", "0002", "0003", "0004"] fourSamples
      overOne := by
  refine (onePopulation_iff _ _ _ _ _).mpr fun kpiName hne => ?_
  have hname := mem_kpiNames_of_valuesList hne
  have hnames : kpiNames fourSamples = ["eui"] := by decide +kernel
  rw [hnames] at hname
  rw [List.mem_singleton.mp hname]
  have hvalues : valuesList ["0001", "0002", "0003", "0004"] fourSamples "eui" =
      [0, 0, 0, 2].map fin := by
    decide +kernel
  refine ⟨fun x hx => ?_, ?_, fun t direction ht => ?_⟩
  · rw [hvalues] at hx
    obtain ⟨k, _, hk⟩ := List.mem_map.mp hx
    exact ⟨k, hk.symm⟩
  · rw [hvalues]
    decide
  · obtain ⟨rfl, rfl⟩ := Prod.mk.inj (Option.some.inj ht)
    exact ⟨⟨1, rfl⟩, by decide +kernel, by decide +kernel, by decide +kernel⟩

end OSimFlow.Algorithms.Uncertainty
