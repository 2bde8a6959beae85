import Mathlib
import OSimFlow.Algorithms.EffectiveObjectives
import OSimFlow.Lib.Instances
import OSimFlow.Lib.Least

/-!
# Calibration against measured data

The metrics compare a simulated with a measured series for each end use. The search
does not call them: `observe` reads one KPI from the files of the history and keeps the
point where that is least.

> `Calibrated`: the point that is recorded is one of those observed whose series has the
> least metric.
>
> `SoundMetric`: the measured series itself has metric 0, and no series has less.

The first takes that the KPI is least where the metric is (`Agrees`). The second holds
of `nmbe`; of `cvrmse` if no end use was measured with a negative total; and of `bm25`,
whose weight turns negative at a mean error of one, only where nothing was measured.
-/

namespace OSimFlow.Algorithms.Calibration

open OSimFlow.Lib (Dict Extended FirstLeast firstLeast_concat_self)

/-- End uses with their monthly values. -/
abbrev Series (K : Type) := Dict String (List K)

/-- `numpy` refuses to broadcast. -/
inductive MetricError where
  | valueError
deriving DecidableEq

inductive Metric where
  | bm25
  | nmbe
  | cvrmse
  /-- An unknown name: a warning, and `bm25`. -/
  | unknown (name : String)
deriving DecidableEq

/-- `math.sqrt` and `math.log`. -/
structure MathLib (K : Type) [Field K] [LinearOrder K] where
  sqrt : K → K
  sqrt_zero : sqrt 0 = 0
  sqrt_pos : ∀ x, 0 < x → 0 < sqrt x
  log : K → K
  log_neg : ∀ x, 0 < x → x < 1 → log x < 0

section

variable {K : Type} [Field K] [LinearOrder K]

/-! ## The measured data -/

/-! ## The metrics -/

/-- An operation between two arrays; one value goes with each of the other. -/
def broadcast (op : K → K → K) (xs ys : List K) : Except MetricError (List K) :=
  if xs.length = ys.length then .ok (List.zipWith op xs ys)
  else
    match xs, ys with
    | [x], ys => .ok (ys.map fun y => op x y)
    | xs, [y] => .ok (xs.map fun x => op x y)
    | _, _ => .error .valueError

def mean (xs : List K) : K := xs.sum / xs.length

/-- The pairs that the loops do not pass over. -/
def compared (simulated measured : Series K) : List (List K × List K) :=
  measured.items.filterMap fun item =>
    match simulated.get? item.1 with
    | none => none
    | some sim => if sim = [] ∨ item.2 = [] then none else some (sim, item.2)

attribute [local instance] Lib.atLeastTwo_ten in
/-- `epsilon`. -/
def epsilon : K := 1 / 10 ^ 6

/-- `tf`. -/
def termFrequencies (sim meas : List K) : Except MetricError (List K) :=
  match broadcast (fun s m => s - m) sim meas with
  | .error e => .error e
  | .ok diff => broadcast (fun d m => d / m) (diff.map fun d => |d|)
      (meas.map fun m => |m| + epsilon)

/-- What an end use adds to `total_score` and `n_terms`. -/
def bm25Term (lib : MathLib K) (k1 b : K) (sim meas : List K) : Except MetricError (K × Nat) :=
  match termFrequencies sim meas with
  | .error e => .error e
  | .ok tf =>
    let idf := lib.log ((1 + k1) / (1 + k1 * mean tf))
    .ok ((tf.map fun t => (k1 + 1) * t / (k1 * (1 - b + b) + t) * idf).sum, tf.length)

/-- `_compute_bm25_score`. -/
def computeBm25Score (lib : MathLib K) (simulated measured : Series K) (k1 b : K) :
    Except MetricError (Extended K) :=
  if simulated.items = [] ∨ measured.items = [] then .ok .posInf
  else
    match (compared simulated measured).mapM fun pair => bm25Term lib k1 b pair.1 pair.2 with
    | .error e => .error e
    | .ok terms =>
      let nTerms := (terms.map Prod.snd).sum
      if nTerms = 0 then .ok .posInf
      else .ok (.finite ((terms.map Prod.fst).sum / nTerms))

attribute [local instance] Lib.atLeastTwo_hundred in
/-- `_compute_nmbe`. -/
def computeNmbe (simulated measured : Series K) : Except MetricError (Extended K) :=
  match (compared simulated measured).mapM fun pair =>
      broadcast (fun s m => s - m) pair.1 pair.2 with
  | .error e => .error e
  | .ok diffs =>
    let denominator := ((compared simulated measured).map fun pair => pair.2.sum).sum
    if denominator = 0 then .ok .posInf
    else .ok (.finite ((diffs.map List.sum).sum / denominator * 100))

/-- What an end use adds to `total_mse`. -/
def mseTerm (sim meas : List K) : Except MetricError K :=
  match broadcast (fun s m => s - m) sim meas with
  | .error e => .error e
  | .ok diff => .ok (mean (diff.map fun d => d ^ 2) * sim.length)

attribute [local instance] Lib.atLeastTwo_hundred in
/-- `_compute_cvrmse`. -/
def computeCvrmse (lib : MathLib K) (simulated measured : Series K) :
    Except MetricError (Extended K) :=
  match (compared simulated measured).mapM fun pair => mseTerm pair.1 pair.2 with
  | .error e => .error e
  | .ok mses =>
    let totalCount := ((compared simulated measured).map fun pair => pair.1.length).sum
    let totalMeasured := ((compared simulated measured).map fun pair => pair.2.sum).sum
    let totalMeasCount := ((compared simulated measured).map fun pair => pair.2.length).sum
    if totalCount = 0 ∨ totalMeasured = 0 then .ok .posInf
    else .ok (.finite
      (lib.sqrt (mses.sum / totalCount) / (totalMeasured / totalMeasCount) * 100))

/-- `abs` of a result. -/
def absolute : Extended K → Extended K
  | .finite x => .finite |x|
  | _ => .posInf

attribute [local instance] Lib.atLeastTwo_two in
/-- `_compute_calibration_metric`. -/
def computeCalibrationMetric (lib : MathLib K) (metric : Metric) (simulated measured : Series K) :
    Except MetricError (Extended K) :=
  match metric with
  | .bm25 | .unknown _ => computeBm25Score lib simulated measured (3 / 2) (3 / 4)
  | .nmbe => absolute <$> computeNmbe simulated measured
  | .cvrmse => computeCvrmse lib simulated measured

/-! ## `observe` -/

/-- A sample of a generation, with the series that its model gives. -/
structure Point (K : Type) where
  values : Dict String (Value K)
  simulated : Series K

/-- An entry of the history. -/
structure Generation (K : Type) where
  samples : List (Point K)
  kpiFiles : List (KpiFile K)

/-- A row of `results`, with the series of its sample. -/
structure Observed (K : Type) where
  params : List (Value K)
  value : Extended K
  simulated : Series K

/-- The configured algorithm; of SciPy, the step of the optimiser and the normal
perturbations. -/
structure CalibrationAlgorithm (K : Type) where
  metric : Metric
  measured : Series K
  objectiveKpi : String
  independentVars : List String
  bounds : List (K × K)
  floatOfStr : String → Option (Extended K)
  optimizeStep : List (Observed K) → List (Extended K) → Option (List (Extended K))
  perturb : Nat → Nat → K

/-- `_best_params` and `_best_value`. -/
structure State (K : Type) where
  bestParams : List (Extended K)
  bestValue : Extended K

/-- As the constructor leaves it. -/
def State.empty (K : Type) : State K := ⟨[], .posInf⟩

namespace CalibrationAlgorithm

variable (alg : CalibrationAlgorithm K)

/-- The turn of the inner loop of `_read_kpi_values`. -/
def readPoint (p : Point K) (file : KpiFile K) : Except ReadError (List (Observed K)) :=
  (fun rows => rows.map fun row => ⟨row.params, row.value, p.simulated⟩) <$>
    readSample (fun kpis => objectiveValue alg.floatOfStr kpis alg.objectiveKpi) [] p.values file

/-- `_read_kpi_values`, unless `observe` has returned before. -/
def results (history : List (Generation K)) : Except ReadError (List (Observed K)) :=
  if history = [] ∨ alg.independentVars = [] then .ok []
  else
    List.flatten <$> (history.flatMap fun g => g.samples.zip g.kpiFiles).mapM
      fun pair => alg.readPoint pair.1 pair.2

/-- `np.array(params, dtype=np.float64)`. -/
def coordinates (p : Observed K) : Except ReadError (List (Extended K)) :=
  p.params.mapM (toFloat alg.floatOfStr)

/-- The body of the loop of `_update_best`. -/
def updateBest (s : State K) (p : Observed K) : Except ReadError (State K) :=
  if p.value < s.bestValue then (fun params => ⟨params, p.value⟩) <$> alg.coordinates p
  else .ok s

/-- `np.clip(candidate[j], lo, hi)` of a perturbed coordinate. -/
def clip (x : Extended K) (noise : K) (bound : K × K) : Extended K :=
  min (max (x.add noise) (.finite bound.1)) (.finite bound.2)

/-- `_propose_samples_around`. -/
def proposeSamplesAround (center : List (Extended K)) (nNew : Nat) : List (List (Extended K)) :=
  (List.range nNew).map fun i =>
    (center.zip alg.bounds).zipIdx.map fun cell => clip cell.1.1 (alg.perturb i cell.2) cell.1.2

/-- The number of samples that are proposed. -/
def nNew (history : List (Generation K)) : Nat :=
  match history.getLast? with
  | none => max 10 (alg.bounds.length * 2)
  | some g => if g.samples.length = 0 then max 10 (alg.bounds.length * 2) else g.samples.length

/-- The proposals of `observe` behind its `_update_best`. -/
def propose (history : List (Generation K)) (results : List (Observed K)) (s : State K) :
    List (List (Extended K)) :=
  match alg.optimizeStep results s.bestParams with
  | some bestPoint => alg.proposeSamplesAround bestPoint (alg.nNew history)
  | none =>
    if s.bestParams = [] then [] else alg.proposeSamplesAround s.bestParams (alg.nNew history)

/-- `observe`. -/
def observe (s : State K) (history : List (Generation K)) :
    Except ReadError (State K × List (List (Extended K))) :=
  match alg.results history with
  | .error e => .error e
  | .ok [] => .ok (s, [])
  | .ok results =>
    match results.foldlM alg.updateBest s with
    | .error e => .error e
    | .ok s => .ok (s, alg.propose history results s)

/-- The calls of `observe` in a campaign, each with the history as its files are then. -/
def run (histories : List (List (Generation K))) : Except ReadError (State K) :=
  histories.foldlM (fun s history => Prod.fst <$> alg.observe s history) (State.empty K)

/-- All that the calls have read. -/
def observed (histories : List (List (Generation K))) : Except ReadError (List (Observed K)) :=
  List.flatten <$> histories.mapM alg.results

end CalibrationAlgorithm

/-! ## The properties -/

/-- The series of `p` has a metric, and none of those observed has less. -/
def LeastMetric (lib : MathLib K) (alg : CalibrationAlgorithm K) (points : List (Observed K))
    (p : Observed K) : Prop :=
  ∃ v, computeCalibrationMetric lib alg.metric p.simulated alg.measured = .ok v ∧
    ∀ q ∈ points, ∀ w,
      computeCalibrationMetric lib alg.metric q.simulated alg.measured = .ok w → v ≤ w

/-- The point that is recorded is an observed one with the least metric. -/
def Calibrated (lib : MathLib K) (alg : CalibrationAlgorithm K) (points : List (Observed K))
    (s : State K) : Prop :=
  points ≠ [] → s.bestValue ≠ .posInf ∧
    ∃ p ∈ points, alg.coordinates p = .ok s.bestParams ∧ LeastMetric lib alg points p

/-- The measured series has metric 0 unless its total is zero, and no series has less. -/
def SoundMetric (lib : MathLib K) (metric : Metric) (measured : Series K) : Prop :=
  ((measured.items.map fun item => item.2.sum).sum ≠ 0 →
    computeCalibrationMetric lib metric measured measured = .ok (.finite 0)) ∧
  ∀ simulated v, computeCalibrationMetric lib metric simulated measured = .ok v →
    ¬ v < .finite 0

/-- The first point with the least KPI has a number there, and is a point with the least
metric. -/
def Agrees (lib : MathLib K) (alg : CalibrationAlgorithm K) (points : List (Observed K)) : Prop :=
  points ≠ [] → ∃ best, FirstLeast Observed.value points best ∧ best.value ≠ .posInf ∧
    ∃ p ∈ points, alg.coordinates p = alg.coordinates best ∧ LeastMetric lib alg points p

/-- What was measured, for the metric. -/
def Measurable (metric : Metric) (measured : Series K) : Prop :=
  match metric with
  | .nmbe => True
  | .cvrmse => ∀ item ∈ measured.items, 0 ≤ item.2.sum
  | .bm25 | .unknown _ => ∀ item ∈ measured.items, item.2 = []

/-! ## What is recorded -/

section

variable {lib : MathLib K} {alg : CalibrationAlgorithm K} {points : List (Observed K)}
variable {s s' : State K}

/-- The state after the points: the first with the least KPI is recorded, if its KPI is a
number. -/
def Recorded (alg : CalibrationAlgorithm K) (points : List (Observed K)) (s : State K) : Prop :=
  (s.bestValue = .posInf ∧ ∀ p ∈ points, p.value = .posInf) ∨
    ∃ best, FirstLeast Observed.value points best ∧ best.value = s.bestValue ∧
      best.value ≠ .posInf ∧ alg.coordinates best = .ok s.bestParams

theorem recorded_empty : Recorded alg [] (State.empty K) :=
  Or.inl ⟨rfl, fun _ hp => nomatch hp⟩

theorem Recorded.updateBest {p : Observed K} (h : Recorded alg points s)
    (hp : alg.updateBest s p = .ok s') : Recorded alg (points ++ [p]) s' := by
  unfold CalibrationAlgorithm.updateBest at hp
  by_cases hlt : p.value < s.bestValue
  · rw [if_pos hlt] at hp
    cases hcoord : alg.coordinates p with
    | error e => rw [hcoord] at hp; exact nomatch hp
    | ok params =>
      rw [hcoord] at hp
      cases hp
      have hfirst : ∀ q ∈ points, p.value < q.value := by
        intro q hq
        rcases h with ⟨hinf, hall⟩ | ⟨best, hbest, hvalue, _, _⟩
        · rw [hall q hq, ← hinf]
          exact hlt
        · exact lt_of_lt_of_le (hvalue ▸ hlt) (hbest.le q hq)
      have hfinite : p.value ≠ .posInf := by
        intro hinf
        rw [hinf] at hlt
        exact Extended.not_posInf_lt _ hlt
      exact Or.inr ⟨p, firstLeast_concat_self hfirst, rfl, hfinite, hcoord⟩
  · rw [if_neg hlt] at hp
    cases hp
    rcases h with ⟨hinf, hall⟩ | ⟨best, hbest, hvalue, hfinite, hcoord⟩
    · refine Or.inl ⟨hinf, fun q hq => ?_⟩
      rcases List.mem_append.mp hq with hq | hq
      · exact hall q hq
      · rw [List.mem_singleton.mp hq]
        by_contra hne
        exact hlt (hinf ▸ Extended.ne_posInf_iff.mp hne)
    · exact Or.inr ⟨best, hbest.concat (hvalue ▸ not_lt.mp hlt), hvalue, hfinite, hcoord⟩

theorem Recorded.updateAll {results : List (Observed K)} (h : Recorded alg points s)
    (hr : results.foldlM alg.updateBest s = .ok s') : Recorded alg (points ++ results) s' := by
  induction results generalizing points s with
  | nil =>
    cases hr
    rw [List.append_nil]
    exact h
  | cons p results ih =>
    rw [List.foldlM_cons] at hr
    cases hp : alg.updateBest s p with
    | error e => rw [hp] at hr; exact nomatch hr
    | ok s₁ =>
      rw [hp] at hr
      have := ih (h.updateBest hp) hr
      rwa [List.append_assoc, List.singleton_append] at this

/-- A call of `observe` has read some results, and recorded them. -/
theorem Recorded.observe {history : List (Generation K)} {proposed : List (List (Extended K))}
    (h : Recorded alg points s) (ho : alg.observe s history = .ok (s', proposed)) :
    ∃ results, alg.results history = .ok results ∧ Recorded alg (points ++ results) s' := by
  unfold CalibrationAlgorithm.observe at ho
  split at ho
  · exact nomatch ho
  · next hres =>
    cases ho
    refine ⟨[], hres, ?_⟩
    rw [List.append_nil]
    exact h
  · next results _ hres =>
    cases hall : results.foldlM alg.updateBest s with
    | error e => rw [hall] at ho; exact nomatch ho
    | ok s₁ =>
      rw [hall] at ho
      cases ho
      exact ⟨results, hres, h.updateAll hall⟩

/-- The run, from any state. -/
theorem Recorded.run {histories : List (List (Generation K))} (h : Recorded alg points s)
    (hrun : histories.foldlM (fun s history => Prod.fst <$> alg.observe s history) s = .ok s') :
    ∃ lists, histories.mapM alg.results = .ok lists ∧
      Recorded alg (points ++ lists.flatten) s' := by
  induction histories generalizing points s with
  | nil =>
    cases hrun
    refine ⟨[], rfl, ?_⟩
    rw [List.flatten_nil, List.append_nil]
    exact h
  | cons history histories ih =>
    rw [List.foldlM_cons] at hrun
    cases ho : alg.observe s history with
    | error e => rw [ho] at hrun; exact nomatch hrun
    | ok out =>
      obtain ⟨s₁, proposed⟩ := out
      rw [ho] at hrun
      obtain ⟨results, hres, hrec⟩ := h.observe ho
      obtain ⟨lists, hlists, hrec'⟩ := ih hrec hrun
      refine ⟨results :: lists, by rw [List.mapM_cons, hres, hlists]; rfl, ?_⟩
      rwa [List.flatten_cons, ← List.append_assoc]

/-- What is recorded is calibrated just when the KPI agrees with the metric. -/
theorem Recorded.agrees_iff (h : Recorded alg points s) :
    Calibrated lib alg points s ↔ Agrees lib alg points := by
  constructor
  · intro hc hne
    obtain ⟨hfinite, p, hp, hcoord, hleast⟩ := hc hne
    rcases h with ⟨hinf, _⟩ | ⟨best, hbest, hvalue, hbestFinite, hbestCoord⟩
    · exact absurd hinf hfinite
    · exact ⟨best, hbest, hbestFinite, p, hp, hcoord.trans hbestCoord.symm, hleast⟩
  · intro ha hne
    obtain ⟨best, hbest, hfinite, p, hp, hcoord, hleast⟩ := ha hne
    rcases h with ⟨_, hall⟩ | ⟨best', hbest', hvalue, _, hcoord'⟩
    · exact absurd (hall best hbest.mem) hfinite
    · obtain rfl := hbest.unique hbest'
      exact ⟨hvalue ▸ hfinite, p, hp, hcoord.trans hcoord', hleast⟩

end

/-! ## What is compared -/

section

variable {sim meas : List K} {simulated measured : Series K}

omit [Field K] [LinearOrder K] in
theorem mem_compared {pair : List K × List K} (h : pair ∈ compared simulated measured) :
    (∃ endUse, (endUse, pair.2) ∈ measured.items) ∧ pair.1 ≠ [] ∧ pair.2 ≠ [] := by
  obtain ⟨item, hitem, hpair⟩ := List.mem_filterMap.mp h
  cases hsim : simulated.get? item.1 with
  | none => rw [hsim] at hpair; exact nomatch hpair
  | some sim =>
    rw [hsim] at hpair
    dsimp only at hpair
    split at hpair
    · exact nomatch hpair
    · next hne =>
      cases hpair
      rw [not_or] at hne
      exact ⟨⟨item.1, hitem⟩, hne.1, hne.2⟩

omit [Field K] [LinearOrder K] in
/-- A series is compared with itself, end use by end use. -/
theorem compared_self : compared measured measured =
    measured.items.filterMap fun item =>
      if item.2 = [] then none else some (item.2, item.2) := by
  refine List.filterMap_congr fun item hitem => ?_
  have hget : measured.get? item.1 = some item.2 := Dict.mem_items.mp hitem
  simp only [hget, or_self]

omit [Field K] [LinearOrder K] in
/-- A simulated series of one end use is compared there alone. -/
theorem compared_single {endUse : String} (hm : (endUse, meas) ∈ measured.items)
    (hsim : sim ≠ []) (hmeas : meas ≠ []) :
    compared (Dict.set ∅ endUse sim) measured = [(sim, meas)] := by
  have hother : ∀ l : List (String × List K), endUse ∉ l.map Prod.fst →
      (l.filterMap fun item =>
        match Dict.get? (Dict.set ∅ endUse sim) item.1 with
        | none => none
        | some sim => if sim = [] ∨ item.2 = [] then none else some (sim, item.2)) = [] := by
    intro l hl
    refine List.filterMap_eq_nil_iff.mpr fun item hitem => ?_
    have hne : endUse ≠ item.1 := fun he => hl (he ▸ List.mem_map_of_mem hitem)
    rw [Dict.get?_set_ne _ hne]
    rfl
  have hnodup := measured.nodup
  obtain ⟨before, after, hitems⟩ := List.append_of_mem hm
  rw [hitems, List.map_append, List.map_cons, List.nodup_append] at hnodup
  obtain ⟨_, hafter, hdisjoint⟩ := hnodup
  unfold compared
  rw [hitems, List.filterMap_append, List.filterMap_cons, hother before, hother after,
    Dict.get?_set_self]
  · dsimp only
    rw [if_neg (not_or.mpr ⟨hsim, hmeas⟩)]
    rfl
  · exact (List.nodup_cons.mp hafter).1
  · exact fun hb => hdisjoint endUse hb endUse List.mem_cons_self rfl

omit [LinearOrder K] in
/-- The empty series add nothing to the total. -/
theorem sum_compared_self :
    ((compared measured measured).map fun pair => pair.2.sum).sum =
      (measured.items.map fun item => item.2.sum).sum := by
  rw [compared_self]
  generalize measured.items = items
  induction items with
  | nil => rfl
  | cons item items ih =>
    rw [List.filterMap_cons, List.map_cons, List.sum_cons, ← ih]
    by_cases hitem : item.2 = []
    · rw [if_pos hitem, hitem, List.sum_nil, zero_add]
    · rw [if_neg hitem, List.map_cons, List.sum_cons]

omit [Field K] [LinearOrder K] in
theorem broadcast_self (op : K → K → K) (xs : List K) :
    broadcast op xs xs = .ok (xs.map fun x => op x x) := by
  unfold broadcast
  rw [if_pos rfl, List.zipWith_self]

omit [Field K] [LinearOrder K] in
theorem broadcast_map (op : K → K → K) (f : K → K) (xs : List K) :
    broadcast op (xs.map f) xs = .ok (xs.map fun x => op (f x) x) := by
  unfold broadcast
  rw [if_pos (List.length_map f), List.zipWith_map_left, List.zipWith_self]

omit [LinearOrder K] in
theorem sum_map_const {α : Type} (c : K) (xs : List α) : (xs.map fun _ => c).sum = xs.length * c := by
  rw [List.map_const', List.sum_replicate, nsmul_eq_mul]

end

/-! ## The metric of the measured series -/

section

variable {lib : MathLib K} {simulated measured : Series K}

omit [LinearOrder K] in
/-- No end use differs from itself. -/
theorem diffs_self :
    (compared measured measured).mapM (fun pair => broadcast (fun s m => s - m) pair.1 pair.2) =
      .ok ((compared measured measured).map fun pair => pair.1.map fun _ => 0) := by
  refine OSimFlow.Lib.mapM_ok_of_forall fun pair hpair => ?_
  rw [compared_self] at hpair
  obtain ⟨item, _, hitem⟩ := List.mem_filterMap.mp hpair
  split at hitem
  · exact nomatch hitem
  · cases hitem
    rw [broadcast_self]
    simp only [sub_self]

variable [IsStrictOrderedRing K]

theorem computeNmbe_self (h : (measured.items.map fun item => item.2.sum).sum ≠ 0) :
    absolute <$> computeNmbe measured measured = .ok (.finite 0) := by
  have hzero : ((compared measured measured).map
      (List.sum ∘ fun pair : List K × List K => pair.1.map fun _ => (0 : K))).sum = 0 := by
    refine List.sum_eq_zero fun x hx => ?_
    obtain ⟨pair, _, rfl⟩ := List.mem_map.mp hx
    rw [Function.comp_apply, sum_map_const, mul_zero]
  unfold computeNmbe
  rw [diffs_self, sum_compared_self]
  dsimp only
  rw [if_neg h, List.map_map, hzero, zero_div, zero_mul]
  show Except.ok (Extended.finite |(0 : K)|) = _
  rw [abs_zero]

omit [IsStrictOrderedRing K] in
theorem computeCvrmse_self (h : (measured.items.map fun item => item.2.sum).sum ≠ 0) :
    computeCvrmse lib measured measured = .ok (.finite 0) := by
  have hmses : (compared measured measured).mapM (fun pair => mseTerm pair.1 pair.2) =
      .ok ((compared measured measured).map fun _ => 0) := by
    refine OSimFlow.Lib.mapM_ok_of_forall fun pair hpair => ?_
    rw [compared_self] at hpair
    obtain ⟨item, _, hitem⟩ := List.mem_filterMap.mp hpair
    split at hitem
    · exact nomatch hitem
    · cases hitem
      unfold mseTerm
      rw [broadcast_self]
      dsimp only
      rw [List.map_map, mean, show ((fun d : K => d ^ 2) ∘ fun x => x - x) = fun _ => (0 : K) from
        funext fun x => by rw [Function.comp_apply, sub_self, zero_pow two_ne_zero],
        sum_map_const, mul_zero, zero_div, zero_mul]
  have hcount : ((compared measured measured).map fun pair => pair.1.length).sum ≠ 0 := by
    intro hzero
    refine h ?_
    rw [← sum_compared_self]
    cases hc : compared measured measured with
    | nil => rfl
    | cons pair rest =>
      have hne := (mem_compared (hc ▸ List.mem_cons_self : pair ∈ compared measured measured)).2.1
      rw [hc, List.map_cons, List.sum_cons] at hzero
      exact absurd (List.length_eq_zero_iff.mp (by omega)) hne
  unfold computeCvrmse
  rw [hmses, sum_compared_self]
  dsimp only
  rw [if_neg (not_or.mpr ⟨hcount, h⟩), sum_map_const, mul_zero, zero_div, lib.sqrt_zero, zero_div,
    zero_mul]

/-! ## No series has less -/

theorem computeNmbe_nonneg {v : Extended K}
    (h : absolute <$> computeNmbe simulated measured = .ok v) : ¬ v < .finite 0 := by
  cases hn : computeNmbe simulated measured with
  | error e => rw [hn] at h; exact nomatch h
  | ok w =>
    rw [hn] at h
    cases h
    cases w with
    | finite x => exact not_lt.mpr (le_of_not_gt fun hlt =>
        absurd (Extended.finite_lt_finite.mp hlt) (not_lt.mpr (abs_nonneg x)))
    | negInf => exact fun hlt => absurd (hlt.trans (Extended.finite_lt_posInf 0)) (lt_irrefl _)
    | posInf => exact Extended.not_posInf_lt _

theorem mean_sq_nonneg (xs : List K) : 0 ≤ mean (xs.map fun d => d ^ 2) := by
  refine div_nonneg (List.sum_nonneg fun x hx => ?_) (Nat.cast_nonneg _)
  obtain ⟨d, _, rfl⟩ := List.mem_map.mp hx
  exact sq_nonneg d

theorem mseTerm_nonneg {sim meas : List K} {x : K} (h : mseTerm sim meas = .ok x) : 0 ≤ x := by
  unfold mseTerm at h
  split at h
  · exact nomatch h
  · cases h
    exact mul_nonneg (mean_sq_nonneg _) (Nat.cast_nonneg _)

omit [IsStrictOrderedRing K] in
theorem MathLib.sqrt_nonneg (lib : MathLib K) {x : K} (h : 0 ≤ x) : 0 ≤ lib.sqrt x := by
  rcases eq_or_lt_of_le h with rfl | hpos
  · exact le_of_eq lib.sqrt_zero.symm
  · exact le_of_lt (lib.sqrt_pos x hpos)

theorem computeCvrmse_nonneg (hm : ∀ item ∈ measured.items, 0 ≤ item.2.sum) {v : Extended K}
    (h : computeCvrmse lib simulated measured = .ok v) : ¬ v < .finite 0 := by
  unfold computeCvrmse at h
  split at h
  · exact nomatch h
  next mses hmses =>
    dsimp only at h
    split at h
    · cases h
      exact Extended.not_posInf_lt _
    · cases h
      have hsum : 0 ≤ mses.sum := by
        refine List.sum_nonneg fun x hx => ?_
        obtain ⟨pair, _, hpair⟩ := OSimFlow.Lib.mapM_ok_mem hmses x hx
        exact mseTerm_nonneg hpair
      have hmeasured : 0 ≤ ((compared simulated measured).map fun pair => pair.2.sum).sum := by
        refine List.sum_nonneg fun x hx => ?_
        obtain ⟨pair, hpair, rfl⟩ := List.mem_map.mp hx
        obtain ⟨⟨endUse, hitem⟩, _⟩ := mem_compared hpair
        exact hm _ hitem
      rw [Extended.finite_lt_finite, not_lt]
      refine mul_nonneg (div_nonneg (lib.sqrt_nonneg ?_) ?_) (by norm_num)
      · exact div_nonneg hsum (Nat.cast_nonneg _)
      · exact div_nonneg hmeasured (Nat.cast_nonneg _)

omit [IsStrictOrderedRing K] in
theorem computeBm25Score_of_empty {k1 b : K} (hm : ∀ item ∈ measured.items, item.2 = []) :
    computeBm25Score lib simulated measured k1 b = .ok .posInf := by
  have hnone : compared simulated measured = [] := by
    refine List.eq_nil_iff_forall_not_mem.mpr fun pair hpair => ?_
    obtain ⟨⟨endUse, hitem⟩, _, hne⟩ := mem_compared hpair
    exact hne (hm _ hitem)
  unfold computeBm25Score
  split
  · rfl
  · rw [hnone]
    rfl

/-! ## A series that has less -/

variable (lib) in
/-- One more than the measured value, each month. -/
theorem computeCvrmse_neg {endUse : String} {meas : List K}
    (hm : (endUse, meas) ∈ measured.items) (hneg : meas.sum < 0) :
    ∃ v, computeCvrmse lib (Dict.set ∅ endUse (meas.map fun m => m + 1)) measured = .ok v ∧
      v < .finite 0 := by
  have hne : meas ≠ [] := by
    rintro rfl
    exact absurd hneg (lt_irrefl 0)
  have hlen : meas.length ≠ 0 := fun h => hne (List.length_eq_zero_iff.mp h)
  have hlenK : (meas.length : K) ≠ 0 := Nat.cast_ne_zero.mpr hlen
  have hterm : mseTerm (meas.map fun m => m + 1) meas = .ok (meas.length : K) := by
    unfold mseTerm
    rw [broadcast_map]
    dsimp only
    rw [List.map_map, show ((fun d : K => d ^ 2) ∘ fun x => x + 1 - x) = fun _ => (1 : K) from
      funext fun x => by rw [Function.comp_apply, add_sub_cancel_left, one_pow], mean,
      sum_map_const, mul_one, List.length_map, List.length_map, div_self hlenK, one_mul]
  refine ⟨.finite (lib.sqrt 1 / (meas.sum / meas.length) * 100), ?_, ?_⟩
  · unfold computeCvrmse
    rw [compared_single hm (fun h => hne (List.map_eq_nil_iff.mp h)) hne]
    rw [List.mapM_cons, hterm, List.mapM_nil]
    show (if [(meas.map fun m => m + 1).length].sum = 0 ∨ [meas.sum].sum = 0 then
        Except.ok Extended.posInf
      else Except.ok (Extended.finite
        (lib.sqrt ([(meas.length : K)].sum / ([(meas.map fun m => m + 1).length].sum : Nat)) /
          ([meas.sum].sum / ([meas.length].sum : Nat)) * 100))) = _
    rw [List.sum_singleton, List.sum_singleton, List.sum_singleton, List.sum_singleton,
      List.length_map, if_neg (not_or.mpr ⟨hlen, ne_of_lt hneg⟩), div_self hlenK]
  · rw [Extended.finite_lt_finite]
    have hmean : meas.sum / (meas.length : K) < 0 :=
      div_neg_of_neg_of_pos hneg (Nat.cast_pos.mpr (Nat.pos_of_ne_zero hlen))
    exact mul_neg_of_neg_of_pos (div_neg_of_pos_of_neg (lib.sqrt_pos 1 one_pos) hmean) (by norm_num)

theorem epsilon_pos : (0 : K) < epsilon := by
  unfold epsilon
  positivity

variable (lib) in
/-- Three times the measured value, or away from it: an error of two, each month. -/
theorem computeBm25Score_neg {endUse : String} {meas : List K}
    (hm : (endUse, meas) ∈ measured.items) (hne : meas ≠ []) :
    ∃ v, computeBm25Score lib
        (Dict.set ∅ endUse (meas.map fun m => m + 2 * (|m| + epsilon))) measured (3 / 2) (3 / 4) =
          .ok v ∧ v < .finite 0 := by
  have hlen : meas.length ≠ 0 := fun h => hne (List.length_eq_zero_iff.mp h)
  have hlenK : (meas.length : K) ≠ 0 := Nat.cast_ne_zero.mpr hlen
  have htf : termFrequencies (meas.map fun m => m + 2 * (|m| + epsilon)) meas =
      .ok (meas.map fun _ => 2) := by
    unfold termFrequencies
    rw [broadcast_map]
    dsimp only
    unfold broadcast
    rw [List.map_map, if_pos (by rw [List.length_map, List.length_map]), List.zipWith_map,
      List.zipWith_self]
    refine congrArg Except.ok (List.map_congr_left fun m _ => ?_)
    have hpos : 0 < |m| + epsilon := add_pos_of_nonneg_of_pos (abs_nonneg m) epsilon_pos
    rw [Function.comp_apply, add_sub_cancel_left, abs_of_pos (mul_pos two_pos hpos),
      mul_div_assoc, div_self (ne_of_gt hpos), mul_one]
  let idf := lib.log ((1 + 3 / 2) / (1 + 3 / 2 * 2))
  have hidf : idf < 0 := lib.log_neg _ (by norm_num) (by norm_num)
  let c := (3 / 2 + 1) * 2 / (3 / 2 * (1 - 3 / 4 + 3 / 4) + 2) * idf
  have hc : c < 0 := mul_neg_of_pos_of_neg (by norm_num) hidf
  have hterm : bm25Term lib (3 / 2) (3 / 4) (meas.map fun m => m + 2 * (|m| + epsilon)) meas =
      .ok ((meas.length : K) * c, meas.length) := by
    unfold bm25Term
    rw [htf]
    have hmean : mean (meas.map fun _ => (2 : K)) = 2 := by
      rw [mean, sum_map_const, List.length_map, mul_div_assoc, mul_comm, div_mul_cancel₀ _ hlenK]
    dsimp only
    rw [hmean, List.map_map, List.length_map]
    exact congrArg (fun x => Except.ok (x, meas.length)) (sum_map_const c meas)
  refine ⟨.finite (((meas.length : K) * c) / meas.length), ?_, ?_⟩
  · unfold computeBm25Score
    have hitems : measured.items ≠ [] := List.ne_nil_of_mem hm
    have hsim : (Dict.set ∅ endUse (meas.map fun m => m + 2 * (|m| + epsilon))).items ≠ [] :=
      List.cons_ne_nil _ _
    rw [if_neg (not_or.mpr ⟨hsim, hitems⟩),
      compared_single hm (fun h => hne (List.map_eq_nil_iff.mp h)) hne, List.mapM_cons, hterm,
      List.mapM_nil]
    show (if [meas.length].sum = 0 then Except.ok Extended.posInf
      else Except.ok (Extended.finite ([(meas.length : K) * c].sum / ([meas.length].sum : Nat)))) = _
    rw [List.sum_singleton, List.sum_singleton, if_neg hlen]
  · rw [Extended.finite_lt_finite, mul_comm, mul_div_assoc, div_self hlenK, mul_one]
    exact hc

theorem soundBm25_iff : SoundMetric lib .bm25 measured ↔ ∀ item ∈ measured.items, item.2 = [] := by
  constructor
  · intro h item hitem
    by_contra hne
    obtain ⟨v, hv, hlt⟩ := computeBm25Score_neg lib hitem hne
    exact h.2 _ v hv hlt
  · intro h
    refine ⟨fun htotal => absurd (List.sum_eq_zero fun x hx => ?_) htotal, fun _ v hv => ?_⟩
    · obtain ⟨item, hitem, rfl⟩ := List.mem_map.mp hx
      rw [h item hitem, List.sum_nil]
    · cases (computeBm25Score_of_empty h).symm.trans hv
      exact Extended.not_posInf_lt _

/-- The metric is sound just on what it can measure. -/
theorem soundMetric_iff {metric : Metric} :
    SoundMetric lib metric measured ↔ Measurable metric measured := by
  cases metric with
  | nmbe => exact ⟨fun _ => trivial, fun _ => ⟨computeNmbe_self, fun _ _ => computeNmbe_nonneg⟩⟩
  | cvrmse =>
    refine ⟨fun h item hitem => ?_, fun h => ⟨computeCvrmse_self, fun _ _ =>
      computeCvrmse_nonneg h⟩⟩
    by_contra hneg
    obtain ⟨v, hv, hlt⟩ := computeCvrmse_neg lib hitem (not_le.mp hneg)
    exact h.2 _ v hv hlt
  | bm25 => exact soundBm25_iff
  | unknown name => exact soundBm25_iff

variable (lib) in
/-- A calibration records a point with the least metric, by a metric that is least on the
measured series, just when its KPI agrees with the metric and the metric can measure
what was measured. -/
theorem calibrated_iff {alg : CalibrationAlgorithm K} {histories : List (List (Generation K))}
    {s : State K} (hrun : alg.run histories = .ok s) :
    ∃ points, alg.observed histories = .ok points ∧
      (Calibrated lib alg points s ∧ SoundMetric lib alg.metric alg.measured ↔
        Agrees lib alg points ∧ Measurable alg.metric alg.measured) := by
  obtain ⟨lists, hlists, hrec⟩ := recorded_empty.run hrun
  rw [List.nil_append] at hrec
  refine ⟨lists.flatten, by rw [CalibrationAlgorithm.observed, hlists]; rfl, ?_⟩
  exact and_congr hrec.agrees_iff soundMetric_iff

end

end

/-! ## One end use, one month -/

noncomputable def realMath : MathLib Real where
  sqrt := Real.sqrt
  sqrt_zero := Real.sqrt_zero
  sqrt_pos _ := Real.sqrt_pos.mpr
  log := Real.log
  log_neg _ := Real.log_neg

noncomputable def electricity (x : Real) : Series Real := Dict.set ∅ "electricity" [x]

noncomputable def byNmbe : CalibrationAlgorithm Real where
  metric := .nmbe
  measured := electricity 1
  objectiveKpi := "eui"
  independentVars := ["wall_r"]
  bounds := [(0, 4)]
  floatOfStr _ := none
  optimizeStep _ _ := none
  perturb _ _ := 0

/-- A sample with its KPI file: `wall_r`, the `eui` and the electricity of its model. -/
noncomputable def sampleWith (wallR eui kwh : Real) : Point Real × KpiFile Real :=
  (⟨Dict.set ∅ "wall_r" (.float (.finite wallR)), electricity kwh⟩,
    .json (.obj [("kpis", .obj [("eui", .float (.finite eui))])]))

noncomputable def generation (samples : List (Point Real × KpiFile Real)) : Generation Real :=
  ⟨samples.map Prod.fst, samples.map Prod.snd⟩

noncomputable def observedWith (wallR eui kwh : Real) : Observed Real :=
  ⟨[.float (.finite wallR)], .finite eui, electricity kwh⟩

theorem nmbe_electricity (x : Real) :
    computeCalibrationMetric realMath .nmbe (electricity x) (electricity 1) =
      .ok (.finite |(x - 1) * 100|) := by
  have hc : compared (electricity x) (electricity 1) = [([x], [1])] := rfl
  unfold computeCalibrationMetric computeNmbe
  rw [hc]
  show absolute <$> (if [[(1 : Real)].sum].sum = 0 then Except.ok Extended.posInf
    else Except.ok (Extended.finite ([[x - 1].sum].sum / [[(1 : Real)].sum].sum * 100))) = _
  rw [List.sum_singleton, List.sum_singleton, if_neg one_ne_zero, List.sum_singleton,
    List.sum_singleton, div_one]
  rfl

/-- A run of one call is the update over what it reads. -/
theorem run_single {history : List (Generation Real)} {p : Observed Real}
    {points : List (Observed Real)} {s : State Real}
    (hread : byNmbe.results history = .ok (p :: points))
    (hupdate : (p :: points).foldlM byNmbe.updateBest (State.empty Real) = .ok s) :
    byNmbe.run [history] = .ok s := by
  have hobserve : byNmbe.observe (State.empty Real) history =
      .ok (s, byNmbe.propose history (p :: points) s) := by
    unfold CalibrationAlgorithm.observe
    rw [hread]
    dsimp only
    rw [hupdate]
  unfold CalibrationAlgorithm.run
  rw [List.foldlM_cons, hobserve]
  rfl

theorem updateBest_first (wallR eui kwh : Real) :
    byNmbe.updateBest (State.empty Real) (observedWith wallR eui kwh) =
      .ok ⟨[.finite wallR], .finite eui⟩ :=
  if_pos (Extended.finite_lt_posInf eui)

theorem run_one : byNmbe.run [[generation [sampleWith 1 5 1]]] =
    .ok ⟨[.finite 1], .finite 5⟩ := by
  have hread : byNmbe.results [generation [sampleWith 1 5 1]] = .ok [observedWith 1 5 1] := rfl
  refine run_single hread ?_
  rw [List.foldlM_cons, updateBest_first]
  rfl

theorem leastMetric_one : LeastMetric realMath byNmbe [observedWith 1 5 1] (observedWith 1 5 1) := by
  refine ⟨_, nmbe_electricity 1, fun q hq w hw => ?_⟩
  rw [List.mem_singleton.mp hq] at hw
  exact le_of_eq (Except.ok.inj ((nmbe_electricity 1).symm.trans hw))

theorem calibrated_one : ∃ s points,
    byNmbe.run [[generation [sampleWith 1 5 1]]] = .ok s ∧
      byNmbe.observed [[generation [sampleWith 1 5 1]]] = .ok points ∧
      Calibrated realMath byNmbe points s ∧ SoundMetric realMath .nmbe (electricity 1) := by
  obtain ⟨points, hpoints, hiff⟩ := calibrated_iff realMath run_one
  refine ⟨_, points, run_one, hpoints, hiff.mpr ⟨?_, trivial⟩⟩
  have hone : points = [observedWith 1 5 1] := by
    have : byNmbe.observed [[generation [sampleWith 1 5 1]]] = .ok [observedWith 1 5 1] := rfl
    exact Except.ok.inj (hpoints.symm.trans this)
  rw [hone]
  exact fun _ => ⟨observedWith 1 5 1, firstLeast_concat_self (l := []) (fun _ h => nomatch h),
    nofun, observedWith 1 5 1, List.mem_cons_self, rfl, leastMetric_one⟩

/-- The first sample reproduces the measured month, the second uses three times as much
and has the lower `eui`: it is the one that is recorded. -/
theorem least_kpi_recorded : ∃ s points,
    byNmbe.run [[generation [sampleWith 1 5 1, sampleWith 2 3 3]]] = .ok s ∧
      byNmbe.observed [[generation [sampleWith 1 5 1, sampleWith 2 3 3]]] = .ok points ∧
      ¬ Calibrated realMath byNmbe points s := by
  refine ⟨⟨[.finite 2], .finite 3⟩, [observedWith 1 5 1, observedWith 2 3 3], ?_, rfl, ?_⟩
  · have hread : byNmbe.results [generation [sampleWith 1 5 1, sampleWith 2 3 3]] =
        .ok [observedWith 1 5 1, observedWith 2 3 3] := rfl
    refine run_single hread ?_
    have hlower : byNmbe.updateBest ⟨[.finite 1], .finite 5⟩ (observedWith 2 3 3) =
        .ok ⟨[.finite 2], .finite 3⟩ := by
      have hlt : (Extended.finite 3 : Extended Real) < .finite 5 :=
        Extended.finite_lt_finite.mpr (by norm_num)
      exact if_pos hlt
    rw [List.foldlM_cons, updateBest_first]
    show ([observedWith 2 3 3].foldlM byNmbe.updateBest ⟨[.finite 1], .finite 5⟩) = _
    rw [List.foldlM_cons, hlower]
    rfl
  · intro h
    obtain ⟨_, p, hp, hcoord, v, hv, hleast⟩ := h (List.cons_ne_nil _ _)
    have hfirst := hleast _ List.mem_cons_self _ (nmbe_electricity 1)
    rcases List.mem_cons.mp hp with rfl | hp
    · have : (1 : Real) = 2 := by
        have hparams : [Extended.finite (1 : Real)] = [.finite 2] := Except.ok.inj hcoord
        exact Extended.finite.inj (List.cons.inj hparams).1
      norm_num at this
    · rw [List.mem_singleton.mp hp] at hv
      obtain rfl := Except.ok.inj ((nmbe_electricity 3).symm.trans hv)
      have := not_lt.mpr hfirst
      refine this (Extended.finite_lt_finite.mpr ?_)
      norm_num

end OSimFlow.Algorithms.Calibration
