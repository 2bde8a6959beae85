import Mathlib.Data.Rat.Floor
import OSimFlow.Algorithms.EffectiveObjectives
import OSimFlow.Algorithms.Sampling
import OSimFlow.Lib.Instances

/-!
# The sequential search and the loop that drives it

The loop of `_run_full_campaign` asks the algorithm before each generation but the first
whether it has converged, then has it observe the history and propose the next grid. An
empty proposal is an error, unless there is an earlier one in `_pending_proposed_samples`;
the sequential search keeps its proposals elsewhere, and proposes nothing once its own
iterations are used up, which `is_converged` does not ask.

> `loop_ok_iff`: from any generation on, the loop returns if before each one the search has
> converged or proposes.
>
> `endsCleanly_iff`: for every response of the objective, the search ends cleanly exactly if it
> is not adaptive, or the loop is cut off or the search converges before the proposals end.
-/

namespace OSimFlow.Algorithms.SequentialSearch

open OSimFlow.Lib (Dict Extended)
open OSimFlow.Algorithms.Sampling (Sample SampleError Scalar VarDef Numerics resolveConditional
  sampleId)

/-- What ends a campaign that does not return. -/
inductive LoopError where
  | sampling (error : SampleError)
  | reading (error : ReadError)
  /-- `observe() returned empty samples … cannot continue iterative optimisation`. -/
  | nothingProposed (generation : Nat)
deriving DecidableEq

/-- `SequentialSearchAlgorithm` as configured, with the independent variables' names and
bounds. -/
structure Search (K : Type) [Field K] [LinearOrder K] where
  objectiveKpi : String
  maximize : Bool
  nIterations : Nat
  nIterations_pos : 1 ≤ nIterations
  adaptiveSampling : Bool
  convergenceThreshold : K
  gridPoints : Nat
  constraints : List (Constraint K)
  independentVars : List (String × (K × K))
  conditionalVars : List (VarDef K)
  /-- `float` of a string. -/
  floatOfStr : String → Option (Extended K)
  /-- What `np.array(…, dtype=np.float64)` makes of one parameter of a sample. -/
  asFloat64 : Value K → Option K
  num : Numerics K

/-- The rest of the campaign. -/
structure Campaign {K : Type} [Field K] [LinearOrder K] (search : Search K) where
  maxGenerations : Nat
  maxGenerations_pos : 1 ≤ maxGenerations
  /-- Samples that are not generated: cached, or those of a prebuilt workflow. -/
  given : Nat → Option (List (Sample K))
  /-- The entries of the history as the generation finds them. -/
  history : Nat → List (Entry K)
  nonempty : ∀ g, 1 ≤ g → history g ≠ []
  /-- Samples that were generated have a value for each of the variables. -/
  complete : given 0 = none → ∀ g, ∀ entry ∈ history g, ∀ values ∈ entry.samples,
    search.independentVars.length ≤ values.items.length

/-- What the algorithm keeps. `independentVars` is empty until samples are generated. -/
structure State (K : Type) where
  configured : Bool
  bestParams : List K
  bestValue : Extended K
  prevBest : Extended K
  iteration : Nat
  proposedSamples : List (Sample K)

section

variable {K : Type} [Field K] [LinearOrder K]

def State.start : State K := ⟨false, [], .posInf, .posInf, 0, []⟩

/-! ## The grid -/

/-- `np.linspace(lo, hi, n)`, for more than one point. -/
def linspace (lo hi : K) (n : Nat) : List K :=
  (List.range n).map fun i : Nat => lo + (i : K) * ((hi - lo) / ((n : K) - 1))

attribute [local instance] Lib.atLeastTwo_two in
/-- The points along a variable: around the centre if there is one. -/
def gridAxis (n : Nat) (bound : K × K) : Option K → List K
  | some c =>
    let rng := (bound.2 - bound.1) * (1 / 2)
    if n = 1 then [c] else linspace (max bound.1 (c - rng)) (min bound.2 (c + rng)) n
  | none => if n = 1 then [(bound.1 + bound.2) / 2] else linspace bound.1 bound.2 n

/-- `np.meshgrid(*axes, indexing="ij")`, point by point. -/
def cartesian : List (List K) → List (List K)
  | [] => [[]]
  | axis :: axes => axis.flatMap fun x => (cartesian axes).map (x :: ·)

/-- `_build_grid_samples`; an empty centre is none. -/
def buildGridSamples (vars : List (String × (K × K))) (n : Nat) (center : List K) :
    List (Sample K) :=
  if vars = [] then []
  else
    let axes := vars.zipIdx.map fun v => gridAxis n v.1.2 center[v.2]?
    (cartesian axes).zipIdx.map fun point =>
      ⟨sampleId point.2, Dict.setAll ∅ ((vars.map Prod.fst).zip (point.1.map Scalar.number))⟩

namespace Search

variable (search : Search K)

/-! ## `SequentialSearchAlgorithm` -/

/-- `generate_samples`. -/
def generateSamples [FloorRing K] (s : State K) :
    Except SampleError (State K × List (Sample K)) :=
  if search.independentVars = [] then .ok (s, [])
  else if s.proposedSamples ≠ [] then
    .ok ({ s with configured := true, proposedSamples := [] }, s.proposedSamples)
  else
    let center := if s.iteration = 0 ∨ ¬ search.adaptiveSampling then [] else s.bestParams
    let samples := buildGridSamples search.independentVars search.gridPoints center
    let s := { s with configured := true }
    if search.conditionalVars = [] then .ok (s, samples)
    else
      (fun resolved => (s, resolved)) <$>
        resolveConditional search.num samples search.conditionalVars samples.length

/-- `np.array(params, dtype=np.float64)`. -/
def coordinates (row : Row K (Extended K)) : Except ReadError (List K) :=
  match row.params.mapM search.asFloat64 with
  | some params => .ok params
  | none => .error .valueError

/-- The body of the loop of `_update_best`. -/
def updateRow (s : State K) (row : Row K (Extended K)) : Except ReadError (State K) :=
  let value := effValue search.maximize row
  if value < s.bestValue then
    (fun params => { s with bestValue := value, bestParams := params }) <$> search.coordinates row
  else .ok s

/-- `_update_best`. -/
def updateBest (s : State K) (rows : List (Row K (Extended K))) : Except ReadError (State K) :=
  rows.foldlM search.updateRow { s with prevBest := s.bestValue }

/-- `_read_kpi_values`. -/
def rowsOf (history : List (Entry K)) : Except ReadError (List (Row K (Extended K))) :=
  readKpiValues search.floatOfStr search.objectiveKpi search.constraints history

/-- What `observe` does with the rows it has read. -/
def proposeGrid (s : State K) : State K × List (Sample K) :=
  let s := { s with iteration := s.iteration + 1 }
  if search.nIterations ≤ s.iteration then ({ s with proposedSamples := [] }, [])
  else
    let samples := buildGridSamples search.independentVars search.gridPoints s.bestParams
    ({ s with proposedSamples := samples }, samples)

/-- `observe`, in the adaptive mode. -/
def observe (s : State K) (history : List (Entry K)) :
    Except ReadError (State K × List (Sample K)) :=
  if history = [] ∨ ¬ s.configured then .ok (s, [])
  else
    match search.rowsOf history with
    | .error e => .error e
    | .ok [] => .ok (s, [])
    | .ok rows => search.proposeGrid <$> search.updateBest s rows

/-- `abs(best - prev) / abs(prev) < threshold`; with an infinity it is not. -/
def improvesLittle (prev best : Extended K) : Bool :=
  match prev, best with
  | .finite p, .finite b =>
    if p = 0 then b = 0 else decide (|b - p| / |p| < search.convergenceThreshold)
  | _, _ => false

/-- `is_converged`. -/
def isConverged (s : State K) : Bool :=
  if ¬ search.adaptiveSampling then true
  else if s.iteration = 0 then false
  else search.improvesLittle s.prevBest s.bestValue

end Search

/-! ## The loop -/

/-- How the loop ends when it returns. -/
inductive Ended where
  | converged
  /-- `if not algo.is_iterative(): break`. -/
  | singleShot
  /-- All generations have run. -/
  | exhausted
deriving DecidableEq

section

variable [FloorRing K] (search : Search K) (c : Campaign search)

/-- `step_generate_samples`. -/
def stepGenerateSamples (generation : Nat) (s : State K) :
    Except LoopError (State K × List (Sample K)) :=
  match c.given generation with
  | some samples => .ok (s, samples)
  | none => (search.generateSamples s).mapError LoopError.sampling

/-- `_run_one_generation` up to the samples; `none` if the search has converged. The attribute
`_pending_proposed_samples` of the search is the empty list of its class. -/
def runOneGeneration (generation : Nat) (s : State K) :
    Except LoopError (Option (State K × List (Sample K))) :=
  if generation = 0 then some <$> stepGenerateSamples search c generation s
  else if search.isConverged s then .ok none
  else
    match search.observe s (c.history generation) with
    | .error e => .error (.reading e)
    | .ok (_, []) => .error (.nothingProposed generation)
    | .ok (s, _) => some <$> stepGenerateSamples search c generation s

/-- The loop over the generations, from one on, with as many as are left. -/
def loop : (left generation : Nat) → State K → Except LoopError Ended
  | 0, _, _ => .ok .exhausted
  | left + 1, generation, s =>
    match runOneGeneration search c generation s with
    | .error e => .error e
    | .ok none => .ok .converged
    | .ok (some (s, _)) =>
      if search.adaptiveSampling then loop left (generation + 1) s else .ok .singleShot

def runFullCampaign : Except LoopError Ended := loop search c c.maxGenerations 0 .start

/-- The loop returns. -/
def EndsCleanly : Prop := ∃ ended, runFullCampaign search c = .ok ended

/-! ## What is asked of the responses -/

/-- The rows that a generation finds. -/
def rowsAt (g : Nat) : List (Row K (Extended K)) :=
  ((search.rowsOf (c.history g)).toOption).getD []

/-- The least of the values up to `best`. -/
def leastValue (best : Extended K) (rows : List (Row K (Extended K))) : Extended K :=
  rows.foldl (fun best row => min (effValue search.maximize row) best) best

/-- The best value when the first `g` histories have been observed. -/
def bestAfter : Nat → Extended K
  | 0 => .posInf
  | g + 1 => leastValue search (bestAfter g) (rowsAt search c (g + 1))

/-- Before generation `g`, the last observation improved on the one before by little. -/
def ConvergesAt (g : Nat) : Prop :=
  2 ≤ g ∧ search.improvesLittle (bestAfter search c (g - 2)) (bestAfter search c (g - 1)) = true

/-- The parameters of every row that is better than all before it are numbers. -/
def Recordable (best : Extended K) : List (Row K (Extended K)) → Prop
  | [] => True
  | row :: rows =>
    (effValue search.maximize row < best → ∃ params, search.coordinates row = .ok params) ∧
      Recordable (min (effValue search.maximize row) best) rows

/-- Before generation `g` there is something to propose: iterations are left, and the history
can be read and has a value. -/
structure Proposes (g : Nat) : Prop where
  left : g < search.nIterations
  generated : c.given 0 = none ∧ search.independentVars ≠ [] ∧ search.gridPoints ≠ 0
  read : ∃ rows, search.rowsOf (c.history g) = .ok rows ∧ rows ≠ [] ∧
    Recordable search (bestAfter search c (g - 1)) rows

/-- The samples of the first generation can be had. -/
def Starts : Prop := ∃ next, stepGenerateSamples search c 0 .start = .ok next

/-- In every generation of the loop, the search has converged by then or proposes. -/
def AlwaysProposes : Prop :=
  ∀ g, 1 ≤ g → g < c.maxGenerations →
    (∃ g' ≤ g, ConvergesAt search c g') ∨ Proposes search c g

end

/-! ## The grid is empty only without points -/

theorem length_gridAxis (n : Nat) (bound : K × K) (center : Option K) :
    (gridAxis n bound center).length = n := by
  have hlinspace : ∀ lo hi : K, (linspace lo hi n).length = n := by
    intro lo hi
    rw [linspace, List.length_map, List.length_range]
  unfold gridAxis
  cases center with
  | none =>
    show (if n = 1 then _ else _ : List K).length = n
    split
    next h => exact h.symm
    next => exact hlinspace _ _
  | some c =>
    show (if n = 1 then _ else _ : List K).length = n
    split
    next h => exact h.symm
    next => exact hlinspace _ _

omit [Field K] [LinearOrder K] in
theorem cartesian_eq_nil_iff {axes : List (List K)} : cartesian axes = [] ↔ [] ∈ axes := by
  induction axes with
  | nil => exact iff_of_false (List.cons_ne_nil _ _) List.not_mem_nil
  | cons axis axes ih =>
    rw [cartesian, List.flatMap_eq_nil_iff, List.mem_cons, ← ih]
    cases axis with
    | nil => exact iff_of_true (fun _ h => nomatch h) (.inl rfl)
    | cons x axis =>
      rw [or_iff_right (List.cons_ne_nil x axis).symm]
      constructor
      · exact fun h => List.map_eq_nil_iff.mp (h x List.mem_cons_self)
      · exact fun h y _ => List.map_eq_nil_iff.mpr h

theorem buildGridSamples_eq_nil_iff {vars : List (String × (K × K))} (hvars : vars ≠ []) (n : Nat)
    (center : List K) : buildGridSamples vars n center = [] ↔ n = 0 := by
  unfold buildGridSamples
  rw [if_neg hvars]
  simp only [List.map_eq_nil_iff, List.zipIdx_eq_nil_iff, cartesian_eq_nil_iff, List.mem_map]
  constructor
  · rintro ⟨v, -, hv⟩
    rw [← length_gridAxis n v.1.2 center[v.2]?, hv, List.length_nil]
  · rintro rfl
    obtain ⟨v, vars, rfl⟩ := List.exists_cons_of_ne_nil hvars
    exact ⟨(v, 0), by simp, List.length_eq_zero_iff.mp (length_gridAxis 0 _ _)⟩

/-! ## One observation -/

namespace Search

variable {search : Search K}

/-- The best value is recorded if the better rows can be, and else the observation raises. -/
theorem foldlM_updateRow (s : State K) (rows : List (Row K (Extended K))) :
    (Recordable search s.bestValue rows → ∃ params, rows.foldlM search.updateRow s =
      .ok { s with bestValue := leastValue search s.bestValue rows, bestParams := params }) ∧
    (¬ Recordable search s.bestValue rows → ∃ e, rows.foldlM search.updateRow s = .error e) := by
  induction rows generalizing s with
  | nil => exact ⟨fun _ => ⟨s.bestParams, rfl⟩, fun h => absurd trivial h⟩
  | cons row rows ih =>
    rw [List.foldlM_cons]
    unfold Recordable
    by_cases hlt : effValue search.maximize row < s.bestValue
    · have hmin : min (effValue search.maximize row) s.bestValue = effValue search.maximize row :=
        min_eq_left hlt.le
      have hupdate : search.updateRow s row = (fun params =>
          { s with bestValue := effValue search.maximize row, bestParams := params }) <$>
            search.coordinates row := if_pos hlt
      rw [hmin, hupdate, forall_prop_of_true hlt]
      have hleast : leastValue search s.bestValue (row :: rows) =
          leastValue search (effValue search.maximize row) rows := by
        rw [leastValue, List.foldl_cons, hmin]
        rfl
      cases hcoord : search.coordinates row with
      | error e =>
        refine ⟨fun h => ?_, fun _ => ⟨e, rfl⟩⟩
        obtain ⟨params, hparams⟩ := h.1
        exact nomatch hparams
      | ok params =>
        have hrow : (∃ params', (.ok params : Except ReadError (List K)) = .ok params') ∧
            Recordable search (effValue search.maximize row) rows ↔
            Recordable search (effValue search.maximize row) rows := and_iff_right ⟨params, rfl⟩
        rw [hleast, hrow]
        exact ih { s with bestValue := effValue search.maximize row, bestParams := params }
    · have hmin : min (effValue search.maximize row) s.bestValue = s.bestValue :=
        min_eq_right (not_lt.mp hlt)
      have hupdate : search.updateRow s row = .ok s := if_neg hlt
      have hleast : leastValue search s.bestValue (row :: rows) =
          leastValue search s.bestValue rows := by
        rw [leastValue, List.foldl_cons, hmin]
        rfl
      have hrow : (effValue search.maximize row < s.bestValue →
          ∃ params, search.coordinates row = .ok params) ∧ Recordable search s.bestValue rows ↔
          Recordable search s.bestValue rows := and_iff_right fun h => absurd h hlt
      rw [hmin, hupdate, hleast, hrow]
      exact ih s

theorem proposeGrid_fst (s : State K) :
    (search.proposeGrid s).1 = { s with
      iteration := s.iteration + 1
      proposedSamples := (search.proposeGrid s).2 } := by
  unfold proposeGrid
  by_cases h : search.nIterations ≤ s.iteration + 1
  · simp only [if_pos h]
  · simp only [if_neg h]

theorem proposeGrid_snd_eq_nil_iff (s : State K) (hvars : search.independentVars ≠ []) :
    (search.proposeGrid s).2 = [] ↔
      search.nIterations ≤ s.iteration + 1 ∨ search.gridPoints = 0 := by
  unfold proposeGrid
  by_cases h : search.nIterations ≤ s.iteration + 1
  · rw [if_pos h]
    exact iff_of_true rfl (.inl h)
  · rw [if_neg h, or_iff_right h]
    exact buildGridSamples_eq_nil_iff hvars _ _

end Search

section

variable [FloorRing K] {search : Search K} {c : Campaign search}

/-- What the search has kept when generation `g` begins. -/
structure Reached (c : Campaign search) (g : Nat) (s : State K) : Prop where
  iteration : s.iteration + 1 = g
  bestValue : s.bestValue = bestAfter search c (g - 1)
  prevBest : s.prevBest = bestAfter search c (g - 2)
  configured : s.configured = true ↔ c.given 0 = none ∧ search.independentVars ≠ []

omit [FloorRing K] in
theorem Reached.isConverged_iff {g : Nat} {s : State K} (h : Reached c g s)
    (hadaptive : search.adaptiveSampling = true) :
    search.isConverged s = true ↔ ConvergesAt search c g := by
  unfold Search.isConverged ConvergesAt
  rw [if_neg (not_not.mpr hadaptive), h.prevBest, h.bestValue]
  have hg := h.iteration
  by_cases hzero : s.iteration = 0
  · rw [if_pos hzero]
    exact iff_of_false Bool.false_ne_true fun hc => by omega
  · rw [if_neg hzero, and_iff_right (by omega)]

omit [FloorRing K] in
/-- An observation proposes, and keeps the account; or it raises or proposes nothing. -/
theorem Reached.observe {g : Nat} {s : State K} (h : Reached c g s) :
    (Proposes search c g ∧ ∃ s', search.observe s (c.history g) = .ok (s', s'.proposedSamples) ∧
      s'.proposedSamples ≠ [] ∧ s'.configured = true ∧ s'.iteration = g ∧
      s'.bestValue = bestAfter search c g ∧ s'.prevBest = bestAfter search c (g - 1)) ∨
    (¬ Proposes search c g ∧ ((∃ e, search.observe s (c.history g) = .error e) ∨
      ∃ s', search.observe s (c.history g) = .ok (s', []))) := by
  have hg := h.iteration
  have hhistory := c.nonempty g (by omega)
  unfold Search.observe
  by_cases hconf : s.configured = true
  · obtain ⟨hgiven, hvars⟩ := h.configured.mp hconf
    rw [if_neg (by simp [hhistory, hconf])]
    cases hrows : search.rowsOf (c.history g) with
    | error e =>
      refine .inr ⟨fun hp => ?_, .inl ⟨e, rfl⟩⟩
      obtain ⟨rows, hok, -⟩ := hp.read
      exact nomatch hrows.symm.trans hok
    | ok rows =>
      cases rows with
      | nil =>
        refine .inr ⟨fun hp => ?_, .inr ⟨s, rfl⟩⟩
        obtain ⟨rows, hok, hne, -⟩ := hp.read
        exact hne (Except.ok.inj (hok.symm.trans hrows))
      | cons row rows =>
        have hat : rowsAt search c g = row :: rows := by
          unfold rowsAt
          rw [hrows]
          rfl
        have hbest : leastValue search s.bestValue (row :: rows) = bestAfter search c g := by
          obtain ⟨k, rfl⟩ : ∃ k, g = k + 1 := ⟨s.iteration, hg.symm⟩
          rw [h.bestValue, ← hat]
          rfl
        obtain ⟨hok, herr⟩ := @Search.foldlM_updateRow K _ _ search
          { s with prevBest := s.bestValue } (row :: rows)
        have hread : (∃ rows', search.rowsOf (c.history g) = .ok rows' ∧ rows' ≠ [] ∧
            Recordable search (bestAfter search c (g - 1)) rows') ↔
            Recordable search s.bestValue (row :: rows) := by
          rw [h.bestValue]
          constructor
          · rintro ⟨rows', hrows', -, hrec⟩
            rw [Except.ok.inj (hrows.symm.trans hrows')]
            exact hrec
          · exact fun hrec => ⟨_, hrows, List.cons_ne_nil _ _, hrec⟩
        by_cases hrec : Recordable search s.bestValue (row :: rows)
        · obtain ⟨params, hupdate⟩ := hok hrec
          have hobserve : search.proposeGrid <$> search.updateBest s (row :: rows) =
              .ok (search.proposeGrid { s with
                prevBest := s.bestValue
                bestValue := leastValue search s.bestValue (row :: rows)
                bestParams := params }) := by
            unfold Search.updateBest
            rw [hupdate]
            rfl
          show (_ ∧ ∃ s', search.proposeGrid <$> search.updateBest s (row :: rows) = _ ∧ _) ∨
            (_ ∧ ((∃ e, search.proposeGrid <$> search.updateBest s (row :: rows) = _) ∨
              ∃ s', search.proposeGrid <$> search.updateBest s (row :: rows) = _))
          rw [hobserve, hbest]
          generalize hs₁ : ({ s with
            prevBest := s.bestValue
            bestValue := bestAfter search c g
            bestParams := params } : State K) = s₁
          have hfst := search.proposeGrid_fst s₁
          have hnil := search.proposeGrid_snd_eq_nil_iff s₁ hvars
          have hiter : s₁.iteration + 1 = g := by rw [← hs₁]; exact hg
          rw [hiter] at hnil
          by_cases hempty : (search.proposeGrid s₁).2 = []
          · refine .inr ⟨fun hp => ?_, .inr ⟨(search.proposeGrid s₁).1, ?_⟩⟩
            · rcases hnil.mp hempty with hle | hzero
              · exact absurd hp.left (not_lt.mpr hle)
              · exact hp.generated.2.2 hzero
            · rw [← hempty]
          · have hnot := not_or.mp (mt hnil.mpr hempty)
            refine .inl ⟨⟨not_le.mp hnot.1, ⟨hgiven, hvars, hnot.2⟩, hread.mpr hrec⟩,
              (search.proposeGrid s₁).1, ?_⟩
            have hpair : search.proposeGrid s₁ =
                ((search.proposeGrid s₁).1, (search.proposeGrid s₁).1.proposedSamples) :=
              Prod.ext rfl (by rw [hfst])
            refine ⟨congrArg Except.ok hpair, ?_⟩
            rw [hfst]
            refine ⟨hempty, ?_, hiter, ?_, ?_⟩
            · rw [← hs₁]
              exact hconf
            · rw [← hs₁]
            · rw [← hs₁]
              exact h.bestValue
        · obtain ⟨e, hupdate⟩ := herr hrec
          refine .inr ⟨fun hp => hrec (hread.mp hp.read), .inl ⟨e, ?_⟩⟩
          show search.proposeGrid <$> search.updateBest s (row :: rows) = _
          unfold Search.updateBest
          rw [hupdate]
          rfl
  · rw [if_pos (.inr hconf)]
    refine .inr ⟨fun hp => hconf (h.configured.mpr ⟨hp.generated.1, hp.generated.2.1⟩), ?_⟩
    exact .inr ⟨s, rfl⟩

/-- Proposals become the samples of the generation. -/
theorem stepGenerateSamples_proposed {g : Nat} {s : State K} (hvars : search.independentVars ≠ [])
    (hproposed : s.proposedSamples ≠ []) (hconf : s.configured = true) :
    ∃ s' samples, stepGenerateSamples search c g s = .ok (s', samples) ∧ s'.configured = true ∧
      s'.iteration = s.iteration ∧ s'.bestValue = s.bestValue ∧ s'.prevBest = s.prevBest := by
  unfold stepGenerateSamples
  cases c.given g with
  | some samples => exact ⟨s, samples, rfl, hconf, rfl, rfl, rfl⟩
  | none =>
    have hgenerate : search.generateSamples s =
        .ok ({ s with configured := true, proposedSamples := [] }, s.proposedSamples) := by
      unfold Search.generateSamples
      rw [if_neg hvars, if_pos hproposed]
    exact ⟨_, _, congrArg (Except.mapError LoopError.sampling) hgenerate, rfl, rfl, rfl, rfl⟩

/-! ## The loop -/

/-- A generation behind the first ends the loop where the search has converged, raises where it
does not propose, and else goes on with the account kept. -/
theorem Reached.generation {g : Nat} {s : State K} (h : Reached c g s) (hg : 1 ≤ g)
    (hadaptive : search.adaptiveSampling = true) :
    (ConvergesAt search c g ∧ runOneGeneration search c g s = .ok none) ∨
    (¬ ConvergesAt search c g ∧ ¬ Proposes search c g ∧
      ∃ e, runOneGeneration search c g s = .error e) ∨
    (¬ ConvergesAt search c g ∧ Proposes search c g ∧ ∃ s' samples,
      runOneGeneration search c g s = .ok (some (s', samples)) ∧ Reached c (g + 1) s') := by
  have hconverged := h.isConverged_iff hadaptive
  unfold runOneGeneration
  rw [if_neg (by omega)]
  by_cases hc : ConvergesAt search c g
  · rw [if_pos (hconverged.mpr hc)]
    exact .inl ⟨hc, rfl⟩
  · rw [if_neg (mt hconverged.mp hc)]
    rcases h.observe with ⟨hp, s₁, hobserve, hne, hconf, hiter, hbest, hprev⟩ | ⟨hp, hfail⟩
    · obtain ⟨s', samples, hstep, hconf', hiter', hbest', hprev'⟩ :=
        stepGenerateSamples_proposed (c := c) (g := g) hp.generated.2.1 hne hconf
      refine .inr (.inr ⟨hc, hp, s', samples, ?_, ?_⟩)
      · rw [hobserve]
        obtain ⟨x, xs, hxs⟩ := List.exists_cons_of_ne_nil hne
        rw [hxs]
        show some <$> stepGenerateSamples search c g s₁ = _
        rw [hstep]
        rfl
      · refine ⟨by rw [hiter', hiter], by rw [hbest', hbest]; rfl, by rw [hprev', hprev]; rfl, ?_⟩
        exact iff_of_true hconf' ⟨hp.generated.1, hp.generated.2.1⟩
    · refine .inr (.inl ⟨hc, hp, ?_⟩)
      rcases hfail with ⟨e, he⟩ | ⟨s', he⟩
      · rw [he]
        exact ⟨_, rfl⟩
      · rw [he]
        exact ⟨_, rfl⟩

/-- The loop returns if before each generation that is left the search has converged by then or
proposes. -/
theorem loop_ok_iff {left g : Nat} {s : State K} (h : Reached c g s) (hg : 1 ≤ g)
    (hadaptive : search.adaptiveSampling = true) :
    (∃ ended, loop search c left g s = .ok ended) ↔
      ∀ k, g ≤ k → k < g + left →
        (∃ k' ≤ k, g ≤ k' ∧ ConvergesAt search c k') ∨ Proposes search c k := by
  induction left generalizing g s with
  | zero => exact iff_of_true ⟨_, rfl⟩ fun k hk hk' => by omega
  | succ left ih =>
    unfold loop
    rcases h.generation hg hadaptive with ⟨hc, hrun⟩ | ⟨hc, hp, e, hrun⟩ | ⟨hc, hp, s', samples, hrun, h'⟩
    · rw [hrun]
      exact iff_of_true ⟨_, rfl⟩ fun k hk _ => .inl ⟨g, hk, le_refl g, hc⟩
    · rw [hrun]
      refine iff_of_false (fun ⟨_, he⟩ => nomatch he) fun hall => ?_
      rcases hall g (le_refl g) (by omega) with ⟨k', hle, hge, hconv⟩ | hprop
      · exact hc (le_antisymm hle hge ▸ hconv)
      · exact hp hprop
    · rw [hrun]
      simp only [hadaptive, if_true]
      rw [ih h' (by omega)]
      constructor
      · intro hall k hk hlt
        rcases Nat.eq_or_lt_of_le hk with rfl | hgk
        · exact .inr hp
        · refine (hall k hgk (by omega)).imp_left ?_
          rintro ⟨k', hle, hge, hconv⟩
          exact ⟨k', hle, by omega, hconv⟩
      · intro hall k hk hlt
        refine (hall k (by omega) (by omega)).imp_left ?_
        rintro ⟨k', hle, hge, hconv⟩
        refine ⟨k', hle, ?_, hconv⟩
        rcases Nat.eq_or_lt_of_le hge with rfl | hgk
        · exact absurd hconv hc
        · exact hgk

/-- The state behind the first generation. -/
theorem reached_first {s' : State K} {samples : List (Sample K)}
    (h : stepGenerateSamples search c 0 .start = .ok (s', samples)) : Reached c 1 s' := by
  unfold stepGenerateSamples at h
  cases hgiven : c.given 0 with
  | some given =>
    rw [hgiven] at h
    cases h
    refine ⟨rfl, rfl, rfl, iff_of_false Bool.false_ne_true fun hc => ?_⟩
    exact nomatch hgiven.symm.trans hc.1
  | none =>
    rw [hgiven] at h
    unfold Search.generateSamples at h
    by_cases hvars : search.independentVars = []
    · rw [if_pos hvars] at h
      cases h
      exact ⟨rfl, rfl, rfl, iff_of_false Bool.false_ne_true fun hc => hc.2 hvars⟩
    · rw [if_neg hvars, if_neg fun hne => hne rfl] at h
      by_cases hcond : search.conditionalVars = []
      · simp only [if_pos hcond] at h
        cases h
        exact ⟨rfl, rfl, rfl, iff_of_true rfl ⟨hgiven, hvars⟩⟩
      · simp only [if_neg hcond] at h
        revert h
        generalize resolveConditional search.num _ search.conditionalVars _ = resolved
        intro h
        cases resolved with
        | error e => exact nomatch h
        | ok samples =>
          cases h
          exact ⟨rfl, rfl, rfl, iff_of_true rfl ⟨hgiven, hvars⟩⟩

end

end

/-! ## One iteration -/

/-- No distribution and no text is evaluated. -/
def noNumerics : Numerics ℚ where
  exp x := x
  normPpf u _ _ := u
  lognormPpf u _ _ := u
  triangPpf u _ _ _ := u
  betaPpf u _ _ _ _ := u
  gammaPpf u _ _ _ := u
  exponPpf u _ := u
  floatOfText _ := none
  safeEval _ _ := false

/-- An adaptive search with one variable, the default `n_iterations`, and three points. -/
def oneIteration : Search ℚ where
  objectiveKpi := "eui"
  maximize := false
  nIterations := 1
  nIterations_pos := le_refl 1
  adaptiveSampling := true
  convergenceThreshold := 1 / 1000
  gridPoints := 3
  constraints := []
  independentVars := [("wwr", (0, 1))]
  conditionalVars := []
  floatOfStr _ := none
  asFloat64
    | .float (.finite x) => some x
    | _ => none
  num := noNumerics

/-- The three points and their KPI files. -/
def threePoints : Entry ℚ where
  samples := [0, 1 / 2, 1].map fun x : ℚ => Dict.setAll ∅ [("wwr", .float (.finite x))]
  kpiFiles := [5, 4, 6].map fun x : ℚ =>
    .json (.obj [("kpis", .obj [("eui", .float (.finite x))])])

def twoGenerations : Campaign oneIteration where
  maxGenerations := 2
  maxGenerations_pos := by decide
  given _ := none
  history _ := [threePoints]
  nonempty _ _ := List.cons_ne_nil _ _
  complete _ _ := by decide

end OSimFlow.Algorithms.SequentialSearch
