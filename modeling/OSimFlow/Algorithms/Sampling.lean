import Mathlib.Algebra.Order.Floor.Ring
import OSimFlow.Lib.Dict
import OSimFlow.Lib.Padded

/-!
# What the single-shot samplers share

The variables of `variables.yml`, the map from a unit coordinate through the inverse
distribution function, the resolution of conditional variables, and the samplers that
give the bounds of the variables to SALib.

SciPy's inverse distribution functions and SALib's designs are parameters. Floats are
elements of an ordered field.
-/

namespace OSimFlow.Algorithms.Sampling

open OSimFlow.Lib (Dict padded padded_injective)

/-! ## Variables -/

/-- A value of a variable; numbers are told apart as `==` does. -/
inductive Scalar (K : Type) where
  | null
  | text (s : String)
  | number (x : K)
deriving DecidableEq

inductive Distribution where
  | uniform
  | normal
  | lognormal
  | triangular
  | beta
  | gamma
  | exponential
  | discrete
  | categorical
  | static
  | conditional
  | other (name : String)
deriving DecidableEq

/-- The keys of a definition that the distributions read. -/
structure Params (K : Type) where
  min : Option K := none
  max : Option K := none
  mean : Option K := none
  sigma : Option K := none
  mode : Option K := none
  alpha : Option K := none
  beta : Option K := none
  loc : Option K := none
  scale : Option K := none
  rate : Option K := none
  value : Scalar K := .null
  values : Option (List (Scalar K)) := none
  pmf : Option (List (Scalar K × K)) := none

/-- An entry of `conditions`. -/
structure Rule (K : Type) where
  distribution : Option Distribution := none
  params : Params K

/-- An entry of `variables`. The last three keys are those of a conditional variable:
`depends_on.variable`, `depends_on.match` and `conditions`. -/
structure VarDef (K : Type) where
  name : String
  distribution : Option Distribution
  params : Params K
  parent : String := ""
  condition : String := "True"
  conditions : List (Rule K) := []

/-- `{"sample_id": …, "values": …}`. -/
structure Sample (K : Type) where
  sampleId : String
  values : Dict String (Scalar K)

inductive SampleError where
  | valueError
  | keyError
  | typeError
  | indexError
  | zeroDivisionError
  | notImplementedError
  | unboundLocalError
  | runtimeError (message : String)
deriving DecidableEq

/-- `except (ValueError, NotImplementedError) as exc: raise RuntimeError(message)`. -/
def wrapErrors {α : Type} (message : String) : Except SampleError α → Except SampleError α
  | .error .valueError | .error .notImplementedError => .error (.runtimeError message)
  | result => result

/-- The inverse distribution functions of `scipy.stats`, and what Python computes. -/
structure Numerics (K : Type) where
  exp : K → K
  normPpf : (u loc scale : K) → K
  lognormPpf : (u s scale : K) → K
  triangPpf : (u c loc scale : K) → K
  betaPpf : (u a b loc scale : K) → K
  gammaPpf : (u a loc scale : K) → K
  exponPpf : (u scale : K) → K
  /-- `float` of a string. -/
  floatOfText : String → Option K
  /-- Whether a `match` expression holds for the parent's value; an error counts as no. -/
  safeEval : String → Scalar K → Bool

/-- `params[key]`. -/
def require {α : Type} : Option α → Except SampleError α
  | none => .error .keyError
  | some a => .ok a

/-- `_partition_variables`. -/
def partitionVariables {K : Type} (varList : List (VarDef K)) :
    List (VarDef K) × List (VarDef K) :=
  (varList.filter fun v => v.distribution ≠ some .conditional,
    varList.filter fun v => v.distribution = some .conditional)

section

variable {K : Type} [Field K] [LinearOrder K]

/-! ## `_apply_distribution` -/

/-- `round(x)`: half to even. -/
def pyRound [FloorRing K] (x : K) : Int :=
  let n := ⌊x⌋
  if x - n < 1 / 2 then n
  else if 1 / 2 < x - n then n + 1
  else if n % 2 = 0 then n else n + 1

/-- `l[i]`; a negative index counts from the end. -/
def pyIndex {α : Type} (l : List α) (i : Int) : Except SampleError α :=
  match l[(if i < 0 then i + l.length else i).toNat]? with
  | none => .error .indexError
  | some a => if i + l.length < 0 then .error .indexError else .ok a

/-- The loop of `bisect.bisect_right` on `a[lo:hi]`; each turn halves what is left. -/
def bisectLoop (a : List K) (x : K) : Nat → Nat → Nat → Nat
  | 0, lo, _ => lo
  | fuel + 1, lo, hi =>
    if lo < hi then
      if x < a.getD ((lo + hi) / 2) 0 then bisectLoop a x fuel lo ((lo + hi) / 2)
      else bisectLoop a x fuel ((lo + hi) / 2 + 1) hi
    else lo

/-- `bisect.bisect_right(a, x)`. -/
def bisectRight (a : List K) (x : K) : Nat := bisectLoop a x a.length 0 a.length

/-- `np.cumsum` behind a partial sum. -/
def cumsum (acc : K) : List K → List K
  | [] => []
  | p :: ps => (acc + p) :: cumsum (acc + p) ps

/-- The cumulative distribution of the normalised probabilities. -/
def cdf (pmf : List (Scalar K × K)) : List K :=
  cumsum 0 ((pmf.map Prod.snd).map fun p => p / (pmf.map Prod.snd).sum)

/-- The branch for `discrete` and `categorical`. -/
def applyDiscrete [FloorRing K] (u : K) (params : Params K) : Except SampleError (Scalar K) :=
  match params.values with
  | none => .error .keyError
  | some values =>
    match params.pmf with
    | none => pyIndex values (pyRound (u * (values.length - 1)))
    | some pmf =>
      pyIndex (pmf.map Prod.fst) (min (bisectRight (cdf pmf) u : Int) (pmf.length - 1))

/-- `_ppf_triangular`. -/
def ppfTriangular (num : Numerics K) (u left right : K) (mode : Option K) :
    Except SampleError K :=
  match mode with
  | none => .ok (num.triangPpf u (1 / 2) left (right - left))
  | some m =>
    if right - left = 0 then .error .zeroDivisionError
    else .ok (num.triangPpf u ((m - left) / (right - left)) left (right - left))

/-- The table of continuous distributions. -/
def ppf (num : Numerics K) (u : K) (dist : Distribution) (params : Params K) :
    Except SampleError K :=
  match dist with
  | .uniform => do
    let min ← require params.min
    let max ← require params.max
    return min + u * (max - min)
  | .normal => do
    let mean ← require params.mean
    let sigma ← require params.sigma
    return num.normPpf u mean sigma
  | .lognormal => do
    let sigma ← require params.sigma
    let mean ← require params.mean
    return num.lognormPpf u sigma (num.exp mean)
  | .triangular => do
    let left ← require params.min
    let right ← require params.max
    ppfTriangular num u left right params.mode
  | .beta => do
    let a ← require params.alpha
    let b ← require params.beta
    return num.betaPpf u a b (params.loc.getD 0) (params.scale.getD 1)
  | .gamma => do
    let a ← require params.alpha
    return num.gammaPpf u a (params.loc.getD 0) (params.scale.getD 1)
  | .exponential => do
    let rate ← require params.rate
    return num.exponPpf u rate
  | _ => .error .notImplementedError

/-- `_apply_distribution`, for the name of a distribution. -/
def applyDistribution [FloorRing K] (num : Numerics K) (u : K) (dist : Distribution)
    (params : Params K) : Except SampleError (Scalar K) :=
  match dist with
  | .static =>
    match params.value with
    | .null => .error .valueError
    | value => .ok value
  | .discrete | .categorical => applyDiscrete u params
  | dist => .number <$> ppf num u dist params

/-! ## `_resolve_conditional` -/

/-- What the function keeps between two samples: its local `rule_dist`, unbound until a
condition has matched, and `resolved_count`. -/
structure Resolving (K : Type) where
  ruleDist : Option Distribution
  resolved : Nat
  samples : List (Sample K)

/-- The body of the loop over the samples. The loop over the rules is left at its first
turn: only the assignment of `rule_dist` stands under the `if`. -/
def resolveSample [FloorRing K] (num : Numerics K) (v : VarDef K) (r : Resolving K)
    (s : Sample K) : Except SampleError (Resolving K) :=
  match (s.values.get? v.parent).getD .null, v.conditions with
  | .null, _ | _, [] => .ok { r with samples := r.samples ++ [s] }
  | parentVal, rule :: _ =>
    let ruleDist :=
      if num.safeEval v.condition parentVal then some (rule.distribution.getD .uniform)
      else r.ruleDist
    match ruleDist with
    | none => .error .unboundLocalError
    | some dist =>
      match applyDistribution num (1 / 2) dist rule.params with
      | .error e => .error e
      | .ok value =>
        .ok ⟨ruleDist, r.resolved + 1,
          r.samples ++ [{ s with values := s.values.set v.name value }]⟩

/-- The `while` loop with what `max_iter` leaves of it. -/
def resolveLoop [FloorRing K] (num : Numerics K) (n : Nat) :
    Nat → List (VarDef K) → Option Distribution → List (Sample K) →
      Except SampleError (List (Sample K))
  | 0, _, _, samples => .ok samples
  | _ + 1, [], _, samples => .ok samples
  | fuel + 1, v :: queue, ruleDist, samples =>
    match samples.foldlM (resolveSample num v) ⟨ruleDist, 0, []⟩ with
    | .error e => .error e
    | .ok r =>
      resolveLoop num n fuel (if r.resolved < n then queue ++ [v] else queue) r.ruleDist r.samples

/-- `_resolve_conditional`. -/
def resolveConditional [FloorRing K] (num : Numerics K) (samples : List (Sample K))
    (conditionalVars : List (VarDef K)) (n : Nat) : Except SampleError (List (Sample K)) :=
  resolveLoop num n (conditionalVars.length * 2) conditionalVars none samples

/-! ## The samplers over SALib -/

/-- The problem given to SALib. -/
structure Problem (K : Type) where
  names : List String
  bounds : List (K × K)

/-- `f"{i + 1:04d}"`. -/
def sampleId (i : Nat) : String := padded 4 (i + 1)

/-- `min(values)` or `max(values)`: numbers or strings. -/
def extreme (better : Scalar K → Scalar K → Bool) : List (Scalar K) → Except SampleError (Scalar K)
  | [] => .error .valueError
  | v :: vs =>
    if vs.all fun w =>
      match v, w with
      | .number _, .number _ | .text _, .text _ => true
      | _, _ => false
    then .ok (vs.foldl (fun best w => if better w best then w else best) v)
    else .error .typeError

/-- `<` between values of one kind. -/
def Scalar.lt : Scalar K → Scalar K → Bool
  | .number x, .number y => decide (x < y)
  | .text s, .text t => decide (s < t)
  | _, _ => false

/-- `float(value)`. -/
def Scalar.toFloat (num : Numerics K) : Scalar K → Except SampleError K
  | .number x => .ok x
  | .text s => (num.floatOfText s).elim (.error .valueError) .ok
  | .null => .error .typeError

/-- `Q_LOW` and `Q_HIGH`. -/
def qLow : K := 5 / 10000

def qHigh : K := 9995 / 10000

/-- The tails of a distribution, as bounds. -/
def tails (quantile : K → K) : K × K := (quantile qLow, quantile qHigh)

/-- The bounds of a variable in `_build_salib_problem` of `sobol.py`. -/
def sobolBounds (num : Numerics K) (v : VarDef K) : Except SampleError (K × K) :=
  match v.distribution.getD .uniform with
  | .uniform | .triangular => do
    let min ← require v.params.min
    let max ← require v.params.max
    return (min, max)
  | .normal => do
    let mean ← require v.params.mean
    let sigma ← require v.params.sigma
    return tails fun u => num.normPpf u mean sigma
  | .lognormal => do
    let mean ← require v.params.mean
    let sigma ← require v.params.sigma
    return tails fun u => num.lognormPpf u sigma (num.exp mean)
  | .discrete | .categorical => do
    let values ← require v.params.values
    let low ← extreme Scalar.lt values
    let min ← low.toFloat num
    let high ← extreme (fun a b => b.lt a) values
    let max ← high.toFloat num
    return (min, max)
  | .beta => do
    let a ← require v.params.alpha
    let b ← require v.params.beta
    return tails fun u => num.betaPpf u a b (v.params.loc.getD 0) (v.params.scale.getD 1)
  | .gamma => do
    let a ← require v.params.alpha
    return tails fun u => num.gammaPpf u a (v.params.loc.getD 0) (v.params.scale.getD 1)
  | .exponential => do
    let rate ← require v.params.rate
    if rate = 0 then .error .zeroDivisionError
    return tails fun u => num.exponPpf u (1 / rate)
  | _ => .ok (0, 1)

/-- The problem of the independent variables, with the bounds of each. -/
def buildSalibProblem (bounds : VarDef K → Except SampleError (K × K))
    (independentVars : List (VarDef K)) : Except SampleError (Problem K) :=
  (fun bounds => ⟨independentVars.map VarDef.name, bounds⟩) <$> independentVars.mapM bounds

/-- The static variables of a list, with their values. -/
def staticValues (vars : List (VarDef K)) : Dict String (Scalar K) :=
  (vars.filter fun v => v.distribution = some .static).foldl
    (fun d v => d.set v.name v.params.value) ∅

/-- The variables that are dimensions of the design. -/
def dimensions (vars : List (VarDef K)) : List (VarDef K) :=
  vars.filter fun v => v.distribution ≠ some .static

/-- The `values` of a row: the raw numbers, and the constants. -/
def rowValues (vars : List (VarDef K)) (static : Dict String (Scalar K)) (row : List K) :
    Dict String (Scalar K) :=
  static.items.foldl (fun d item => d.set item.1 item.2)
    ((vars.zip row).foldl (fun d cell => d.set cell.1.name (.number cell.2)) ∅)

/-- The samples of the rows of a design. -/
def rawSamples (vars : List (VarDef K)) (static : Dict String (Scalar K))
    (raw : List (List K)) : List (Sample K) :=
  raw.zipIdx.map fun row => ⟨sampleId row.2, rowValues vars static row.1⟩

/-- `if conditional_vars: _resolve_conditional(…)`. -/
def resolveIfAny [FloorRing K] (num : Numerics K) (conditionalVars : List (VarDef K)) (n : Nat)
    (samples : List (Sample K)) : Except SampleError (List (Sample K)) :=
  if conditionalVars = [] then .ok samples
  else resolveConditional num samples conditionalVars n

/-- `SobolAlgorithm.generate_samples`, as the samples of the file it writes. -/
def generateSobol [FloorRing K] (num : Numerics K)
    (sobolSample : Problem K → Nat → Except SampleError (List (List K)))
    (varList : List (VarDef K)) (n : Nat) : Except SampleError (List (Sample K)) :=
  let (independentVars, conditionalVars) := partitionVariables varList
  let static := staticValues independentVars
  let vars := dimensions independentVars
  if independentVars = [] then .ok []
  else if vars = [] then .ok ((List.range n).map fun i => ⟨sampleId i, static⟩)
  else
    match wrapErrors "generate_sobol failed"
        (buildSalibProblem (sobolBounds num) vars >>= fun problem => sobolSample problem n) with
    | .error e => .error e
    | .ok raw => resolveIfAny num conditionalVars n (rawSamples vars static raw)

/-! ## The ids of the samples -/

theorem sampleId_injective : Function.Injective sampleId := by
  intro i j h
  have := padded_injective 4 h
  omega

/-- The ids of `n` samples, as every sampler numbers them. -/
def sampleIds (n : Nat) : List String := (List.range n).map sampleId

theorem nodup_sampleIds (n : Nat) : (sampleIds n).Nodup :=
  List.nodup_range.map sampleId_injective

/-- The ids are those of the first samples. -/
def Numbered (samples : List (Sample K)) : Prop :=
  samples.map Sample.sampleId = sampleIds samples.length

omit [Field K] [LinearOrder K] in
theorem numbered_rawSamples (vars : List (VarDef K)) (static : Dict String (Scalar K))
    (raw : List (List K)) : Numbered (rawSamples vars static raw) := by
  have hids : ∀ (raw : List (List K)) (n : Nat),
      ((raw.zipIdx n).map fun row => sampleId row.2) =
        (List.range' n raw.length).map sampleId := by
    intro raw
    induction raw with
    | nil => exact fun _ => rfl
    | cons row raw ih =>
      intro n
      rw [List.zipIdx_cons, List.map_cons, ih, List.length_cons, List.range'_succ,
        List.map_cons]
  unfold Numbered rawSamples
  rw [List.map_map, List.length_map, List.length_zipIdx, sampleIds, List.range_eq_range']
  exact hids raw 0

variable [FloorRing K]

/-- A sample that is resolved keeps its id and its place. -/
theorem resolveSample_ids {num : Numerics K} {v : VarDef K} {r r' : Resolving K} {s : Sample K}
    (h : resolveSample num v r s = .ok r') :
    r'.samples.map Sample.sampleId = r.samples.map Sample.sampleId ++ [s.sampleId] := by
  unfold resolveSample at h
  split at h
  · cases h
    rw [List.map_append]
    rfl
  · cases h
    rw [List.map_append]
    rfl
  · dsimp only at h
    split at h
    · exact nomatch h
    · split at h
      · exact nomatch h
      · cases h
        rw [List.map_append]
        rfl

theorem resolveSamples_ids {num : Numerics K} {v : VarDef K} {samples : List (Sample K)} :
    ∀ {r r' : Resolving K}, samples.foldlM (resolveSample num v) r = .ok r' →
      r'.samples.map Sample.sampleId =
        r.samples.map Sample.sampleId ++ samples.map Sample.sampleId := by
  induction samples with
  | nil =>
    intro r r' h
    cases h
    rw [List.map_nil, List.append_nil]
  | cons s samples ih =>
    intro r r' h
    rw [List.foldlM_cons] at h
    cases hs : resolveSample num v r s with
    | error e => rw [hs] at h; exact nomatch h
    | ok r₁ =>
      rw [hs] at h
      rw [ih h, resolveSample_ids hs, List.map_cons, List.append_assoc, List.singleton_append]

theorem resolveLoop_ids {num : Numerics K} {n : Nat} :
    ∀ {fuel : Nat} {queue : List (VarDef K)} {ruleDist : Option Distribution}
      {samples result : List (Sample K)},
      resolveLoop num n fuel queue ruleDist samples = .ok result →
        result.map Sample.sampleId = samples.map Sample.sampleId
  | 0, _, _, _, _, h => by cases h; rfl
  | _ + 1, [], _, _, _, h => by cases h; rfl
  | fuel + 1, v :: queue, ruleDist, samples, result, h => by
    unfold resolveLoop at h
    cases hs : samples.foldlM (resolveSample num v) ⟨ruleDist, 0, []⟩ with
    | error e => rw [hs] at h; exact nomatch h
    | ok r =>
      rw [hs] at h
      rw [resolveLoop_ids h, resolveSamples_ids hs, List.map_nil, List.nil_append]

theorem resolveIfAny_ids {num : Numerics K} {conditionalVars : List (VarDef K)} {n : Nat}
    {samples result : List (Sample K)}
    (h : resolveIfAny num conditionalVars n samples = .ok result) :
    result.map Sample.sampleId = samples.map Sample.sampleId := by
  unfold resolveIfAny at h
  split at h
  · cases h
    rfl
  · exact resolveLoop_ids h

theorem Numbered.resolveIfAny {num : Numerics K} {conditionalVars : List (VarDef K)} {n : Nat}
    {samples result : List (Sample K)} (hn : Numbered samples)
    (h : Sampling.resolveIfAny num conditionalVars n samples = .ok result) :
    Numbered result := by
  have hids := resolveIfAny_ids h
  have hlen : result.length = samples.length := by
    simpa only [List.length_map] using congrArg List.length hids
  unfold Numbered
  rw [hids, hlen]
  exact hn

theorem numbered_generateSobol {num : Numerics K}
    {sobolSample : Problem K → Nat → Except SampleError (List (List K))}
    {varList : List (VarDef K)} {n : Nat} {samples : List (Sample K)}
    (h : generateSobol num sobolSample varList n = .ok samples) : Numbered samples := by
  unfold generateSobol at h
  dsimp only at h
  split at h
  · cases h
    rfl
  · split at h
    · cases h
      unfold Numbered
      rw [List.map_map, List.length_map, List.length_range]
      rfl
    · split at h
      · exact nomatch h
      · exact (numbered_rawSamples _ _ _).resolveIfAny h

end

end OSimFlow.Algorithms.Sampling
