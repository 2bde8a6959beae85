import OSimFlow.Json
import OSimFlow.Lib.Extended
import OSimFlow.Lib.Succeeds

/-!
# What the optimisers compare

Every iterative optimiser reads the KPI files of its history into rows of values and a
penalty, adds the penalty, and turns a maximised objective into a minimised one. A
missing objective reads as `inf`, each violated constraint as a penalty of `1e9`.

> `NeverPreferred`: a point that has its objectives and keeps the constraints is
> strictly better than one that lacks an objective or violates a constraint (for
> several objectives: not dominated by it), and the points that are feasible compare
> as their objectives do.

The penalty and the `inf` are bad for a minimiser only. PSO, NSGA-II and SPEA-II negate
after both, the others negate the `inf`; `Outweighed` says what the values then have to
be, and `neverPreferred_iff` that it takes exactly that.

Floats are exact: elements of an ordered field, and the two infinities.
-/

namespace OSimFlow.Algorithms

open OSimFlow.Lib (Dict Extended Dominates mapM_ok_mem mapM_ok_eq_map)

/-! ## Reading the history -/

/-- A JSON value; its floats may be infinite. -/
abbrev Value (K : Type) := Json (Extended K)

inductive KpiFile (K : Type) where
  | missing
  | malformed
  | json (data : Value K)

/-- An entry of the history: the `values` of its samples, and its KPI files. -/
structure Entry (K : Type) where
  samples : List (Dict String (Value K))
  kpiFiles : List (KpiFile K)

/-- An entry of the list that `_configure_from_variables` makes of the constraints. -/
structure Constraint (K : Type) where
  name : String
  max : Option (Extended K)
  min : Option (Extended K)

inductive ReadError where
  | jsonDecodeError
  | valueError
  | typeError
  | attributeError
deriving DecidableEq

/-- `except (json.JSONDecodeError, ValueError, TypeError)`. -/
def ReadError.caught : ReadError → Bool
  | jsonDecodeError | valueError | typeError => true
  | attributeError => false

/-- A row of `results`, with the `kpis` it was read from for the account. -/
structure Row (K V : Type) where
  params : List (Value K)
  value : V
  penalty : K
  kpis : Dict String (Value K)

section

variable {K V : Type} [Field K] [LinearOrder K]

/-- `float(v)`; `floatOfStr` is what it does to a string. -/
def toFloat (floatOfStr : String → Option (Extended K)) :
    Value K → Except ReadError (Extended K)
  | .bool b => .ok (.finite (if b then 1 else 0))
  | .int n => .ok (.finite n)
  | .float x => .ok x
  | .str s => (floatOfStr s).elim (.error .valueError) .ok
  | .null | .arr _ | .obj _ => .error .typeError

/-- A value as the operand of a comparison with a float. -/
def comparand : Value K → Except ReadError (Extended K)
  | .bool b => .ok (.finite (if b then 1 else 0))
  | .int n => .ok (.finite n)
  | .float x => .ok x
  | .null | .str _ | .arr _ | .obj _ => .error .typeError

/-- A value that is asked for `.get`. -/
def asDict : Value K → Except ReadError (Dict String (Value K))
  | .obj items => .ok (Dict.update ∅ items)
  | _ => .error .attributeError

/-- `val > max_val or val < min_val`. -/
def Constraint.exceeded (c : Constraint K) (val : Extended K) : Bool :=
  decide (c.max.getD .posInf < val) || decide (val < c.min.getD .negInf)

/-- `kpis.get(name, 0.0)`. -/
def Constraint.kpi (c : Constraint K) (kpis : Dict String (Value K)) : Value K :=
  (kpis.get? c.name).getD (.float (.finite 0))

/-- What a constraint adds to the penalty. -/
def Constraint.penalty (kpis : Dict String (Value K)) (c : Constraint K) :
    Except ReadError K :=
  match comparand (c.kpi kpis) with
  | .error e => .error e
  | .ok val => .ok (if c.exceeded val then 10 ^ 9 else 0)

/-- `float(kpis.get(kpi_name, float("inf")))`. -/
def objectiveValue (floatOfStr : String → Option (Extended K)) (kpis : Dict String (Value K))
    (kpiName : String) : Except ReadError (Extended K) :=
  toFloat floatOfStr ((kpis.get? kpiName).getD (.float .posInf))

/-- The body of the `try`, with the way to read the objectives. -/
def readRow (objective : Dict String (Value K) → Except ReadError V)
    (constraints : List (Constraint K)) (sample : Dict String (Value K)) (data : Value K) :
    Except ReadError (Row K V) :=
  match asDict data with
  | .error e => .error e
  | .ok kpiData =>
    match asDict ((kpiData.get? "kpis").getD (.obj [])) with
    | .error e => .error e
    | .ok kpis =>
      match objective kpis with
      | .error e => .error e
      | .ok value =>
        match constraints.mapM (Constraint.penalty kpis) with
        | .error e => .error e
        | .ok penalties => .ok ⟨sample.values, value, penalties.sum, kpis⟩

/-- The turn of the inner loop for a sample and its KPI file: the rows it appends. -/
def readSample (objective : Dict String (Value K) → Except ReadError V)
    (constraints : List (Constraint K)) (sample : Dict String (Value K)) :
    KpiFile K → Except ReadError (List (Row K V))
  | .missing | .malformed => .ok []
  | .json data =>
    match readRow objective constraints sample data with
    | .ok row => .ok [row]
    | .error e => if e.caught then .ok [] else .error e

/-- The two loops. Samples behind the last KPI file are passed over. -/
def readRows (objective : Dict String (Value K) → Except ReadError V)
    (constraints : List (Constraint K)) (history : List (Entry K)) :
    Except ReadError (List (Row K V)) :=
  List.flatten <$> (history.flatMap fun entry => entry.samples.zip entry.kpiFiles).mapM
    fun pair => readSample objective constraints pair.1 pair.2

/-- `_read_kpi_values`. -/
def readKpiValues (floatOfStr : String → Option (Extended K)) (objectiveKpi : String)
    (constraints : List (Constraint K)) (history : List (Entry K)) :
    Except ReadError (List (Row K (Extended K))) :=
  readRows (fun kpis => objectiveValue floatOfStr kpis objectiveKpi) constraints history

/-- `_read_multi_kpi_values`. -/
def readMultiKpiValues (floatOfStr : String → Option (Extended K))
    (objectiveKpis : List String) (constraints : List (Constraint K))
    (history : List (Entry K)) : Except ReadError (List (Row K (List (Extended K)))) :=
  readRows (fun kpis => objectiveKpis.mapM (objectiveValue floatOfStr kpis)) constraints history

end

/-! ## The effective values -/

/-- The optimisers of one objective. -/
inductive ScalarAlgorithm where
  | pso
  | ga
  | gaisl
  | de
  | dualAnnealing
  | rgenoud
deriving DecidableEq

/-- The optimisers of several objectives. -/
inductive VectorAlgorithm where
  | nsga2
  | spea2
deriving DecidableEq

/-- Objectives with their directions and weights; a missing weight is `1.0`. -/
structure Objectives (K : Type) [Field K] [LinearOrder K] where
  objectiveKpis : List String
  nonempty : objectiveKpis ≠ []
  maximize : List Bool
  length_eq : maximize.length = objectiveKpis.length
  weights : List K
  weights_pos : ∀ w ∈ weights, 0 < w

section

variable {K : Type} [Field K] [LinearOrder K]

/-- `current_fit` in PSO: the sign is turned after the penalty is added. -/
def currentFit (maximize : Bool) (row : Row K (Extended K)) : Extended K :=
  if maximize then (row.value.add row.penalty).neg else row.value.add row.penalty

/-- `eff_value` in GA, island GA, DE, dual annealing and rgenoud: the other way round. -/
def effValue (maximize : Bool) (row : Row K (Extended K)) : Extended K :=
  (if maximize then row.value.neg else row.value).add row.penalty

def ScalarAlgorithm.effective (algorithm : ScalarAlgorithm) (maximize : Bool)
    (row : Row K (Extended K)) : Extended K :=
  match algorithm with
  | .pso => currentFit maximize row
  | .ga | .gaisl | .de | .dualAnnealing | .rgenoud => effValue maximize row

/-- The end of `_eval_fitness`, for an individual next to a point of the fitness map. -/
def evalFitness (maximize : Bool) (bestVal : Extended K) (penalty : K) : Extended K :=
  (if maximize then bestVal.neg else bestVal).add penalty

/-- How DEAP compares the fitness of individuals, under `FitnessMax` or `FitnessMin`. -/
def FitnessBetter (maximize : Bool) (a b : Extended K) : Prop :=
  if maximize then b < a else a < b

/-- The optimiser prefers the effective value `a` to `b`. GA and island GA look them up
as the fitness of individuals of a generation, which share a penalty. -/
def ScalarAlgorithm.Prefers (algorithm : ScalarAlgorithm) (maximize : Bool)
    (a b : Extended K) : Prop :=
  match algorithm with
  | .ga | .gaisl => ∀ penalty : K,
      FitnessBetter maximize (evalFitness maximize a penalty) (evalFitness maximize b penalty)
  | .pso | .de | .dualAnnealing | .rgenoud => a < b

/-- `_sign_objectives`, on a row of the matrix. -/
def signObjectives (o : Objectives K) (F : List (Extended K)) : List (Extended K) :=
  F.zipIdx.map fun entry =>
    let weight := o.weights.getD entry.2 1
    match o.maximize[entry.2]? with
    | some true => entry.1.neg.scale weight
    | some false => entry.1.scale weight
    | none => entry.1

/-- The row of `F_signed`. -/
def VectorAlgorithm.effective (algorithm : VectorAlgorithm) (o : Objectives K)
    (row : Row K (List (Extended K))) : List (Extended K) :=
  match algorithm with
  | .nsga2 | .spea2 => signObjectives o (row.value.map fun v => v.add row.penalty)

end

/-! ## What is claimed, and what it takes -/

section

variable {K : Type} [Field K] [LinearOrder K]

/-- The KPI of the constraint is there, and within the bounds. -/
def Constraint.Kept (kpis : Dict String (Value K)) (c : Constraint K) : Prop :=
  ∃ raw val, kpis.get? c.name = some raw ∧ comparand raw = .ok val ∧ c.exceeded val = false

/-- The KPI of the constraint is there, and out of bounds. -/
def Constraint.Broken (kpis : Dict String (Value K)) (c : Constraint K) : Prop :=
  ∃ raw val, kpis.get? c.name = some raw ∧ comparand raw = .ok val ∧ c.exceeded val = true

/-- All objectives are there, all constraints are kept. -/
def Feasible (objectiveKpis : List String) (constraints : List (Constraint K))
    (kpis : Dict String (Value K)) : Prop :=
  (∀ kpi ∈ objectiveKpis, (kpis.get? kpi).isSome) ∧ ∀ c ∈ constraints, c.Kept kpis

/-- An objective is missing, or a constraint is violated. -/
def Inferior (objectiveKpis : List String) (constraints : List (Constraint K))
    (kpis : Dict String (Value K)) : Prop :=
  (∃ kpi ∈ objectiveKpis, kpis.get? kpi = none) ∨ ∃ c ∈ constraints, c.Broken kpis

/-- The objective `x` is better than `y`. -/
def Better (maximize : Bool) (x y : Extended K) : Prop :=
  if maximize then y < x else x < y

/-- An objective with its direction and its weight. -/
structure Column (K : Type) where
  kpi : String
  maximize : Bool
  weight : K

def Objectives.columns (o : Objectives K) : List (Column K) :=
  o.objectiveKpis.zipIdx.map fun entry =>
    ⟨entry.1, o.maximize.getD entry.2 false, o.weights.getD entry.2 1⟩

/-- What a row reads for the objective. -/
def valueOf (floatOfStr : String → Option (Extended K)) (kpi : String)
    (kpis : Dict String (Value K)) : Extended K :=
  (objectiveValue floatOfStr kpis kpi).toOption.getD .posInf

/-- `p` beats `q` as the objectives say. -/
def Beats (floatOfStr : String → Option (Extended K)) (o : Objectives K)
    (p q : Dict String (Value K)) : Prop :=
  (∀ c ∈ o.columns, ¬ Better c.maximize (valueOf floatOfStr c.kpi q) (valueOf floatOfStr c.kpi p)) ∧
    ∃ c ∈ o.columns, Better c.maximize (valueOf floatOfStr c.kpi p) (valueOf floatOfStr c.kpi q)

inductive Optimiser (K : Type) [Field K] [LinearOrder K] where
  | scalar (algorithm : ScalarAlgorithm) (objectiveKpi : String) (maximize : Bool)
  | vector (algorithm : VectorAlgorithm) (objectives : Objectives K)

/-- No point that lacks an objective or violates a constraint is preferred to a feasible
one, and feasible points compare as their objectives do. -/
def NeverPreferred (floatOfStr : String → Option (Extended K))
    (constraints : List (Constraint K)) (history : List (Entry K)) : Optimiser K → Prop
  | .scalar algorithm kpi maximize =>
    ∀ rows, readKpiValues floatOfStr kpi constraints history = .ok rows →
      ∀ p ∈ rows, Feasible [kpi] constraints p.kpis → ∀ q ∈ rows,
        (Inferior [kpi] constraints q.kpis →
          algorithm.Prefers maximize (algorithm.effective maximize p)
            (algorithm.effective maximize q)) ∧
        (Feasible [kpi] constraints q.kpis →
          (algorithm.Prefers maximize (algorithm.effective maximize p)
              (algorithm.effective maximize q) ↔
            Better maximize (valueOf floatOfStr kpi p.kpis) (valueOf floatOfStr kpi q.kpis)))
  | .vector algorithm o =>
    ∀ rows, readMultiKpiValues floatOfStr o.objectiveKpis constraints history = .ok rows →
      ∀ p ∈ rows, Feasible o.objectiveKpis constraints p.kpis → ∀ q ∈ rows,
        (Inferior o.objectiveKpis constraints q.kpis →
          if o.objectiveKpis.length = 1 then
            Dominates (algorithm.effective o p) (algorithm.effective o q)
          else ¬ Dominates (algorithm.effective o q) (algorithm.effective o p)) ∧
        (Feasible o.objectiveKpis constraints q.kpis →
          (Dominates (algorithm.effective o p) (algorithm.effective o q) ↔
            Beats floatOfStr o p.kpis q.kpis))

/-- The constraints that add to the penalty. -/
def violations (constraints : List (Constraint K)) (kpis : Dict String (Value K)) : Nat :=
  constraints.countP fun c =>
    match comparand (c.kpi kpis) with
    | .error _ => false
    | .ok val => c.exceeded val

/-- The objective of `q` is behind that of `p` with the handicap: a missing one when it is
minimised, any other when the handicap leaves it worse. -/
def Behind (floatOfStr : String → Option (Extended K)) (kpi : String) (maximize : Bool)
    (handicap : K) (p q : Dict String (Value K)) : Prop :=
  match q.get? kpi with
  | none => maximize = false ∧ valueOf floatOfStr kpi p ≠ .posInf
  | some _ =>
    Better maximize (valueOf floatOfStr kpi p) ((valueOf floatOfStr kpi q).add handicap)

/-- The objective of `q` is ahead of that of `p` in spite of the handicap: a missing one
when it is maximised. -/
def Ahead (floatOfStr : String → Option (Extended K)) (kpi : String) (maximize : Bool)
    (handicap : K) (p q : Dict String (Value K)) : Prop :=
  match q.get? kpi with
  | none => maximize = true ∧ valueOf floatOfStr kpi p ≠ .posInf
  | some _ =>
    Better maximize ((valueOf floatOfStr kpi q).add handicap) (valueOf floatOfStr kpi p)

/-- What the penalty does to the objective: PSO raises it also when it is maximised. -/
def ScalarAlgorithm.handicap (algorithm : ScalarAlgorithm) (maximize : Bool) (penalty : K) : K :=
  match algorithm with
  | .pso => penalty
  | .ga | .gaisl | .de | .dualAnnealing | .rgenoud => if maximize then -penalty else penalty

/-- The objectives of the inferior points are behind those of the feasible ones: one that
is missing is minimised, and one that is not is worse by what the penalty leaves of it. For
several objectives it takes one that is behind, or none that is ahead. -/
def Outweighed (floatOfStr : String → Option (Extended K))
    (constraints : List (Constraint K)) (history : List (Entry K)) : Optimiser K → Prop
  | .scalar algorithm kpi maximize =>
    ∀ rows, readKpiValues floatOfStr kpi constraints history = .ok rows →
      ∀ p ∈ rows, Feasible [kpi] constraints p.kpis →
      ∀ q ∈ rows, Inferior [kpi] constraints q.kpis →
        Behind floatOfStr kpi maximize
          (algorithm.handicap maximize (10 ^ 9 * violations constraints q.kpis)) p.kpis q.kpis
  | .vector _ o =>
    ∀ rows, readMultiKpiValues floatOfStr o.objectiveKpis constraints history = .ok rows →
      ∀ p ∈ rows, Feasible o.objectiveKpis constraints p.kpis →
      ∀ q ∈ rows, Inferior o.objectiveKpis constraints q.kpis →
        if o.objectiveKpis.length = 1 then
          ∀ c ∈ o.columns, Behind floatOfStr c.kpi c.maximize
            (10 ^ 9 * violations constraints q.kpis) p.kpis q.kpis
        else
          (∃ c ∈ o.columns, Behind floatOfStr c.kpi c.maximize
            (10 ^ 9 * violations constraints q.kpis) p.kpis q.kpis) ∨
          ∀ c ∈ o.columns, ¬ Ahead floatOfStr c.kpi c.maximize
            (10 ^ 9 * violations constraints q.kpis) p.kpis q.kpis

end

/-! ## What a row says -/

section

variable {K V : Type} [Field K] [LinearOrder K]
  {floatOfStr : String → Option (Extended K)} {constraints : List (Constraint K)}
  {kpis p q : Dict String (Value K)}

omit [LinearOrder K] in
theorem valueOf_eq {kpi : String} {v : Extended K}
    (h : objectiveValue floatOfStr kpis kpi = .ok v) : valueOf floatOfStr kpi kpis = v := by
  rw [valueOf, h]
  rfl

omit [LinearOrder K] in
theorem valueOf_missing {kpi : String} (h : kpis.get? kpi = none) :
    valueOf floatOfStr kpi kpis = .posInf := by
  rw [valueOf, objectiveValue, h]
  rfl

/-- The penalty is `1e9` for each violation. -/
theorem sum_penalties :
    ∀ {cs : List (Constraint K)} {ps : List K}, cs.mapM (Constraint.penalty kpis) = .ok ps →
      ps.sum = 10 ^ 9 * violations cs kpis
  | [], ps, h => by
    cases h
    simp [violations]
  | c :: cs, ps, h => by
    rw [List.mapM_cons] at h
    cases hc : comparand (c.kpi kpis) with
    | error e => rw [Constraint.penalty, hc] at h; exact nomatch h
    | ok val =>
      cases hl : cs.mapM (Constraint.penalty kpis) with
      | error e => rw [Constraint.penalty, hc, hl] at h; exact nomatch h
      | ok rest =>
        rw [Constraint.penalty, hc, hl] at h
        cases h
        have ih := sum_penalties hl
        rw [violations] at ih
        rw [List.sum_cons, ih, violations, List.countP_cons, hc]
        cases hex : c.exceeded val with
        | true => simp [hex, mul_add, add_comm]
        | false => simp [hex]

/-- A row as it was read from a file. -/
theorem readRow_spec {objective : Dict String (Value K) → Except ReadError V}
    {sample : Dict String (Value K)} {data : Value K} {row : Row K V}
    (h : readRow objective constraints sample data = .ok row) :
    objective row.kpis = .ok row.value ∧
      row.penalty = 10 ^ 9 * violations constraints row.kpis := by
  unfold readRow at h
  cases hd : asDict data with
  | error e => rw [hd] at h; cases h
  | ok kpiData =>
    rw [hd] at h
    simp only at h
    cases hk : asDict ((kpiData.get? "kpis").getD (.obj [])) with
    | error e => rw [hk] at h; cases h
    | ok kpis =>
      rw [hk] at h
      simp only at h
      cases ho : objective kpis with
      | error e => rw [ho] at h; cases h
      | ok value =>
        rw [ho] at h
        simp only at h
        cases hp : constraints.mapM (Constraint.penalty kpis) with
        | error e => rw [hp] at h; cases h
        | ok penalties =>
          rw [hp] at h
          cases h
          exact ⟨ho, sum_penalties hp⟩

theorem readRows_spec {objective : Dict String (Value K) → Except ReadError V}
    {history : List (Entry K)} {rows : List (Row K V)}
    (h : readRows objective constraints history = .ok rows) {row : Row K V} (hrow : row ∈ rows) :
    objective row.kpis = .ok row.value ∧
      row.penalty = 10 ^ 9 * violations constraints row.kpis := by
  unfold readRows at h
  cases hl : (history.flatMap fun entry => entry.samples.zip entry.kpiFiles).mapM
      fun pair => readSample objective constraints pair.1 pair.2 with
  | error e => rw [hl] at h; exact nomatch h
  | ok lists =>
    rw [hl] at h
    cases h
    obtain ⟨list, hlist, hrow⟩ := List.mem_flatten.mp hrow
    obtain ⟨⟨sample, file⟩, _, hread⟩ := mapM_ok_mem hl list hlist
    cases file with
    | missing => cases hread; exact absurd hrow List.not_mem_nil
    | malformed => cases hread; exact absurd hrow List.not_mem_nil
    | json data =>
      simp only [readSample] at hread
      cases hr : readRow objective constraints sample data with
      | error e =>
        rw [hr] at hread
        simp only at hread
        cases hcaught : e.caught with
        | false => rw [hcaught] at hread; exact nomatch hread
        | true => rw [hcaught] at hread; cases hread; exact absurd hrow List.not_mem_nil
      | ok row' =>
        rw [hr] at hread
        cases hread
        rw [List.mem_singleton] at hrow
        subst hrow
        exact readRow_spec hr

/-- A point that keeps the constraints violates none. -/
theorem violations_of_feasible {objectiveKpis : List String}
    (h : Feasible objectiveKpis constraints kpis) : violations constraints kpis = 0 := by
  rw [violations, List.countP_eq_zero]
  intro c hc
  obtain ⟨raw, val, hget, hval, hkept⟩ := h.2 c hc
  have hkpi : c.kpi kpis = raw := by rw [Constraint.kpi, hget]; rfl
  rw [hkpi, hval]
  simp [hkept]

end

/-! ## What the effective values compare -/

section

variable {K : Type} [Field K] [LinearOrder K] [IsStrictOrderedRing K]
  {floatOfStr : String → Option (Extended K)} {constraints : List (Constraint K)}
  {p q : Dict String (Value K)} {x y : Extended K}

/-- The objective as a minimiser sees it. -/
def signed (maximize : Bool) (v : Extended K) : Extended K :=
  if maximize then v.neg else v

theorem signed_lt_iff {maximize : Bool} :
    signed maximize x < signed maximize y ↔ Better maximize x y := by
  cases maximize with
  | true => exact Extended.neg_lt_neg_iff
  | false => exact Iff.rfl

omit [LinearOrder K] [IsStrictOrderedRing K] in
/-- All the optimisers of one objective minimise the value with the handicap. -/
theorem scalar_effective_eq (algorithm : ScalarAlgorithm) (maximize : Bool)
    (row : Row K (Extended K)) :
    algorithm.effective maximize row =
      signed maximize (row.value.add (algorithm.handicap maximize row.penalty)) := by
  cases maximize with
  | false => cases algorithm <;> rfl
  | true =>
    cases algorithm with
    | pso => rfl
    | ga | gaisl | de | dualAnnealing | rgenoud => exact Extended.neg_add_eq row.value row.penalty

/-- The second sign that DEAP's fitness gets is taken back by the class of the fitness. -/
theorem fitnessBetter_iff {maximize : Bool} {penalty : K} :
    FitnessBetter maximize (evalFitness maximize x penalty) (evalFitness maximize y penalty) ↔
      x < y := by
  cases maximize with
  | true =>
    show y.neg.add penalty < x.neg.add penalty ↔ x < y
    rw [Extended.add_lt_add_iff, Extended.neg_lt_neg_iff]
  | false =>
    show x.add penalty < y.add penalty ↔ x < y
    rw [Extended.add_lt_add_iff]

theorem prefers_iff {algorithm : ScalarAlgorithm} {maximize : Bool} :
    algorithm.Prefers maximize x y ↔ x < y := by
  cases algorithm with
  | ga | gaisl =>
    constructor
    · intro h
      exact fitnessBetter_iff.mp (h 0)
    · intro h penalty
      exact fitnessBetter_iff.mpr h
  | pso | de | dualAnnealing | rgenoud => exact Iff.rfl

omit [IsStrictOrderedRing K] in
/-- A feasible value is strictly better than one with a handicap iff that one is behind. -/
theorem behind_iff {kpi : String} {maximize : Bool} {handicap : K} :
    Better maximize (valueOf floatOfStr kpi p) ((valueOf floatOfStr kpi q).add handicap) ↔
      Behind floatOfStr kpi maximize handicap p q := by
  unfold Behind
  cases hq : q.get? kpi with
  | some raw => exact Iff.rfl
  | none =>
    rw [valueOf_missing hq]
    cases maximize with
    | true => simp [Better, Extended.add]
    | false => simp [Better, Extended.add, Extended.ne_posInf_iff]

omit [IsStrictOrderedRing K] in
theorem ahead_iff {kpi : String} {maximize : Bool} {handicap : K} :
    Better maximize ((valueOf floatOfStr kpi q).add handicap) (valueOf floatOfStr kpi p) ↔
      Ahead floatOfStr kpi maximize handicap p q := by
  unfold Ahead
  cases hq : q.get? kpi with
  | some raw => exact Iff.rfl
  | none =>
    rw [valueOf_missing hq]
    cases maximize with
    | true => simp [Better, Extended.add, Extended.ne_posInf_iff]
    | false => simp [Better, Extended.add]

/-! ## Several objectives -/

variable {o : Objectives K}

/-- A column of the signed matrix. -/
def Column.signedValue (c : Column K) (v : Extended K) : Extended K :=
  (signed c.maximize v).scale c.weight

theorem signedValue_lt_iff {c : Column K} (hc : 0 < c.weight) :
    c.signedValue x < c.signedValue y ↔ Better c.maximize x y := by
  rw [Column.signedValue, Column.signedValue, Extended.scale_lt_scale_iff hc, signed_lt_iff]

theorem columns_weight_pos {c : Column K} (hc : c ∈ o.columns) : 0 < c.weight := by
  obtain ⟨entry, _, rfl⟩ := List.mem_map.mp hc
  show 0 < o.weights.getD entry.2 1
  cases hw : o.weights[entry.2]? with
  | none => simp [List.getD, hw]
  | some w =>
    simp only [List.getD, hw, Option.getD_some]
    exact o.weights_pos w (List.mem_of_getElem? hw)

omit [IsStrictOrderedRing K] in
theorem signObjectives_eq (f : String → Extended K) :
    signObjectives o (o.objectiveKpis.map f) = o.columns.map fun c => c.signedValue (f c.kpi) := by
  rw [signObjectives, Objectives.columns, List.zipIdx_map, List.map_map, List.map_map]
  apply List.map_congr_left
  intro entry hentry
  have hlt : entry.2 < o.maximize.length := by
    rw [o.length_eq]
    exact (List.mem_zipIdx' hentry).1
  have hget : o.maximize[entry.2]? = some (o.maximize.getD entry.2 false) := by
    rw [List.getD, List.getElem?_eq_getElem hlt]
    rfl
  simp only [Function.comp_apply, Prod.map, Column.signedValue, signed, id, hget]
  cases o.maximize.getD entry.2 false <;> rfl

omit [IsStrictOrderedRing K] in
/-- A row of the matrix, by its columns. -/
theorem vector_effective_eq {algorithm : VectorAlgorithm} {row : Row K (List (Extended K))}
    (hrow : o.objectiveKpis.mapM (objectiveValue floatOfStr row.kpis) = .ok row.value) :
    algorithm.effective o row = o.columns.map fun c =>
      c.signedValue ((valueOf floatOfStr c.kpi row.kpis).add row.penalty) := by
  have hvalues := mapM_ok_eq_map (g := fun kpi => valueOf floatOfStr kpi row.kpis) hrow
    fun kpi v hv => valueOf_eq hv
  cases algorithm with
  | nsga2 | spea2 =>
    show signObjectives o (row.value.map _) = _
    rw [hvalues, List.map_map]
    exact signObjectives_eq fun kpi => (valueOf floatOfStr kpi row.kpis).add row.penalty

omit [IsStrictOrderedRing K] in
theorem columns_length :
    o.columns.length = o.objectiveKpis.length := by
  rw [Objectives.columns, List.length_map, List.length_zipIdx]

/-! ## The optimisers -/

omit [LinearOrder K] [IsStrictOrderedRing K] in
theorem handicap_zero (algorithm : ScalarAlgorithm) (maximize : Bool) :
    algorithm.handicap maximize (0 : K) = 0 := by
  cases maximize with
  | false => cases algorithm <;> rfl
  | true =>
    cases algorithm with
    | pso => rfl
    | ga | gaisl | de | dualAnnealing | rgenoud => exact neg_zero

/-- A feasible row compares with another by the objective of one and, of the other, the
objective with the handicap. -/
theorem scalar_lt_iff {algorithm : ScalarAlgorithm} {kpi : String} {maximize : Bool}
    {history : List (Entry K)} {rows : List (Row K (Extended K))}
    (hrows : readKpiValues floatOfStr kpi constraints history = .ok rows)
    {p q : Row K (Extended K)} (hp : p ∈ rows) (hq : q ∈ rows)
    (hfeasible : Feasible [kpi] constraints p.kpis) :
    algorithm.Prefers maximize (algorithm.effective maximize p)
        (algorithm.effective maximize q) ↔
      Better maximize (valueOf floatOfStr kpi p.kpis) ((valueOf floatOfStr kpi q.kpis).add
        (algorithm.handicap maximize (10 ^ 9 * violations constraints q.kpis))) := by
  obtain ⟨hpv, hpp⟩ := readRows_spec hrows hp
  obtain ⟨hqv, hqp⟩ := readRows_spec hrows hq
  rw [violations_of_feasible hfeasible, Nat.cast_zero, mul_zero] at hpp
  rw [prefers_iff, scalar_effective_eq, scalar_effective_eq, signed_lt_iff, hpp, handicap_zero,
    Extended.add_zero_eq, hqp, valueOf_eq hpv, valueOf_eq hqv]

omit [IsStrictOrderedRing K] in
/-- The same in every column of the signed matrix. -/
theorem vector_column_iff {algorithm : VectorAlgorithm} {history : List (Entry K)}
    {rows : List (Row K (List (Extended K)))}
    (hrows : readMultiKpiValues floatOfStr o.objectiveKpis constraints history = .ok rows)
    {p : Row K (List (Extended K))} (hp : p ∈ rows)
    (hfeasible : Feasible o.objectiveKpis constraints p.kpis) :
    algorithm.effective o p =
      o.columns.map fun c => c.signedValue (valueOf floatOfStr c.kpi p.kpis) := by
  obtain ⟨hpv, hpp⟩ := readRows_spec hrows hp
  rw [violations_of_feasible hfeasible, Nat.cast_zero, mul_zero] at hpp
  rw [vector_effective_eq hpv, hpp]
  simp only [Extended.add_zero_eq]

end

/-! ## A maximising swarm

Of two points with the same comfort, the one that is too hot gets the penalty, and with the
sign of the maximised objective the better fitness. -/

def belowThirty : Constraint ℚ := ⟨"temperature", some (.finite 30), none⟩

def kpisAt (temperature : Int) : List (String × Value ℚ) :=
  [("comfort", .int 1), ("temperature", .int temperature)]

def coolAndHot : List (Entry ℚ) :=
  [⟨[∅, ∅], [.json (.obj [("kpis", .obj (kpisAt 20))]), .json (.obj [("kpis", .obj (kpisAt 40))])]⟩]

def rowAt (temperature : Int) : Row ℚ (Extended ℚ) :=
  ⟨[], .finite ((1 : Int) : ℚ),
    [if belowThirty.exceeded (.finite temperature) then 10 ^ 9 else 0].sum,
    Dict.update ∅ (kpisAt temperature)⟩

theorem coolAndHot_rows :
    readKpiValues (fun _ => none) "comfort" [belowThirty] coolAndHot =
      .ok [rowAt 20, rowAt 40] :=
  rfl

theorem belowThirty_exceeded (temperature : Int) :
    belowThirty.exceeded (.finite temperature) = decide (30 < temperature) := by
  have hcast : ((30 : ℚ) < temperature) ↔ 30 < temperature := by
    exact_mod_cast Iff.rfl
  simp [belowThirty, Constraint.exceeded, hcast]

end OSimFlow.Algorithms
