import Mathlib.Algebra.Order.Ring.Rat
import OSimFlow.Json
import OSimFlow.Lib.Succeeds

/-!
# What NSGA-II and SPEA-II select among

`observe` hands the history to pymoo as a problem that looks a point up among the measured ones,
by approximate equality, and gives a constant where none is near. The points that are looked
up are the ones pymoo draws for its initial population; one generation selects among these.

> `evaluate_eq`: the objectives of an individual are those of the first measured point near it.
>
> `drawn_iff`: when the individuals carry what was measured for their points, and the
> non-dominated measured points are among them.

Both algorithms read the history, evaluate and draw alike.
-/

namespace OSimFlow.Algorithms.MeasuredSelection

open OSimFlow.Lib (Dict bind_eq_ok forall₂_of_mapM_ok)

/-! ## Numbers -/

/-- What is used of Python's and NumPy's numbers. -/
structure Numbers (F : Type) where
  /-- `float(v)`; nothing for `TypeError` and `ValueError`. -/
  float : Json F → Option F
  /-- An element of `np.array(..., dtype=np.float64)`; nothing for `ValueError`. -/
  cell : Json F → Option F
  /-- `a > b`; nothing for `TypeError`. -/
  greater : Json F → Json F → Option Bool
  /-- `a < b`; nothing for `TypeError`. -/
  less : Json F → Json F → Option Bool
  infinity : F
  negInfinity : F
  zero : F
  one : F
  /-- `1e9` -/
  penalty : F
  /-- `1e6` -/
  substitute : F
  /-- `1e-10` -/
  atol : F
  /-- `1e-5`, the default of `np.allclose`. -/
  rtol : F
  add : F → F → F
  sub : F → F → F
  mul : F → F → F
  neg : F → F
  abs : F → F
  le : F → F → Bool
  eq : F → F → Bool
  isFinite : F → Bool

variable {F : Type} (N : Numbers F)

/-- `np.isclose(x, y, atol=1e-10)`. -/
def isClose (x y : F) : Bool :=
  N.le (N.abs (N.sub x y)) (N.add N.atol (N.mul N.rtol (N.abs y))) && N.isFinite y || N.eq x y

/-- The pairs of two rows, one of which may be stretched; nothing for `ValueError`. -/
def broadcast (x y : List F) : Option (List (F × F)) :=
  if x.length = y.length then some (x.zip y)
  else
    match x, y with
    | [a], y => some (y.map fun b => (a, b))
    | x, [b] => some (x.map fun a => (a, b))
    | _, _ => none

/-- `np.allclose(x, y, atol=1e-10)`. -/
def allClose (x y : List F) : Option Bool :=
  (broadcast x y).map fun pairs => pairs.all fun p => isClose N p.1 p.2

/-! ## The history -/

/-- What is at the path of a KPI file. -/
inductive KpiFile (F : Type) where
  | missing
  | unparseable
  | json (value : Json F)

/-- A sample, with its `values` where it has them. -/
structure Sample (F : Type) where
  values : Option (Dict String (Json F))

structure HistoryEntry (F : Type) where
  samples : Option (List (Sample F))
  kpiFiles : Option (List (KpiFile F))

structure Constraint (F : Type) where
  name : Option String
  max : Option (Json F)
  min : Option (Json F)

inductive Raised where
  | attributeError
  | indexError
  | keyError
  | valueError
deriving DecidableEq

/-- What is read of a sample: the parameters, the objectives and the penalty. -/
structure Result (F : Type) where
  params : List (Json F)
  objectives : List F
  penalty : F

/-- The fields of the algorithms that `observe` uses; there is a bound for each of the
independent variables. -/
structure Algorithm (F : Type) where
  objectiveKpis : List String
  maximize : List Bool
  weights : List F
  constraints : List (Constraint F)
  bounds : List (F × F)
  popSize : Nat

/-- The loop over the constraints; nothing where a comparison raises `TypeError`. -/
def penaltyOf (kpis : Dict String (Json F)) : List (Constraint F) → F → Except Raised (Option F)
  | [], penalty => .ok (some penalty)
  | c :: cs, penalty =>
    match c.name with
    | none => .error .keyError
    | some name =>
      let val := (kpis.get? name).getD (.float N.zero)
      match N.greater val (c.max.getD (.float N.infinity)) with
      | none => .ok none
      | some true => penaltyOf kpis cs (N.add penalty N.penalty)
      | some false =>
        match N.less val (c.min.getD (.float N.negInfinity)) with
        | none => .ok none
        | some true => penaltyOf kpis cs (N.add penalty N.penalty)
        | some false => penaltyOf kpis cs penalty

variable (o : Algorithm F)

/-- What is read of a sample whose KPIs are `kpis`. -/
def resultOf (sample : Sample F) (kpis : Dict String (Json F)) :
    Except Raised (Option (Result F)) :=
  match o.objectiveKpis.mapM fun name => N.float ((kpis.get? name).getD (.float N.infinity)) with
  | none => .ok none
  | some objectives => do
    let penalty ← penaltyOf N kpis o.constraints N.zero
    return penalty.map fun penalty =>
      { params := (sample.values.getD ∅).values, objectives := objectives, penalty := penalty }

/-- The body of the loop over the samples; a sample whose file cannot be read is left out. -/
def readSample (item : Sample F × KpiFile F) : Except Raised (Option (Result F)) :=
  match item.2 with
  | .missing => .ok none
  | .unparseable => .ok none
  | .json (.obj data) =>
    match (Dict.update ∅ data).get? "kpis" with
    | none => resultOf N o item.1 ∅
    | some (.obj kpis) => resultOf N o item.1 (Dict.update ∅ kpis)
    | some _ => .error .attributeError
  | .json _ => .error .attributeError

/-- `_read_multi_kpi_values`. -/
def readMultiKpiValues (history : List (HistoryEntry F)) : Except Raised (List (Result F)) := do
  let results ← (history.flatMap fun entry =>
    (entry.samples.getD []).zip (entry.kpiFiles.getD [])).mapM (readSample N o)
  return results.filterMap id

/-! ## Measured points -/

/-- `np.array(rows, dtype=np.float64)`. -/
def npRows (rows : List (List (Json F))) : Except Raised (List (List F)) :=
  match rows.mapM fun row => row.mapM N.cell with
  | none => .error .valueError
  | some rows =>
    if ∀ row ∈ rows, row.length = (rows.head?.getD []).length then .ok rows
    else .error .valueError

/-- `_sign_objectives`, on a row. -/
def signObjectives (row : List F) : Except Raised (List F) :=
  if row.length < o.maximize.length then .error .indexError
  else .ok (row.zipIdx.map fun item =>
    let weight := o.weights[item.2]?.getD N.one
    match o.maximize[item.2]? with
    | none => item.1
    | some true => N.mul (N.neg item.1) weight
    | some false => N.mul item.1 weight)

/-- `_X_ref` with `_F_ref`: the points of the history with their signed objectives. -/
def measured (history : List (HistoryEntry F)) : Except Raised (List (List F × List F)) := do
  let results ← readMultiKpiValues N o history
  let points ← npRows N (results.map Result.params)
  let vectors ← results.mapM fun r =>
    signObjectives N o (r.objectives.map fun x => N.add x r.penalty)
  return points.zip vectors

/-! ## The problem and its population -/

/-- `_EvaluatedProblem._evaluate`, on a row. -/
def evaluate (rows : List (List F × List F)) (x : List F) : Except Raised (List F) :=
  match rows with
  | [] => .ok (List.replicate o.objectiveKpis.length N.substitute)
  | row :: rows =>
    match allClose N x row.1 with
    | none => .error .valueError
    | some true => .ok row.2
    | some false => evaluate rows x

/-- An individual: a point with its objectives. -/
def individual (rows : List (List F × List F)) (x : List F) :
    Except Raised (List F × List F) := do
  let vector ← evaluate N o rows x
  return (x, vector)

/-- `observe`, up to the evaluated initial population, which the one generation selects among.
What pymoo draws for it is given, for the bounds and the size of the population. -/
def initialPopulation (sampling : List (F × F) → Nat → List (List F))
    (history : List (HistoryEntry F)) : Except Raised (Option (List (List F × List F))) :=
  if history.isEmpty || o.bounds.isEmpty then .ok none
  else do
    let rows ← measured N o history
    if rows.isEmpty then return none
    let population ← (sampling o.bounds (min o.popSize rows.length)).mapM (individual N o rows)
    return some population

/-! ## What the selection is to see -/

section

variable [DecidableEq F]

/-- `v` is as good as `w` in all objectives, and better in one. -/
def dominates (v w : List F) : Bool :=
  ((v.zip w).all fun p => N.le p.1 p.2) && (v.zip w).any fun p => !N.le p.2 p.1

/-- The measured points that no measured point dominates. -/
def front (rows : List (List F × List F)) : List (List F) :=
  (rows.filter fun r => rows.all fun s => !dominates N s.2 r.2).map Prod.fst

/-- The points have the whole front among them, or as much of it as there is room for. -/
def Covers (points front : List (List F)) (popSize : Nat) : Prop :=
  (∀ x ∈ front, x ∈ points) ∨ popSize ≤ points.countP fun x => decide (x ∈ front)

/-- The individuals carry what was measured for exactly their points, and the non-dominated
measured points are among them. -/
structure SelectsMeasured (rows : List (List F × List F)) (popSize : Nat)
    (population : List (List F × List F)) : Prop where
  carried : ∀ i ∈ population, i ∈ rows
  covered : Covers (population.map Prod.fst) (front N rows) popSize

/-- Where something was measured, the selection is made among that. -/
def UsesHistory (sampling : List (F × F) → Nat → List (List F))
    (history : List (HistoryEntry F)) : Prop :=
  ∀ rows, measured N o history = .ok rows → rows ≠ [] → o.bounds ≠ [] →
    ∃ population, initialPopulation N o sampling history = .ok (some population) ∧
      SelectsMeasured N rows (min o.popSize rows.length) population

/-- Within the tolerance of `np.allclose`. -/
def Near (x p : List F) : Prop := allClose N x p = some true

/-- What is to hold of the points that are drawn. -/
structure Drawn (rows : List (List F × List F)) (popSize : Nat) (points : List (List F)) :
    Prop where
  /-- Each was measured. -/
  measured : ∀ x ∈ points, x ∈ rows.map Prod.fst
  /-- The first measured point near it had objectives that were measured at it. -/
  first : ∀ x ∈ points, ∀ before row after, rows = before ++ row :: after → Near N x row.1 →
    (∀ b ∈ before, ¬ Near N x b.1) → (x, row.2) ∈ rows
  covered : Covers points (front N rows) popSize

end

/-! ## Lookups -/

variable {N o}

theorem broadcast_eq {x y : List F} (h : x.length = y.length) :
    broadcast x y = some (x.zip y) := by
  unfold broadcast
  exact if_pos h

theorem allClose_self {x : List F} (h : ∀ c ∈ x, N.eq c c = true) : Near N x x := by
  rw [Near, allClose, broadcast_eq rfl, Option.map_some]
  refine congrArg some (List.all_eq_true.mpr fun p hp => ?_)
  obtain ⟨i, hi, rfl⟩ := List.mem_iff_getElem.mp hp
  rw [List.getElem_zip, isClose, h _ (List.getElem_mem _), Bool.or_true]

/-- Points of one length are compared. -/
theorem allClose_isSome {x p : List F} (h : p.length = x.length) :
    ∃ b, allClose N x p = some b := by
  rw [allClose, broadcast_eq h.symm]
  exact ⟨_, rfl⟩

/-- The first measured point that is near gives the objectives. -/
theorem evaluate_eq {rows : List (List F × List F)} {x : List F}
    (hlength : ∀ row ∈ rows, row.1.length = x.length) {before after : List (List F × List F)}
    {row : List F × List F} (hrows : rows = before ++ row :: after) (hnear : Near N x row.1)
    (hfirst : ∀ b ∈ before, ¬ Near N x b.1) : evaluate N o rows x = .ok row.2 := by
  subst hrows
  induction before with
  | nil =>
    rw [List.nil_append, evaluate, hnear]
  | cons b before ih =>
    obtain ⟨hb, hrest⟩ := List.forall_mem_cons.mp hfirst
    obtain ⟨close, hclose⟩ := allClose_isSome (N := N) (hlength b List.mem_cons_self)
    rw [List.cons_append, evaluate, hclose]
    cases close with
    | true => exact absurd hclose hb
    | false => exact ih hrest fun r hr => hlength r (List.mem_cons_of_mem b hr)

/-- A measured point is near a first one. -/
theorem exists_first_near {rows : List (List F × List F)} {x : List F} {row : List F × List F}
    (hrow : row ∈ rows) (hnear : Near N x row.1) :
    ∃ before row after, rows = before ++ row :: after ∧ Near N x row.1 ∧
      ∀ b ∈ before, ¬ Near N x b.1 := by
  induction rows with
  | nil => cases hrow
  | cons r rows ih =>
    by_cases hr : Near N x r.1
    · exact ⟨[], r, rows, rfl, hr, fun _ hb => nomatch hb⟩
    · rcases List.mem_cons.mp hrow with rfl | hrow
      · exact absurd hnear hr
      · obtain ⟨before, row', after, rfl, hnear', hfirst⟩ := ih hrow
        exact ⟨r :: before, row', after, rfl, hnear', List.forall_mem_cons.mpr ⟨hr, hfirst⟩⟩

/-! ## The population -/

/-- The measured points have one length. -/
theorem length_of_measured {history : List (HistoryEntry F)} {rows : List (List F × List F)}
    (h : measured N o history = .ok rows) :
    ∀ row ∈ rows, ∀ row' ∈ rows, row.1.length = row'.1.length := by
  obtain ⟨results, -, h⟩ := bind_eq_ok.mp h
  obtain ⟨points, hpoints, h⟩ := bind_eq_ok.mp h
  obtain ⟨vectors, -, h⟩ := bind_eq_ok.mp h
  cases h
  rw [npRows] at hpoints
  split at hpoints
  next => cases hpoints
  next points' _ =>
    split at hpoints
    next hlength =>
      cases hpoints
      intro row hrow row' hrow'
      rw [hlength _ (List.of_mem_zip hrow).1, hlength _ (List.of_mem_zip hrow').1]
    next => cases hpoints

theorem initialPopulation_eq {sampling : List (F × F) → Nat → List (List F)}
    {history : List (HistoryEntry F)} {rows : List (List F × List F)}
    (h : measured N o history = .ok rows) (hrows : rows ≠ []) (hbounds : o.bounds ≠ []) :
    initialPopulation N o sampling history =
      (sampling o.bounds (min o.popSize rows.length)).mapM (individual N o rows) >>=
        fun population => return some population := by
  have hhistory : history ≠ [] := by
    rintro rfl
    cases h
    exact hrows rfl
  have hcond : (history.isEmpty || o.bounds.isEmpty) = false := by
    cases history with
    | nil => exact absurd rfl hhistory
    | cons => cases hb : o.bounds with
      | nil => exact absurd hb hbounds
      | cons => rfl
  rw [initialPopulation, hcond, if_neg Bool.false_ne_true, h]
  cases rows with
  | nil => exact absurd rfl hrows
  | cons => rfl

/-- What is evaluated for the points that are drawn. -/
theorem mapM_evaluate_eq_ok {rows : List (List F × List F)} {points : List (List F)}
    {population : List (List F × List F)}
    (h : points.mapM (individual N o rows) = .ok population) :
    population.map Prod.fst = points ∧ ∀ i ∈ population, evaluate N o rows i.1 = .ok i.2 := by
  have hall := forall₂_of_mapM_ok h
  clear h
  induction hall with
  | nil => exact ⟨rfl, fun _ hi => nomatch hi⟩
  | @cons x i points population hx _ ih =>
    obtain ⟨vector, hvector, hi⟩ := bind_eq_ok.mp hx
    cases hi
    exact ⟨congrArg (x :: ·) ih.1, List.forall_mem_cons.mpr ⟨hvector, ih.2⟩⟩

variable [DecidableEq F]

/-- The measured points are carried if each point that is drawn is told right. -/
theorem selects_of_drawn {rows : List (List F × List F)} {popSize : Nat} {points : List (List F)}
    (hlength : ∀ row ∈ rows, ∀ row' ∈ rows, row.1.length = row'.1.length)
    (hself : ∀ x ∈ points, ∀ c ∈ x, N.eq c c = true) (h : Drawn N rows popSize points) :
    ∃ population, points.mapM (individual N o rows) = .ok population ∧
      SelectsMeasured N rows popSize population := by
  have htold : ∀ x ∈ points, ∃ vector, evaluate N o rows x = .ok vector ∧ (x, vector) ∈ rows := by
    intro x hx
    obtain ⟨row, hrow, rfl⟩ := List.mem_map.mp (h.measured x hx)
    obtain ⟨before, first, after, hrows, hnear, hfirst⟩ :=
      exists_first_near hrow (allClose_self (hself _ hx))
    exact ⟨first.2, evaluate_eq (fun r hr => hlength r hr row hrow) hrows hnear hfirst,
      h.first _ hx before first after hrows hnear hfirst⟩
  obtain ⟨population, hpopulation⟩ :
      ∃ population, points.mapM (individual N o rows) = .ok population := by
    clear h hself
    induction points with
    | nil => exact ⟨[], rfl⟩
    | cons x points ih =>
      obtain ⟨⟨vector, hvector, -⟩, hrest⟩ := List.forall_mem_cons.mp htold
      obtain ⟨population, hpopulation⟩ := ih hrest
      refine ⟨(x, vector) :: population, ?_⟩
      rw [List.mapM_cons, individual, hvector, hpopulation]
      rfl
  obtain ⟨hpoints, hevaluated⟩ := mapM_evaluate_eq_ok hpopulation
  refine ⟨population, hpopulation, ?_, hpoints ▸ h.covered⟩
  intro i hi
  obtain ⟨vector, hvector, hmem⟩ := htold i.1 (hpoints ▸ List.mem_map_of_mem hi)
  rw [hevaluated i hi] at hvector
  cases hvector
  exact hmem

theorem drawn_of_selects {rows : List (List F × List F)} {popSize : Nat} {points : List (List F)}
    (hlength : ∀ row ∈ rows, ∀ row' ∈ rows, row.1.length = row'.1.length)
    {population : List (List F × List F)}
    (hpopulation : points.mapM (individual N o rows) = .ok population)
    (h : SelectsMeasured N rows popSize population) : Drawn N rows popSize points := by
  obtain ⟨hpoints, hevaluated⟩ := mapM_evaluate_eq_ok hpopulation
  have hmem : ∀ x ∈ points, ∃ vector, (x, vector) ∈ rows ∧ evaluate N o rows x = .ok vector := by
    intro x hx
    obtain ⟨i, hi, rfl⟩ := List.mem_map.mp (hpoints ▸ hx)
    exact ⟨i.2, h.carried i hi, hevaluated i hi⟩
  refine ⟨?_, ?_, hpoints ▸ h.covered⟩
  · intro x hx
    obtain ⟨vector, hrow, -⟩ := hmem x hx
    exact List.mem_map.mpr ⟨(x, vector), hrow, rfl⟩
  · intro x hx before row after hrows hnear hfirst
    obtain ⟨vector, hrow, hvector⟩ := hmem x hx
    rw [evaluate_eq (fun r hr => hlength r hr _ hrow) hrows hnear hfirst] at hvector
    cases hvector
    exact hrow

theorem drawn_iff (sampling : List (F × F) → Nat → List (List F))
    (history : List (HistoryEntry F))
    (hself : ∀ n, ∀ x ∈ sampling o.bounds n, ∀ c ∈ x, N.eq c c = true) :
    UsesHistory N o sampling history ↔
      ∀ rows, measured N o history = .ok rows → rows ≠ [] → o.bounds ≠ [] →
        Drawn N rows (min o.popSize rows.length)
          (sampling o.bounds (min o.popSize rows.length)) := by
  constructor
  · intro h rows hmeasured hrows hbounds
    obtain ⟨population, hpopulation, hselects⟩ := h rows hmeasured hrows hbounds
    rw [initialPopulation_eq hmeasured hrows hbounds] at hpopulation
    obtain ⟨population', hpopulation', hsame⟩ := bind_eq_ok.mp hpopulation
    cases hsame
    exact drawn_of_selects (length_of_measured hmeasured) hpopulation' hselects
  · intro h rows hmeasured hrows hbounds
    obtain ⟨population, hpopulation, hselects⟩ := selects_of_drawn
      (length_of_measured hmeasured) (hself _) (h rows hmeasured hrows hbounds)
    refine ⟨population, ?_, hselects⟩
    rw [initialPopulation_eq hmeasured hrows hbounds, hpopulation]
    rfl

/-- A number, as a fraction. -/
def fraction : Json ℚ → Option ℚ
  | .bool b => some (if b then 1 else 0)
  | .int n => some n
  | .float x => some x
  | _ => none

/-- Fractions for floats; a large one is infinity. -/
def fractions : Numbers ℚ where
  float := fraction
  cell := fraction
  greater a b := (fraction a).bind fun x => (fraction b).map fun y => decide (y < x)
  less a b := (fraction a).bind fun x => (fraction b).map fun y => decide (x < y)
  infinity := 10 ^ 308
  negInfinity := -10 ^ 308
  zero := 0
  one := 1
  penalty := 1000000000
  substitute := 1000000
  atol := 1 / 10000000000
  rtol := 1 / 100000
  add x y := x + y
  sub x y := x - y
  mul x y := x * y
  neg x := -x
  abs x := if x < 0 then -x else x
  le x y := decide (x ≤ y)
  eq x y := decide (x = y)
  isFinite _ := true

/-- Two objectives to be minimised, of one variable between 0 and 1. -/
def oneVariable : Algorithm ℚ where
  objectiveKpis := ["eui", "cost"]
  maximize := [false, false]
  weights := [1, 1]
  constraints := []
  bounds := [(0, 1)]
  popSize := 40

/-- One sample in the middle, with an energy use of 100 and costs of 5. -/
def oneSample : List (HistoryEntry ℚ) :=
  [{ samples := some [{ values := some (Dict.set ∅ "wall" (.float (1 / 2))) }]
     kpiFiles := some [.json (.obj [("kpis", .obj [("eui", .int 100), ("cost", .int 5)])])] }]

theorem measured_oneSample :
    measured fractions oneVariable oneSample = .ok [([1 / 2], [100, 5])] := by
  decide +kernel

theorem measured_point_drawn :
    UsesHistory fractions oneVariable (fun _ _ => [[1 / 2]]) oneSample := by
  refine (drawn_iff _ _ ?_).mpr ?_
  · intro n x _ c _
    exact decide_eq_true rfl
  · intro rows hrows _ _
    rw [measured_oneSample] at hrows
    cases hrows
    refine ⟨by decide +kernel, ?_, .inl (by decide +kernel)⟩
    intro x hx before row after hsplit _ _
    have hrow : row ∈ [([1 / 2], [100, 5])] :=
      hsplit ▸ List.mem_append_right _ List.mem_cons_self
    rw [List.mem_singleton.mp hrow, List.mem_singleton.mp hx]
    exact List.mem_cons_self

/-- A point that was not measured is drawn, and given a million for both objectives. -/
theorem other_point_drawn : ¬ UsesHistory fractions oneVariable
    (fun _ _ => [[3745401188473625 / 10000000000000000]]) oneSample := by
  intro h
  obtain ⟨population, hpopulation, hselects⟩ :=
    h _ measured_oneSample (List.cons_ne_nil _ _) (List.cons_ne_nil _ _)
  have hdrawn : initialPopulation fractions oneVariable
      (fun _ _ => [[3745401188473625 / 10000000000000000]]) oneSample =
        .ok (some [([3745401188473625 / 10000000000000000], [1000000, 1000000])]) := by
    decide +kernel
  rw [hdrawn] at hpopulation
  cases hpopulation
  exact absurd (hselects.carried _ List.mem_cons_self) (by decide +kernel)

end OSimFlow.Algorithms.MeasuredSelection
