import OSimFlow.Lib.Collect
import OSimFlow.Lib.Strip
import OSimFlow.Osa.Study

/-!
# The two converters

`OSAExporter._build_analysis` writes a study as an OpenStudio analysis, and
`osa_to_variables_yml` reads one. Between the two lies JSON, which writes the keys of
dictionaries as texts.

Of the analysis the keys are here that the exporter writes and those that the importer reads
of a distribution or an algorithm. A variable that the exporter has no entry for, or the
importer cannot convert, is left out of the list.
-/

namespace OSimFlow.Osa

open OSimFlow.Lib OSimFlow.Algorithms.Sampling
open OSimFlow.Apply (Workflow truthy dotted)

variable (t : Texts)

/-! ## Names -/

/-- `text.strip()`. -/
def stripped (name : List Char) : List Char := Lib.strip t.isSpace name

/-- `Path(text).name`. -/
def pathName (path : List Char) : List Char :=
  ((path.splitOn '/').filter fun part => decide (part ≠ [] ∧ part ≠ ['.'])).getLastD []

/-- `ref.split(".", 1)`, of a reference with a dot. -/
def splitDot (ref : List Char) : Option (List Char × List Char) :=
  if '.' ∈ ref then
    some (ref.takeWhile fun c => decide (c ≠ '.'),
      (ref.dropWhile fun c => decide (c ≠ '.')).drop 1)
  else none

/-- `"pivot"`. -/
def pivotType : List Char := ['p', 'i', 'v', 'o', 't']

/-- `"variable"`. -/
def variableTypeDefault : List Char := ['v', 'a', 'r', 'i', 'a', 'b', 'l', 'e']

/-! ## An OpenStudio analysis -/

/-- The `type` of a distribution, in lower case. -/
inductive OsaType where
  | uniform
  | normal
  | lognormal
  | lognormalUncertain
  | triangular
  | discrete
  | categorical
  | enum
  | pivot
  | other
deriving DecidableEq

structure OsaDistribution where
  type : OsaType
  minimum : Option Rat := none
  maximum : Option Rat := none
  mean : Option Rat := none
  stddev : Option Rat := none
  sigma : Option Rat := none
  mode : Option Rat := none
  peak : Option Rat := none
  values : Option (List Value) := none
  discreteValues : Option (List Value) := none
  enumerations : Option (List Value) := none
  /-- Each value with its weight, which may be absent. -/
  valuesAndWeights : Option (List (Value × Option Rat)) := none
  weights : Option (List (Option Rat)) := none
  mapping : Value := .null

structure OsaMeasure where
  name : Option (List Char)
  displayName : Option (List Char) := none
  argument : Option (List Char)
  argumentName : Option (List Char) := none

structure OsaVariable where
  name : Option (List Char)
  variableType : Option (List Char)
  defaultValue : Value := .null
  distribution : Option OsaDistribution := none
  displayName : Option (List Char) := none
  measure : Option OsaMeasure := none

structure OsaStep where
  measureDirName : List Char
  name : List Char

/-- The `type` of an algorithm, in lower case. -/
inductive OsaAlgorithm where
  | lhs
  | latinHypercube
  | nsgaNrel
  | pso
  | ga
  | de
  | optim
  | sobol
  | morris
  | fast99
  | doe
  | fullFactorial
  | grid
  | singleRun
  | preflight
  | repeatRun
  | halton
  | random
  | repeatAll
  | speaNrel
  | gaisl
  | rgenoud
  | other
deriving DecidableEq

structure Analysis where
  algorithm : OsaAlgorithm
  numberOfSamples : Option Int
  nSamples : Option Int := none
  seed : Option Int
  variableDefs : List OsaVariable
  workflow : List OsaStep

/-! ## JSON -/

def OsaDistribution.json (d : OsaDistribution) : OsaDistribution :=
  { d with
    values := d.values.map (Value.jsonItems t)
    discreteValues := d.discreteValues.map (Value.jsonItems t)
    enumerations := d.enumerations.map (Value.jsonItems t)
    valuesAndWeights := d.valuesAndWeights.map fun items => items.map fun i => (i.1.json t, i.2)
    mapping := d.mapping.json t }

def OsaVariable.json (v : OsaVariable) : OsaVariable :=
  { v with
    defaultValue := v.defaultValue.json t
    distribution := v.distribution.map (OsaDistribution.json t) }

/-- The analysis as it is read back. -/
def Analysis.json (a : Analysis) : Analysis :=
  { a with variableDefs := a.variableDefs.map (OsaVariable.json t) }

/-! ## Export -/

namespace Exporter

inductive ExportError where
  /-- A list or a dictionary is looked up. -/
  | unhashable
deriving DecidableEq

/-- `_OSIMFLOW_ALGO_TO_OSA`. -/
def translateAlgorithm : Algorithm → OsaAlgorithm
  | .lhs => .lhs
  | .sobol => .sobol
  | .halton => .halton
  | .morris => .morris
  | .fast99 => .fast99
  | .fullFactorial => .doe
  | .grid => .grid
  | .random => .random
  | .repeatAll => .repeatAll
  | .nsga2 => .nsgaNrel
  | .spea2 => .speaNrel
  | .pso => .pso
  | .de => .de
  | .ga => .ga
  | .gaisl => .gaisl
  | .rgenoud => .rgenoud

/-- The weight of a value, under itself or else under its text. -/
def pmfWeight (pmf : Dict Key Rat) (v : Value) : Except ExportError (Option Rat) :=
  match v.key? with
  | none => .error .unhashable
  | some k => .ok ((pmf.get? k).or (pmf.get? (.text (v.text t))))

/-- The loop of `_pmf_weights`. -/
def weightsLoop (pmf : Dict Key Rat) : List Value → Except ExportError (Option (List Rat))
  | [] => .ok (some [])
  | v :: vs =>
    match pmfWeight t pmf v with
    | .error e => .error e
    | .ok none => .ok none
    | .ok (some w) =>
      match weightsLoop pmf vs with
      | .error e => .error e
      | .ok weights => .ok (weights.map (w :: ·))

/-- `_pmf_weights`. -/
def pmfWeights (values : List Value) (pmf : Option (Dict Key Rat)) :
    Except ExportError (Option (List Rat)) :=
  match pmf with
  | none => .ok none
  | some pmf => if values = [] then .ok none else weightsLoop t pmf values

/-- `_build_uniform_from_var`. -/
def buildUniformFromVar (v : Variable) : OsaDistribution :=
  let loc := v.loc.getD 0
  let scale := v.scale.getD 1
  if v.min = none ∧ v.max = none then
    { type := .uniform, minimum := some loc, maximum := some (loc + scale * 4) }
  else { type := .uniform, minimum := some (v.min.getD loc), maximum := some (v.max.getD scale) }

/-- The distributions over values. -/
def convertListed (v : Variable) (type : OsaType) : Except ExportError OsaDistribution :=
  match pmfWeights t v.valueList v.pmf with
  | .error e => .error e
  | .ok weights =>
    .ok { type := type, values := some v.valueList, weights := weights.map (List.map some),
          mapping := v.mapping.nonemptyDict }

/-- `_convert_distribution`. -/
def convertDistribution (v : Variable) : Distribution → Except ExportError OsaDistribution
  | .beta | .gamma | .exponential => .ok (buildUniformFromVar v)
  | .discrete => convertListed t v .discrete
  | .categorical => convertListed t v .categorical
  | .uniform => .ok { type := .uniform, minimum := v.min, maximum := v.max }
  | .normal => .ok { type := .normal, mean := v.mean, stddev := v.sigma }
  | .lognormal => .ok { type := .lognormal, mean := v.mean, stddev := v.sigma }
  | .triangular =>
    .ok { type := .triangular, minimum := v.min, maximum := v.max, mode := v.mode }
  | _ => .ok { type := .uniform }

/-- The distribution of a pivot. -/
def convertPivot (v : Variable) : OsaDistribution :=
  { type := .pivot, values := some v.valueList, mapping := v.mapping.nonemptyDict }

/-- The reference to a measure, of a `measure_argument` with a dot. -/
def measureOf (measureArgument : Option (List Char)) : Option OsaMeasure :=
  (measureArgument.bind splitDot).map fun parts => ⟨some parts.1, some parts.1, some parts.2, none⟩

/-- `_convert_variable`. -/
def convertVariable (v : Variable) : Except ExportError (Option OsaVariable) :=
  if v.name = [] then .ok none
  else
    let variableType :=
      if v.pivot then some pivotType else some (v.variableType.getD variableTypeDefault)
    if v.kind = .static then
      .ok (some ⟨some v.name, variableType, v.value, none, truthy v.displayName,
        measureOf v.measureArgument⟩)
    else
      let dist := if v.pivot then .ok (convertPivot v) else convertDistribution t v v.kind
      match dist with
      | .error e => .error e
      | .ok d =>
        .ok (some ⟨some v.name, variableType, .null, some d, truthy v.displayName,
          measureOf v.measureArgument⟩)

/-- The loop of `_build_variables`. -/
def buildVariables : List Variable → Except ExportError (List OsaVariable) :=
  collect (convertVariable t)

/-- An entry of `problem.workflow`. -/
def workflowStep (s : Apply.Step Value) : Option OsaStep :=
  match s.measureDirName with
  | none => none
  | some dir =>
    if stripped t dir = [] then none
    else
      let dir := pathName (stripped t dir)
      some ⟨dir, ((s.name.map (stripped t)).filter fun n => decide (n ≠ [])).getD dir⟩

/-- `_build_workflow`. -/
def buildWorkflow (workflow : Option (Workflow Value)) : List OsaStep :=
  match workflow with
  | none => []
  | some w => w.steps.filterMap fun step => step.bind (workflowStep t)

/-- `_build_analysis`. -/
def buildAnalysis (s : Study) : Except ExportError Analysis :=
  match buildVariables t s.variableDefs with
  | .error e => .error e
  | .ok variableDefs =>
    .ok { algorithm := translateAlgorithm s.algorithm
          numberOfSamples := some s.nSamples
          seed := s.seed.or s.metadataSeed
          variableDefs := variableDefs
          workflow := buildWorkflow t s.workflow }

end Exporter

/-! ## Import -/

namespace Importer

inductive ImportFailure where
  /-- `OSAImportError`. -/
  | osaImportError
  | keyError
  | typeError
deriving DecidableEq

/-- `_require_keys`, of one key. -/
def requireKey : Option Rat → Except ImportFailure Rat
  | none => .error .osaImportError
  | some x => .ok x

/-- `a or b`, of numbers. -/
def orNumber (a b : Option Rat) : Option Rat :=
  match a with
  | none => b
  | some x => if x = 0 then b else some x

/-- `_map_uniform`. -/
def mapUniform (d : OsaDistribution) : Except ImportFailure Variable := do
  let min ← requireKey d.minimum
  let max ← requireKey d.maximum
  return { name := [], distribution := some .uniform, min := some min, max := some max }

/-- `_map_normal` and `_map_lognormal`. -/
def mapNormal (dist : Distribution) (d : OsaDistribution) : Except ImportFailure Variable := do
  let mean ← requireKey d.mean
  let sigma ← requireKey (orNumber d.stddev d.sigma)
  return { name := [], distribution := some dist, mean := some mean, sigma := some sigma }

/-- `osa_dist[key]`. -/
def item : Option Rat → Except ImportFailure Rat
  | none => .error .keyError
  | some x => .ok x

/-- `_map_triangular`. -/
def mapTriangular (d : OsaDistribution) : Except ImportFailure Variable := do
  let min ← item d.minimum
  let max ← item d.maximum
  return { name := [], distribution := some .triangular, min := some min, max := some max,
           mode := orNumber d.mode d.peak }

/-- The weights as numbers; an absent one is none. -/
def numericWeights : List (Option Rat) → Except ImportFailure (List Rat)
  | [] => .ok []
  | none :: _ => .error .osaImportError
  | some w :: ws =>
    match numericWeights ws with
    | .error e => .error e
    | .ok rest => .ok (w :: rest)

/-- `dict(zip(values, numeric))`. -/
def pmfOf : List Value → List Rat → Except ImportFailure (List (Key × Rat))
  | v :: vs, w :: ws =>
    match v.key?, pmfOf vs ws with
    | none, _ => .error .typeError
    | some _, .error e => .error e
    | some k, .ok rest => .ok ((k, w) :: rest)
  | _, _ => .ok []

/-- `len(set(numeric)) == 1`. -/
def AllEqual (ws : List Rat) : Prop := ∀ w ∈ ws, ∀ w' ∈ ws, w = w'

instance (ws : List Rat) : Decidable (AllEqual ws) := List.decidableBAll _ ws

/-- `_build_pmf`. -/
def buildPmf (values : List Value) (weights : Option (List (Option Rat))) :
    Except ImportFailure (Option (Dict Key Rat)) :=
  match weights with
  | none => .ok none
  | some weights =>
    if weights.length ≠ values.length then .error .osaImportError
    else
      match numericWeights weights with
      | .error e => .error e
      | .ok numeric =>
        if (∃ w ∈ numeric, w < 0) ∨ numeric.sum ≤ 0 then .error .osaImportError
        else if AllEqual numeric then .ok none
        else if ¬ (values.map (Value.text t)).Nodup then .error .osaImportError
        else
          match pmfOf values numeric with
          | .error e => .error e
          | .ok items => .ok (some (Dict.ofItems items))

/-- `a or b`, of lists. -/
def orList (a b : Option (List Value)) : List Value :=
  match a with
  | some (v :: vs) => v :: vs
  | _ => b.getD []

/-- `_map_discrete_or_categorical`. -/
def mapDiscreteOrCategorical (dist : Distribution) (d : OsaDistribution) :
    Except ImportFailure Variable :=
  let listed := orList d.values d.discreteValues
  let values :=
    if listed = [] then (d.valuesAndWeights.getD []).map Prod.fst else listed
  let weights :=
    if listed = [] then (d.valuesAndWeights.map (List.map Prod.snd)).or d.weights else d.weights
  if values = [] then .error .osaImportError
  else
    match buildPmf t values weights with
    | .error e => .error e
    | .ok pmf =>
      .ok { name := [], distribution := some dist, values := some values, pmf := pmf,
            mapping := d.mapping.nonemptyDict }

/-- `_map_distribution`, with `OSA_DISTRIBUTION_MAP`. -/
def mapDistribution (d : OsaDistribution) : Except ImportFailure Variable :=
  match d.type with
  | .uniform => mapUniform d
  | .normal => mapNormal .normal d
  | .lognormal | .lognormalUncertain => mapNormal .lognormal d
  | .triangular => mapTriangular d
  | .discrete => mapDiscreteOrCategorical t .discrete d
  | .categorical | .enum | .pivot => mapDiscreteOrCategorical t .categorical d
  | .other => .error .osaImportError

/-- `_resolve_measure_argument`. -/
def resolveMeasureArgument (measure : Option OsaMeasure) : Option (List Char) :=
  match measure with
  | none => none
  | some m =>
    match (truthy m.name).or (truthy m.displayName),
        (truthy m.argument).or (truthy m.argumentName) with
    | some measureName, some argument => some (dotted measureName argument)
    | _, _ => none

/-- `_attach_common_fields`. -/
def attachCommonFields (entry : Variable) (v : OsaVariable) (variableType : Option (List Char)) :
    Variable :=
  { entry with
    variableType :=
      match truthy variableType with
      | none => entry.variableType
      | some variableType =>
        if variableType = variableTypeDefault then entry.variableType else some variableType
    measureArgument := resolveMeasureArgument v.measure
    displayName := (truthy v.displayName).filter fun n => decide (n ≠ entry.name) }

/-- `_convert_static_variable`. -/
def convertStaticVariable (name : List Char) (v : OsaVariable) : Variable :=
  attachCommonFields { name := name, distribution := some .static, value := v.defaultValue } v
    v.variableType

/-- `_convert_pivot_variable`. -/
def convertPivotVariable (name : List Char) (v : OsaVariable) (d : OsaDistribution) : Variable :=
  let values := orList (some (orList d.values d.discreteValues)) d.enumerations
  attachCommonFields
    { name := name, distribution := some .categorical, values := some values,
      mapping := d.mapping.nonemptyDict, pivot := true, variableType := some pivotType }
    v (some pivotType)

/-- `_convert_variable`; a variable that cannot be converted leaves a warning. -/
def convertVariable (v : OsaVariable) : Except ImportFailure (Option Variable) :=
  match (truthy v.name).or (truthy v.displayName) with
  | none => .ok none
  | some name =>
    match v.distribution with
    | none => .ok (some (convertStaticVariable name v))
    | some d =>
      if v.variableType = some pivotType ∨ d.type = .pivot then
        .ok (some (convertPivotVariable name v d))
      else
        match mapDistribution t d with
        | .error .osaImportError => .ok none
        | .error e => .error e
        | .ok entry =>
          .ok (some (attachCommonFields { entry with name := name } v v.variableType))

/-- `_OSA_ALGORITHM_MAP`. -/
def osaAlgorithmMap : OsaAlgorithm → Option Algorithm
  | .lhs | .latinHypercube => some .lhs
  | .nsgaNrel => some .nsga2
  | .pso => some .pso
  | .ga => some .ga
  | .de | .optim => some .de
  | .sobol => some .sobol
  | .morris => some .morris
  | .fast99 => some .fast99
  | .doe | .fullFactorial => some .fullFactorial
  | .grid => some .grid
  | .singleRun | .preflight | .repeatRun => some .lhs
  | .halton => some .halton
  | .random => some .random
  | .repeatAll => some .repeatAll
  | .speaNrel => some .spea2
  | .gaisl => some .gaisl
  | .rgenoud => some .rgenoud
  | .other => none

/-- `_PREBUILT_ALGORITHM_TYPES`. -/
def Prebuilt (a : OsaAlgorithm) : Prop := a = .singleRun ∨ a = .preflight ∨ a = .repeatRun

instance (a : OsaAlgorithm) : Decidable (Prebuilt a) := inferInstanceAs (Decidable (_ ∨ _ ∨ _))

/-! ### The steps' names -/

/-- `_measure_step_name`; empty where there is none. -/
def measureStepName (s : OsaStep) : List Char :=
  if stripped t s.measureDirName ≠ [] then pathName (stripped t s.measureDirName)
  else stripped t s.name

/-- More than one step has the measure: `dir_counts[c] > 1`. -/
def Shared (steps : List OsaStep) (c : List Char) : Prop :=
  1 < steps.countP fun s => decide (measureStepName t s = c)

instance (steps : List OsaStep) (c : List Char) : Decidable (Shared t steps c) :=
  inferInstanceAs (Decidable (_ < _))

/-- `_step_instance_name`. -/
def stepInstanceName (steps : List OsaStep) (s : OsaStep) : List Char :=
  let canonical := measureStepName t s
  if canonical ≠ [] ∧ Shared t steps canonical ∧ stripped t s.name ≠ [] then stripped t s.name
  else canonical

/-- The identifiers of a step, each with the name that references it. -/
def stepAliases (steps : List OsaStep) (s : OsaStep) : List (List Char × List Char) :=
  let canonical := measureStepName t s
  let target := stepInstanceName t steps s
  if canonical = [] ∨ target = [] then []
  else if Shared t steps canonical ∧ target = canonical then []
  else
    let candidates := [if Shared t steps canonical then target else canonical, s.name]
    candidates.filterMap fun cand =>
      if stripped t cand = [] ∨ (Shared t steps canonical ∧ stripped t cand = canonical) then none
      else some (stripped t cand, target)

/-- `_build_step_alias_map`: what an identifier is an alias of. -/
def stepAlias (steps : List OsaStep) (identifier : List Char) : Option (List Char) :=
  match (((steps.flatMap (stepAliases t steps)).filter fun a => decide (a.1 = identifier)).map
    Prod.snd).dedup with
  | [target] => some target
  | _ => none

/-- `_normalize_variable_measures`, for one variable. -/
def normalizeVariableMeasure (steps : List OsaStep) (v : OsaVariable) : OsaVariable :=
  match v.measure with
  | some m =>
    match (m.name.bind (stepAlias t steps)).or (m.displayName.bind (stepAlias t steps)) with
    | some canonical => { v with measure := some { m with name := some canonical } }
    | none => v
  | none =>
    match v.name.bind splitDot with
    | none => v
    | some (identifier, argument) =>
      match stepAlias t steps identifier with
      | some target => { v with measure := some ⟨some target, none, some argument, none⟩ }
      | none => v

/-- The loop of `_extract_problem_variables`. -/
def convertVariables : List OsaVariable → Except ImportFailure (List Variable) :=
  collect (convertVariable t)

/-- `_extract_problem_variables`; the flag says that the workflow is prebuilt. -/
def extractProblemVariables (a : Analysis) : Except ImportFailure (List Variable × Bool) :=
  if a.variableDefs = [] then
    if a.workflow ≠ [] ∨ Prebuilt a.algorithm then .ok ([], true) else .error .osaImportError
  else
    match convertVariables t (a.variableDefs.map (normalizeVariableMeasure t a.workflow)) with
    | .error e => .error e
    | .ok [] => .error .osaImportError
    | .ok converted => .ok (converted, false)

/-- `_extract_n_samples`. -/
def extractNSamples (a : Analysis) : Except ImportFailure (Option Int) :=
  match a.numberOfSamples.or a.nSamples with
  | none => .ok none
  | some n => if n < 1 then .error .osaImportError else .ok (some n)

/-- `_cartesian_sample_count`: the product, once a variable has been counted. -/
def cartesianSampleCount (variableDefs : List Variable) : Option Int :=
  let levels (v : Variable) : Option Int :=
    if v.kind = .conditional ∨ v.kind = .static then some 1
    else if v.valueList ≠ [] then some v.valueList.length
    else if v.min ≠ none ∧ v.max ≠ none then some 2
    else none
  if variableDefs.all fun v => decide (v.kind = .conditional) then none
  else (variableDefs.mapM levels).map List.prod

/-- `osa_to_variables_yml`; `available` says whether an algorithm is registered. -/
def osaToVariablesYml (available : Algorithm → Bool) (a : Analysis) :
    Except ImportFailure Imported :=
  match osaAlgorithmMap a.algorithm with
  | none => .error .osaImportError
  | some algorithm =>
    if available algorithm = false then .error .osaImportError
    else do
      let nSamples ← extractNSamples a
      let (variableDefs, prebuilt) ← extractProblemVariables t a
      let fallback :=
        if prebuilt then some 1
        else if algorithm = .fullFactorial then cartesianSampleCount variableDefs
        else none
      return { algorithm := algorithm, nSamples := nSamples.or fallback, seed := a.seed,
               prebuilt := prebuilt, variableDefs := variableDefs }

end Importer

/-! ## Export, then import -/

inductive Failure where
  | exporting (e : Exporter.ExportError)
  | importing (e : Importer.ImportFailure)

/-- The study's analysis, written and read back. -/
def roundTrip (available : Algorithm → Bool) (s : Study) : Except Failure Imported :=
  match Exporter.buildAnalysis t s with
  | .error e => .error (.exporting e)
  | .ok a =>
    match Importer.osaToVariablesYml t available (a.json t) with
    | .error e => .error (.importing e)
    | .ok i => .ok i

end OSimFlow.Osa
