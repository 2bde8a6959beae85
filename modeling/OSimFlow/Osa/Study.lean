import OSimFlow.Algorithms.Sampling
import OSimFlow.Apply.OswArguments
import OSimFlow.Lib.Shares

/-!
# A study, and what is asked of its copies

The variables of `variables.yml`, with the settings of a campaign and its template's workflow,
and what two definitions of a variable have in common if they describe the same.

Values are told apart as YAML writes them. Keys of dictionaries are told apart as `==` does: a
number by its value, a boolean as `0` or `1`. The texts of floats, lists and dictionaries and
the characters taken for blanks are parameters. Numbers are exact.
-/

namespace OSimFlow.Osa

open OSimFlow.Lib OSimFlow.Algorithms.Sampling

/-! ## Values -/

inductive Value where
  | null
  | bool (b : Bool)
  | int (n : Int)
  | float (x : Rat)
  | str (s : List Char)
  | list (items : List Value)
  | dict (entries : List (Value × Value))

/-- A key of a dictionary. -/
inductive Key where
  | null
  | number (x : Rat)
  | text (s : List Char)
deriving DecidableEq

/-- What Python writes. -/
structure Texts where
  /-- `repr` of a float. -/
  float : Rat → List Char
  /-- `repr` of a list or a dictionary. -/
  composite : Value → List Char
  /-- `str.isspace`, of a character. -/
  isSpace : Char → Bool

namespace Value

/-- The key that a value is; a list or a dictionary cannot be hashed. -/
def key? : Value → Option Key
  | .null => some .null
  | .bool b => some (.number (if b then 1 else 0))
  | .int n => some (.number n)
  | .float x => some (.number x)
  | .str s => some (.text s)
  | .list _ | .dict _ => none

variable (t : Texts)

/-- `str(value)`. -/
def text : Value → List Char
  | .null => ['N', 'o', 'n', 'e']
  | .bool true => ['T', 'r', 'u', 'e']
  | .bool false => ['F', 'a', 'l', 's', 'e']
  | .int n => (toString n).toList
  | .float x => t.float x
  | .str s => s
  | v => t.composite v

/-- What JSON makes of a dictionary's key. -/
def keyText : Value → List Char
  | .null => ['n', 'u', 'l', 'l']
  | .bool true => ['t', 'r', 'u', 'e']
  | .bool false => ['f', 'a', 'l', 's', 'e']
  | v => v.text t

mutual

/-- `json.loads(json.dumps(value))`. -/
def json : Value → Value
  | .list items => .list (jsonItems items)
  | .dict entries => .dict ((Dict.ofItems (jsonEntries entries)).items.map fun e => (.str e.1, e.2))
  | v => v

def jsonItems : List Value → List Value
  | [] => []
  | v :: vs => v.json :: jsonItems vs

def jsonEntries : List (Value × Value) → List (List Char × Value)
  | [] => []
  | (k, v) :: entries => (k.keyText t, v.json) :: jsonEntries entries

end

/-- A dictionary that is not empty, or nothing. -/
def nonemptyDict : Value → Value
  | .dict (e :: entries) => .dict (e :: entries)
  | _ => .null

end Value

/-! ## Variables -/

/-- An entry of `variables`. An absent `value` or `mapping` is null. -/
structure Variable where
  name : List Char
  distribution : Option Distribution
  min : Option Rat := none
  max : Option Rat := none
  mean : Option Rat := none
  sigma : Option Rat := none
  mode : Option Rat := none
  loc : Option Rat := none
  scale : Option Rat := none
  value : Value := .null
  values : Option (List Value) := none
  pmf : Option (Dict Key Rat) := none
  mapping : Value := .null
  pivot : Bool := false
  measureArgument : Option (List Char) := none
  variableType : Option (List Char) := none
  displayName : Option (List Char) := none

/-- The algorithms that have an OSA name. -/
inductive Algorithm where
  | lhs
  | sobol
  | halton
  | morris
  | fast99
  | fullFactorial
  | grid
  | random
  | repeatAll
  | nsga2
  | spea2
  | pso
  | de
  | ga
  | gaisl
  | rgenoud
deriving DecidableEq

/-- What a campaign is set up with: its configuration, `variables.yml` and the template's
`workflow.osw`. -/
structure Study where
  algorithm : Algorithm
  nSamples : Int
  seed : Option Int := none
  metadataSeed : Option Int := none
  variableDefs : List Variable
  workflow : Option (Apply.Workflow Value) := none

/-- What an import writes to `variables.yml`. -/
structure Imported where
  algorithm : Algorithm
  nSamples : Option Int
  seed : Option Int
  prebuilt : Bool
  variableDefs : List Variable

/-! ## The same variable -/

namespace Variable

variable (v : Variable)

/-- `var.get("distribution", "uniform")`. -/
def kind : Distribution := v.distribution.getD .uniform

/-- The distribution is over a list of values. -/
def Listed : Prop := v.kind = .discrete ∨ v.kind = .categorical

instance : Decidable v.Listed := inferInstanceAs (Decidable (_ ∨ _))

/-- The numbers that the distribution reads. -/
def parameters : List (Option Rat) :=
  match v.kind with
  | .uniform => [v.min, v.max]
  | .normal | .lognormal => [v.mean, v.sigma]
  | .triangular => [v.min, v.max, v.mode]
  | _ => []

def valueList : List Value := v.values.getD []

end Variable

/-- What an unweighted list gives to a key. -/
def evenShare (values : List Value) (k : Key) : Rat :=
  (values.countP fun v => decide (v.key? = some k)) / values.length

/-- How likely a variable over values takes the key. -/
def Variable.share (v : Variable) (k : Key) : Rat :=
  match v.pmf with
  | none => evenShare v.valueList k
  | some pmf => Lib.share pmf k

/-- The two describe the same variable. -/
structure SameVariable (v v' : Variable) : Prop where
  name : v'.name = v.name
  kind : v'.kind = v.kind
  parameters : v'.parameters = v.parameters
  value : v.kind = .static → v'.value = v.value
  values : v.Listed → v'.valueList = v.valueList
  weights : v.Listed → ∀ k, v'.share k = v.share k
  mapping : v'.mapping.nonemptyDict = v.mapping.nonemptyDict
  pivot : v'.pivot = v.pivot
  measureArgument : v'.measureArgument = v.measureArgument

/-- The seed that sampling takes. -/
def Study.samplingSeed (s : Study) : Option Int := s.seed.or s.metadataSeed

/-- The import is the study. -/
structure Preserved (s : Study) (i : Imported) : Prop where
  variableDefs : List.Forall₂ SameVariable s.variableDefs i.variableDefs
  algorithm : i.algorithm = s.algorithm
  nSamples : i.nSamples = some s.nSamples
  seed : i.seed = s.samplingSeed

end OSimFlow.Osa
