import OSimFlow.Json
import OSimFlow.Lib.Separator
import OSimFlow.Lib.Succeeds

/-!
# What the measures report in `out.osw`

The values of a step are filed under the directory of its measure, or, where it has none,
under its name; where a directory comes in several steps, also under the name of the step,
if no other of them has it and no directory is called so. A key is a prefix and an
attribute, joined by a dot.

> `get?_stepValues`: a key has the value that was reported last under it.
>
> `attributed_iff`: when the values of a directory, a step name and an attribute are what the
> key says.
-/

namespace OSimFlow.Aggregation.OutOsw

open OSimFlow.Lib (Dict append_char_eq_iff ne_append_char bind_eq_ok)

/-! ## JSON -/

/-- What is used of Python: `str(v)`, and whether a float is zero. -/
structure Python (F : Type) where
  str : Json F → String
  str_str : ∀ s, str (.str s) = s
  isZero : F → Bool

/-- What is raised on the way. -/
inductive Raised where
  /-- An integer has more digits than Python converts. -/
  | valueError
  | typeError
deriving DecidableEq

/-- What there is to read. -/
inductive Content (F : Type) where
  | missing
  | unparseable
  | tooManyDigits
  | json (value : Json F)

variable {F : Type} (py : Python F)

/-- `bool(v)`. -/
def truthy : Json F → Bool
  | .null => false
  | .bool b => b
  | .int n => n != 0
  | .float x => !py.isZero x
  | .str s => s != ""
  | .arr items => !items.isEmpty
  | .obj items => !items.isEmpty

/-- `d.get(key)`, with `None` for no value. -/
def field (items : List (String × Json F)) (key : String) : Option (Json F) :=
  match (Dict.update ∅ items).get? key with
  | some .null => none
  | value => value

/-- `d.get(key)` where it is used as a truth value. -/
def truthyField (items : List (String × Json F)) (key : String) : Option (Json F) :=
  (field items key).filter (truthy py)

/-- `isinstance(v, dict)`. -/
def asObject : Json F → Option (List (String × Json F))
  | .obj items => some items
  | _ => none

/-- `_str_list`. -/
def strList : Option (Json F) → List String
  | none => []
  | some (.arr items) => items.map py.str
  | some value => [py.str value]

/-! ## Records -/

/-- `OswStepValue`. -/
structure OswStepValue (F : Type) where
  name : String
  value : Json F
  units : String
  displayName : Option String
  shortName : Option String

/-- `OswStepResult`. -/
structure OswStepResult (F : Type) where
  measure : String
  stepName : Option String
  stepResult : Option String
  values : List (OswStepValue F)
  warnings : List String
  info : List String
  errors : List String
  initialCondition : Option String
  finalCondition : Option String

/-- `OswResults`, without a status where there is none. -/
structure OswResults (F : Type) where
  completedStatus : Option String
  stepValues : Dict String (Json F)
  stepUnits : Dict String String
  stepValueDetails : Dict String (OswStepValue F)
  stepErrors : List String
  steps : List (OswStepResult F)

def OswResults.new (completedStatus : Option String) : OswResults F :=
  ⟨completedStatus, ∅, ∅, ∅, [], []⟩

/-- `_step_value`, of an item that has a name and a value. -/
def stepValue (item : Json F) : Option (OswStepValue F) :=
  match asObject item with
  | none => none
  | some item =>
    match field item "name", (Dict.update ∅ item).get? "value" with
    | some name, some value => some
        { name := py.str name
          value := value
          units := ((field item "units").map py.str).getD ""
          displayName := (field item "display_name").map py.str
          shortName := (field item "short_name").map py.str }
    | _, _ => none

/-- The items of `step_values`; what a string or an object is iterated over are no objects. -/
def stepItems (result : List (String × Json F)) : Except Raised (List (Json F)) :=
  match truthyField py result "step_values" with
  | none => .ok []
  | some (.arr items) => .ok items
  | some (.obj _) | some (.str _) => .ok []
  | some _ => .error .typeError

/-! ## Steps -/

/-- `str(step["measure_dir_name"])`, where there is one. -/
def dirOf (step : List (String × Json F)) : Option String :=
  (truthyField py step "measure_dir_name").map py.str

/-- The name, where it is a string and not empty. -/
def nameOf (step : List (String × Json F)) : Option String :=
  match field step "name" with
  | some (.str name) => if name = "" then none else some name
  | _ => none

/-- `str(step.get("measure_dir_name") or step.get("name"))`. -/
def measureOf (step : List (String × Json F)) : Option String :=
  (dirOf py step).or ((truthyField py step "name").map py.str)

def resultOf (step : List (String × Json F)) : Option (List (String × Json F)) :=
  (field step "result").bind asObject

/-- `counts[key] = counts.get(key, 0) + 1`, for each key. -/
def counts (keys : List String) : Dict String Nat :=
  keys.foldl (fun d key => d.set key ((d.get? key).getD 0 + 1)) ∅

/-- The steps that are objects. -/
def objectsOf (osw : List (String × Json F)) : List (List (String × Json F)) :=
  match truthyField py osw "steps" with
  | some (.arr steps) => steps.filterMap asObject
  | _ => []

def dirs (osw : List (String × Json F)) : List String := (objectsOf py osw).filterMap (dirOf py)

/-- The names of the steps that have a directory. -/
def namesBesideDirs (osw : List (String × Json F)) : List String :=
  (objectsOf py osw).filterMap fun step => if (dirOf py step).isSome then nameOf step else none

/-- `_key_prefixes`. -/
def keyPrefixes (step : List (String × Json F)) (measure : String)
    (dirCounts nameCounts : Dict String Nat) : List String :=
  measure :: match nameOf step with
    | some name =>
      if (dirOf py step).isSome ∧ 1 < (dirCounts.get? measure).getD 0 ∧ name ∉ dirCounts.keys ∧
          nameCounts.get? name = some 1 then [name]
      else []
    | none => []

/-- The key of an attribute. -/
def keyOf (keyPrefix name : String) : String := keyPrefix ++ "." ++ name

/-- A value, filed under each of the prefixes. -/
def OswResults.file (out : OswResults F) (prefixes : List String) (detail : OswStepValue F) :
    OswResults F :=
  prefixes.foldl (fun out keyPrefix =>
    { out with
      stepValues := out.stepValues.set (keyOf keyPrefix detail.name) detail.value
      stepUnits := out.stepUnits.set (keyOf keyPrefix detail.name) detail.units
      stepValueDetails := out.stepValueDetails.set (keyOf keyPrefix detail.name) detail }) out

/-- `_first` of the two spellings. -/
def first (result : List (String × Json F)) (key key' : String) : Option String :=
  ((field result key).or (field result key')).map py.str

/-- The body of the loop. -/
def visit (dirCounts nameCounts : Dict String Nat) (out : OswResults F)
    (step : List (String × Json F)) : Except Raised (OswResults F) :=
  match measureOf py step, resultOf step with
  | some measure, some result => do
    let items ← stepItems py result
    let details := items.filterMap (stepValue py)
    let prefixes := keyPrefixes py step measure dirCounts nameCounts
    let out := details.foldl (fun out detail => out.file prefixes detail) out
    let errors := strList py (field result "step_errors")
    return { out with
      stepErrors := out.stepErrors ++ errors
      steps := out.steps ++ [
        { measure := measure
          stepName := match field step "name" with
            | some (.str name) => some name
            | _ => none
          stepResult := (field result "step_result").map py.str
          values := details
          warnings := strList py (field result "step_warnings")
          info := strList py (field result "step_info")
          errors := errors
          initialCondition := first py result "step_initial_condition" "step_InitialCondition"
          finalCondition := first py result "step_final_condition" "step_FinalCondition" }] }
  | _, _ => .ok out

/-- `read_out_osw`. -/
def readOutOsw (content : Content F) : Except Raised (OswResults F) :=
  match content with
  | .tooManyDigits => .error .valueError
  | .json (.obj osw) =>
    (objectsOf py osw).foldlM (visit py (counts (dirs py osw)) (counts (namesBesideDirs py osw)))
      (OswResults.new ((field osw "completed_status").map py.str))
  | _ => .ok (OswResults.new none)

/-! ## What is reported -/

/-- A step that reports: its directory, if it has one, what its values are filed under, and
the values. -/
structure Reported (F : Type) where
  dir : Option String
  measure : String
  prefixes : List String
  details : List (OswStepValue F)

/-- What a step reports; nothing, where that cannot be iterated over. -/
def reportOf (dirCounts nameCounts : Dict String Nat) (step : List (String × Json F)) :
    Option (Reported F) :=
  match measureOf py step, resultOf step with
  | some measure, some result => some
      { dir := dirOf py step
        measure := measure
        prefixes := keyPrefixes py step measure dirCounts nameCounts
        details := ((stepItems py result).toOption.getD []).filterMap (stepValue py) }
  | _, _ => none

def reports (osw : List (String × Json F)) : List (Reported F) :=
  (objectsOf py osw).filterMap
    (reportOf py (counts (dirs py osw)) (counts (namesBesideDirs py osw)))

/-- The records that a step files, each under a prefix and an attribute. -/
def Reported.writes (r : Reported F) : List ((String × String) × OswStepValue F) :=
  r.details.flatMap fun detail => r.prefixes.map fun keyPrefix => ((keyPrefix, detail.name), detail)

/-- The record that a step reports last for an attribute. -/
def Reported.last (r : Reported F) (name : String) : Option (OswStepValue F) :=
  Dict.lastOf name (r.details.map fun detail => (detail.name, detail))

/-- The record that the steps with `p` report last for an attribute. -/
def lastAmong (osw : List (String × Json F)) (p : Reported F → Prop) [DecidablePred p]
    (name : String) : Option (OswStepValue F) :=
  Dict.lastOf name (((reports py osw).filter fun r => decide (p r)).flatMap fun r =>
    r.details.map fun detail => (detail.name, detail))

/-! ## What the keys are to say -/

/-- The name of a step as a text. -/
def labelOf (step : List (String × Json F)) : Option String :=
  (truthyField py step "name").map py.str

/-- The values of `out.osw` are attributed to the steps that report them. -/
structure Attributes (osw : List (String × Json F)) (out : OswResults F) : Prop where
  /-- Under a directory is what a step of it reports last. -/
  ofDir : ∀ r ∈ reports py osw, ∀ keyPrefix ∈ r.prefixes, keyPrefix ∈ dirs py osw →
    ∀ detail ∈ r.details, ∃ last,
      lastAmong py osw (fun r => r.dir = some keyPrefix) detail.name = some last ∧
      out.stepValues.get? (keyOf keyPrefix detail.name) = some last.value
  /-- Under a step name is what the step reports. -/
  ofStep : ∀ r ∈ reports py osw, ∀ keyPrefix ∈ r.prefixes, keyPrefix ∉ dirs py osw →
    ∀ name last, r.last name = some last →
      out.stepValues.get? (keyOf keyPrefix name) = some last.value
  /-- A key says what the prefix and the attribute are. -/
  distinct : ∀ r ∈ reports py osw, ∀ r' ∈ reports py osw, ∀ w ∈ r.writes, ∀ w' ∈ r'.writes,
    keyOf w.1.1 w.1.2 = keyOf w'.1.1 w'.1.2 → w.1 = w'.1
  /-- The units and the records are filed under the same keys, and agree. -/
  details : ∀ key,
    out.stepUnits.get? key = (out.stepValueDetails.get? key).map OswStepValue.units ∧
    out.stepValues.get? key = (out.stepValueDetails.get? key).map OswStepValue.value
  /-- A step of a directory that comes again is found under its name, if it is the only step
  with the name and no directory is called so. -/
  reachable : ∀ step ∈ objectsOf py osw, ∀ dir name, dirOf py step = some dir →
    1 < (dirs py osw).count dir → nameOf step = some name → name ∉ dirs py osw →
    ((objectsOf py osw).filterMap (labelOf py)).count name = 1 →
    ∀ r, reportOf py (counts (dirs py osw)) (counts (namesBesideDirs py osw)) step = some r →
      ∀ detail ∈ r.details,
        out.stepValues.get? (keyOf name detail.name) = some detail.value

def Attributed (content : Content F) : Prop :=
  ∃ out, readOutOsw py content = .ok out ∧
    match content with
    | .json (.obj osw) => Attributes py osw out
    | _ => out.stepValues = ∅ ∧ out.stepUnits = ∅ ∧ out.stepValueDetails = ∅

/-! ## When they say it -/

/-- A truth value or a number, for a list of values. -/
def Scalar (result : List (String × Json F)) : Prop :=
  ∃ value, truthyField py result "step_values" = some value ∧
    match value with
    | .arr _ | .obj _ | .str _ => False
    | _ => True

/-- `keyPrefix'` goes on behind `keyPrefix` and a dot as `name` begins, and both end in
`name'`. -/
def Splits (keyPrefix keyPrefix' name name' : String) : Prop :=
  ∃ x, keyPrefix' = keyPrefix ++ "." ++ x ∧ name = x ++ "." ++ name'

/-- What is to hold of the contents. -/
structure Clear (osw : List (String × Json F)) : Prop where
  /-- No step that reports has a truth value or a number for its values. -/
  iterable : ∀ step ∈ objectsOf py osw, ∀ measure result, measureOf py step = some measure →
    resultOf step = some result → ¬ Scalar py result
  /-- No attribute begins with what another prefix has behind the prefix. -/
  unsplit : ∀ r ∈ reports py osw, ∀ r' ∈ reports py osw, ∀ w ∈ r.writes, ∀ w' ∈ r'.writes,
    ¬ Splits w.1.1 w'.1.1 w.1.2 w'.1.2
  /-- What a step without a directory reports that is called like one, a step of the directory
  reports, and the last of all of them reports the same value as the last of these. -/
  dirs : ∀ r ∈ reports py osw, r.dir = none → r.measure ∈ dirs py osw → ∀ detail ∈ r.details,
    ∃ last last', lastAmong py osw (fun r' => r'.dir = some r.measure) detail.name = some last ∧
      lastAmong py osw (fun r' => r'.measure = r.measure) detail.name = some last' ∧
      last'.value = last.value
  /-- Two steps that are filed under one step name report no different values for an
  attribute. -/
  names : ∀ r ∈ reports py osw, ∀ r' ∈ reports py osw, ∀ keyPrefix ∈ r.prefixes,
    keyPrefix ∈ r'.prefixes → keyPrefix ∉ OutOsw.dirs py osw → ∀ name last last',
      r.last name = some last → r'.last name = some last' → last.value = last'.value
  /-- A step that is found under its name reports no two values for an attribute. -/
  once : ∀ step ∈ objectsOf py osw, ∀ dir name, dirOf py step = some dir →
    1 < (OutOsw.dirs py osw).count dir → nameOf step = some name → name ∉ OutOsw.dirs py osw →
    ((objectsOf py osw).filterMap (labelOf py)).count name = 1 →
    ∀ r, reportOf py (counts (OutOsw.dirs py osw)) (counts (namesBesideDirs py osw)) step = some r →
      ∀ detail ∈ r.details, ∀ detail' ∈ r.details, detail.name = detail'.name →
        detail.value = detail'.value

def ClearContent (content : Content F) : Prop :=
  match content with
  | .tooManyDigits => False
  | .json (.obj osw) => Clear py osw
  | _ => True

/-! ## What is filed -/

section

variable {py}

theorem get?_counts (keys : List String) (k : String) :
    (counts keys).get? k = if k ∈ keys then some (keys.count k) else none := by
  have hfold : ∀ (keys : List String) (d : Dict String Nat),
      (keys.foldl (fun d key => d.set key ((d.get? key).getD 0 + 1)) d).get? k =
        if k ∈ keys then some ((d.get? k).getD 0 + keys.count k) else d.get? k := by
    intro keys
    induction keys with
    | nil => exact fun d => rfl
    | cons key keys ih =>
      intro d
      rw [List.foldl_cons, ih, Dict.get?_set, List.count_cons]
      by_cases hkey : key = k
      · subst hkey
        rw [if_pos rfl, if_pos List.mem_cons_self, beq_self_eq_true, if_pos rfl, Option.getD_some]
        split
        next => exact congrArg some (by omega)
        next hnot => rw [List.count_eq_zero_of_not_mem hnot, Nat.zero_add]
      · rw [if_neg hkey, beq_false_of_ne hkey, if_neg Bool.false_ne_true, Nat.add_zero]
        by_cases hmem : k ∈ keys
        · rw [if_pos hmem, if_pos (List.mem_cons_of_mem key hmem)]
        · rw [if_neg hmem, if_neg]
          intro h
          rcases List.mem_cons.mp h with heq | hin
          · exact hkey heq.symm
          · exact hmem hin
  rw [counts, hfold]
  simp

theorem mem_keys_counts {keys : List String} {k : String} : k ∈ (counts keys).keys ↔ k ∈ keys := by
  rw [Dict.mem_keys_iff, get?_counts]
  constructor
  · intro h
    obtain ⟨n, hn⟩ := h
    by_contra hnot
    rw [if_neg hnot] at hn
    cases hn
  · intro h
    exact ⟨_, if_pos h⟩

/-- The three dictionaries that the values are filed in. -/
abbrev Filed (F : Type) := Dict String (Json F) × Dict String String × Dict String (OswStepValue F)

def OswResults.filed (out : OswResults F) : Filed F :=
  (out.stepValues, out.stepUnits, out.stepValueDetails)

/-- One record, filed under its key. -/
def fileWrite (filed : Filed F) (w : (String × String) × OswStepValue F) : Filed F :=
  (filed.1.set (keyOf w.1.1 w.1.2) w.2.value, filed.2.1.set (keyOf w.1.1 w.1.2) w.2.units,
    filed.2.2.set (keyOf w.1.1 w.1.2) w.2)

theorem filed_file (prefixes : List String) (detail : OswStepValue F) (out : OswResults F) :
    (out.file prefixes detail).filed =
      (prefixes.map fun keyPrefix => ((keyPrefix, detail.name), detail)).foldl fileWrite
        out.filed := by
  unfold OswResults.file
  induction prefixes generalizing out with
  | nil => rfl
  | cons keyPrefix prefixes ih =>
    rw [List.foldl_cons, ih]
    rfl

theorem filed_foldl_file (prefixes : List String) (details : List (OswStepValue F))
    (out : OswResults F) :
    (details.foldl (fun out detail => out.file prefixes detail) out).filed =
      (details.flatMap fun detail => prefixes.map fun keyPrefix =>
        ((keyPrefix, detail.name), detail)).foldl fileWrite out.filed := by
  induction details generalizing out with
  | nil => rfl
  | cons detail details ih =>
    rw [List.foldl_cons, ih, List.flatMap_cons, List.foldl_append, filed_file]

/-- What cannot be iterated over raises. -/
theorem stepItems_eq_ok_iff {result : List (String × Json F)} :
    (∃ items, stepItems py result = .ok items) ↔ ¬ Scalar py result := by
  rw [stepItems, Scalar]
  cases truthyField py result "step_values" with
  | none => simp
  | some value => cases value <;> simp

/-- A step that can be iterated over files what it reports. -/
theorem visit_ok {dirCounts nameCounts : Dict String Nat} {step : List (String × Json F)}
    (h : ∀ measure result, measureOf py step = some measure → resultOf step = some result →
      ¬ Scalar py result) (out : OswResults F) :
    ∃ out', visit py dirCounts nameCounts out step = .ok out' ∧
      out'.filed = ((reportOf py dirCounts nameCounts step).toList.flatMap Reported.writes).foldl
        fileWrite out.filed := by
  rw [visit, reportOf]
  cases hmeasure : measureOf py step with
  | none => exact ⟨out, rfl, rfl⟩
  | some measure =>
    cases hresult : resultOf step with
    | none => exact ⟨out, rfl, rfl⟩
    | some result =>
      obtain ⟨items, hitems⟩ := stepItems_eq_ok_iff.mpr (h measure result hmeasure hresult)
      dsimp only
      rw [hitems]
      refine ⟨_, rfl, ?_⟩
      rw [Option.toList_some, List.flatMap_cons, List.flatMap_nil, List.append_nil]
      exact filed_foldl_file _ _ _

theorem visit_error {step : List (String × Json F)} {measure : String}
    {result : List (String × Json F)} (hmeasure : measureOf py step = some measure)
    (hresult : resultOf step = some result) (h : Scalar py result)
    (dirCounts nameCounts : Dict String Nat) (out : OswResults F) :
    ∃ e, visit py dirCounts nameCounts out step = .error e := by
  rw [visit, hmeasure, hresult]
  dsimp only
  cases hitems : stepItems py result with
  | error e => exact ⟨e, rfl⟩
  | ok items => exact absurd h (stepItems_eq_ok_iff.mp ⟨items, hitems⟩)

/-- The loop files what the steps report, one after the other. -/
theorem foldlM_visit_ok {dirCounts nameCounts : Dict String Nat}
    {steps : List (List (String × Json F))}
    (h : ∀ step ∈ steps, ∀ measure result, measureOf py step = some measure →
      resultOf step = some result → ¬ Scalar py result) (out : OswResults F) :
    ∃ out', steps.foldlM (visit py dirCounts nameCounts) out = .ok out' ∧
      out'.filed = ((steps.filterMap (reportOf py dirCounts nameCounts)).flatMap
        Reported.writes).foldl fileWrite out.filed := by
  induction steps generalizing out with
  | nil => exact ⟨out, rfl, rfl⟩
  | cons step steps ih =>
    obtain ⟨out₁, hvisit, hfiled₁⟩ := visit_ok (h step List.mem_cons_self) out
    obtain ⟨out₂, hrest, hfiled₂⟩ := ih (fun st hst => h st (List.mem_cons_of_mem _ hst)) out₁
    refine ⟨out₂, ?_, ?_⟩
    · rw [List.foldlM_cons, hvisit]
      exact hrest
    · rw [hfiled₂, hfiled₁, ← List.foldl_append, ← List.flatMap_append]
      congr 2
      rw [List.filterMap_cons]
      cases reportOf py dirCounts nameCounts step with
      | none => rfl
      | some r => rfl

theorem iterable_of_ok {dirCounts nameCounts : Dict String Nat}
    {steps : List (List (String × Json F))} {out out' : OswResults F}
    (h : steps.foldlM (visit py dirCounts nameCounts) out = .ok out') :
    ∀ step ∈ steps, ∀ measure result, measureOf py step = some measure →
      resultOf step = some result → ¬ Scalar py result := by
  induction steps generalizing out with
  | nil => exact fun _ hstep => (nomatch hstep)
  | cons step steps ih =>
    rw [List.foldlM_cons] at h
    obtain ⟨out₁, hvisit, hrest⟩ := bind_eq_ok.mp h
    refine List.forall_mem_cons.mpr ⟨fun measure result hmeasure hresult hscalar => ?_, ih hrest⟩
    obtain ⟨e, he⟩ := visit_error hmeasure hresult hscalar dirCounts nameCounts out
    rw [he] at hvisit
    cases hvisit

/-- The writes, one after the other, keep the three dictionaries together. -/
theorem get?_fileWrites (writes : List ((String × String) × OswStepValue F)) (filed : Filed F)
    (hfiled : ∀ key, filed.2.1.get? key = (filed.2.2.get? key).map OswStepValue.units ∧
      filed.1.get? key = (filed.2.2.get? key).map OswStepValue.value) (key : String) :
    let out := writes.foldl fileWrite filed
    (out.2.1.get? key = (out.2.2.get? key).map OswStepValue.units ∧
      out.1.get? key = (out.2.2.get? key).map OswStepValue.value) ∧
    out.2.2.get? key =
      (Dict.lastOf key (writes.map fun w => (keyOf w.1.1 w.1.2, w.2))).or (filed.2.2.get? key) := by
  induction writes generalizing filed with
  | nil => exact ⟨hfiled key, rfl⟩
  | cons w writes ih =>
    have hnext := ih (fileWrite filed w) (fun k => by
      simp only [fileWrite, Dict.get?_set]
      split
      next => exact ⟨rfl, rfl⟩
      next => exact hfiled k)
    refine ⟨hnext.1, hnext.2.trans ?_⟩
    rw [List.map_cons, Dict.lastOf, Option.or_assoc, fileWrite, Dict.get?_set]
    congr 1
    split
    next => rfl
    next => rfl

variable {osw : List (String × Json F)} {out : OswResults F}

/-- All that is filed, one after the other. -/
def writes (py : Python F) (osw : List (String × Json F)) :
    List ((String × String) × OswStepValue F) :=
  (reports py osw).flatMap Reported.writes

theorem readOutOsw_ok (h : ∀ step ∈ objectsOf py osw, ∀ measure result,
    measureOf py step = some measure → resultOf step = some result → ¬ Scalar py result) :
    ∃ out, readOutOsw py (.json (.obj osw)) = .ok out := by
  obtain ⟨out, hout, -⟩ := foldlM_visit_ok h (OswResults.new ((field osw "completed_status").map
    py.str))
  exact ⟨out, hout⟩

theorem get?_stepValues (h : readOutOsw py (.json (.obj osw)) = .ok out) (key : String) :
    (out.stepUnits.get? key = (out.stepValueDetails.get? key).map OswStepValue.units ∧
      out.stepValues.get? key = (out.stepValueDetails.get? key).map OswStepValue.value) ∧
    out.stepValueDetails.get? key =
      Dict.lastOf key ((writes py osw).map fun w => (keyOf w.1.1 w.1.2, w.2)) := by
  obtain ⟨out', hout', hfiled⟩ := foldlM_visit_ok (iterable_of_ok h)
    (OswResults.new ((field osw "completed_status").map py.str))
  have hsame : out' = out := Except.ok.inj (hout'.symm.trans h)
  rw [hsame] at hfiled
  have hwrites := get?_fileWrites (writes py osw)
    (OswResults.new (F := F) ((field osw "completed_status").map py.str)).filed
    (fun _ => ⟨rfl, rfl⟩) key
  rw [writes, reports, ← hfiled] at hwrites
  exact ⟨hwrites.1, hwrites.2.trans (Option.or_none)⟩

/-! ## What one step files -/

theorem lastOf_map_prefixes (prefixes : List String) (detail : OswStepValue F)
    (keyPrefix name : String) :
    Dict.lastOf (keyPrefix, name) (prefixes.map fun q => ((q, detail.name), detail)) =
      if keyPrefix ∈ prefixes ∧ detail.name = name then some detail else none := by
  induction prefixes with
  | nil => rfl
  | cons q prefixes ih =>
    rw [List.map_cons, Dict.lastOf, ih]
    simp only [Prod.mk.injEq, List.mem_cons, eq_comm (a := keyPrefix)]
    by_cases hname : detail.name = name
    · by_cases hmem : keyPrefix ∈ prefixes
      · by_cases hq : q = keyPrefix
        · simp [hmem, hname, hq]
        · simp [hmem, hname, hq]
      · simp [hmem, hname]
    · simp [hname]

theorem Reported.lastOf_writes (r : Reported F) (keyPrefix name : String) :
    Dict.lastOf (keyPrefix, name) r.writes =
      if keyPrefix ∈ r.prefixes then r.last name else none := by
  rw [Reported.writes, Reported.last]
  induction r.details with
  | nil =>
    split
    next => rfl
    next => rfl
  | cons detail details ih =>
    rw [List.flatMap_cons, Dict.lastOf_append, ih, lastOf_map_prefixes, List.map_cons, Dict.lastOf]
    by_cases hmem : keyPrefix ∈ r.prefixes
    · rw [if_pos hmem, if_pos hmem]
      simp only [hmem, true_and]
    · rw [if_neg hmem, if_neg hmem, if_neg fun h => hmem h.1]
      rfl

theorem lastOf_writes (keyPrefix name : String) :
    Dict.lastOf (keyPrefix, name) (writes py osw) =
      lastAmong py osw (fun r => keyPrefix ∈ r.prefixes) name := by
  rw [writes, lastAmong]
  induction reports py osw with
  | nil => rfl
  | cons r rs ih =>
    rw [List.flatMap_cons, Dict.lastOf_append, ih, Reported.lastOf_writes, List.filter_cons]
    by_cases hmem : keyPrefix ∈ r.prefixes
    · rw [if_pos hmem, if_pos (decide_eq_true hmem), List.flatMap_cons, Dict.lastOf_append]
      rfl
    · rw [if_neg hmem, if_neg (by simpa using hmem), Option.or_none]

theorem lastAmong_congr {p q : Reported F → Prop} [DecidablePred p] [DecidablePred q]
    (h : ∀ r ∈ reports py osw, p r ↔ q r) (name : String) :
    lastAmong py osw p name = lastAmong py osw q name := by
  rw [lastAmong, lastAmong, List.filter_congr fun r hr => decide_eq_decide.mpr (h r hr)]

theorem Reported.last_isSome {r : Reported F} {detail : OswStepValue F} (h : detail ∈ r.details) :
    ∃ last, r.last detail.name = some last :=
  Dict.lastOf_isSome (List.mem_map.mpr ⟨detail, h, rfl⟩)

theorem Reported.mem_of_last {r : Reported F} {name : String} {last : OswStepValue F}
    (h : r.last name = some last) : last ∈ r.details ∧ last.name = name := by
  obtain ⟨detail, hdetail, heq⟩ := List.mem_map.mp (Dict.mem_of_lastOf h)
  injection heq with hname hsame
  exact ⟨hsame ▸ hdetail, hsame ▸ hname⟩

theorem lastAmong_isSome {p : Reported F → Prop} [DecidablePred p] {r : Reported F}
    {detail : OswStepValue F} (hr : r ∈ reports py osw) (hp : p r) (h : detail ∈ r.details) :
    ∃ last, lastAmong py osw p detail.name = some last :=
  Dict.lastOf_isSome (List.mem_flatMap.mpr ⟨r, List.mem_filter.mpr ⟨hr, decide_eq_true hp⟩,
    List.mem_map.mpr ⟨detail, h, rfl⟩⟩)

theorem of_lastAmong {p : Reported F → Prop} [DecidablePred p] {name : String}
    {last : OswStepValue F} (h : lastAmong py osw p name = some last) :
    ∃ r ∈ reports py osw, p r ∧ r.last name = some last := by
  obtain ⟨r, hr, hlast⟩ := Dict.lastOf_flatMap h
  obtain ⟨hr, hp⟩ := List.mem_filter.mp hr
  exact ⟨r, hr, of_decide_eq_true hp, hlast⟩

/-! ## Prefixes -/

theorem mem_keyPrefixes {step : List (String × Json F)} {measure keyPrefix : String}
    {dirCounts nameCounts : Dict String Nat}
    (h : keyPrefix ∈ keyPrefixes py step measure dirCounts nameCounts) :
    keyPrefix = measure ∨ keyPrefix ∉ dirCounts.keys := by
  rcases List.mem_cons.mp h with heq | hmem
  · exact .inl heq
  · right
    cases hname : nameOf step with
    | none =>
      rw [hname] at hmem
      cases hmem
    | some name =>
      rw [hname] at hmem
      dsimp only at hmem
      split at hmem
      next hcond =>
        rw [List.mem_singleton.mp hmem]
        exact hcond.2.2.1
      next => cases hmem

/-- What reports is a step of the document. -/
theorem step_of_mem_reports {r : Reported F} (hr : r ∈ reports py osw) :
    ∃ step ∈ objectsOf py osw, measureOf py step = some r.measure ∧ dirOf py step = r.dir ∧
      r.prefixes = keyPrefixes py step r.measure (counts (dirs py osw))
        (counts (namesBesideDirs py osw)) := by
  obtain ⟨step, hstep, hreport⟩ := List.mem_filterMap.mp hr
  rw [reportOf] at hreport
  split at hreport
  next measure result hmeasure hresult =>
    cases hreport
    exact ⟨step, hstep, hmeasure, rfl, rfl⟩
  next => cases hreport

theorem measure_mem_prefixes {r : Reported F} (hr : r ∈ reports py osw) :
    r.measure ∈ r.prefixes := by
  obtain ⟨step, -, -, -, hprefixes⟩ := step_of_mem_reports hr
  rw [hprefixes]
  exact List.mem_cons_self

/-- Only the steps that are called like a directory are filed under it. -/
theorem mem_prefixes_iff {r : Reported F} (hr : r ∈ reports py osw) {keyPrefix : String}
    (hdir : keyPrefix ∈ dirs py osw) : keyPrefix ∈ r.prefixes ↔ r.measure = keyPrefix := by
  constructor
  · intro h
    obtain ⟨step, -, -, -, hprefixes⟩ := step_of_mem_reports hr
    rw [hprefixes] at h
    rcases mem_keyPrefixes h with heq | hnot
    · exact heq.symm
    · exact absurd (mem_keys_counts.mpr hdir) hnot
  · rintro rfl
    exact measure_mem_prefixes hr

theorem measure_of_dir {r : Reported F} (hr : r ∈ reports py osw) {dir : String}
    (hdir : r.dir = some dir) : r.measure = dir ∧ dir ∈ dirs py osw := by
  obtain ⟨step, hstep, hmeasure, hstepDir, -⟩ := step_of_mem_reports hr
  rw [hdir] at hstepDir
  rw [measureOf, hstepDir] at hmeasure
  exact ⟨(Option.some.inj hmeasure).symm, List.mem_filterMap.mpr ⟨step, hstep, hstepDir⟩⟩

theorem labelOf_of_nameOf {step : List (String × Json F)} {name : String}
    (h : nameOf step = some name) : labelOf py step = some name := by
  rw [nameOf] at h
  split at h
  next name' hfield =>
    split at h
    next => cases h
    next hne =>
      cases h
      rw [labelOf, truthyField, hfield, Option.filter_some, truthy, if_pos (by simpa using hne),
        Option.map_some, py.str_str]
  next => cases h

/-- A name that no other step has is counted once. -/
theorem count_namesBesideDirs {step : List (String × Json F)} (hstep : step ∈ objectsOf py osw)
    {dir name : String} (hdir : dirOf py step = some dir) (hname : nameOf step = some name)
    (hone : ((objectsOf py osw).filterMap (labelOf py)).count name = 1) :
    (namesBesideDirs py osw).count name = 1 := by
  have hle : (namesBesideDirs py osw).count name ≤
      ((objectsOf py osw).filterMap (labelOf py)).count name := by
    rw [namesBesideDirs]
    induction objectsOf py osw with
    | nil => exact Nat.le_refl _
    | cons st steps ih =>
      rw [List.filterMap_cons, List.filterMap_cons]
      split
      next =>
        split
        next => exact ih
        next => exact ih.trans (List.count_le_count_cons)
      next n hn =>
        split at hn
        next =>
          rw [labelOf_of_nameOf hn, List.count_cons, List.count_cons]
          exact Nat.add_le_add_right ih _
        next => cases hn
  have hmem : name ∈ namesBesideDirs py osw := by
    refine List.mem_filterMap.mpr ⟨step, hstep, ?_⟩
    rw [hdir, Option.isSome_some, if_pos rfl, hname]
  have hpos := List.count_pos_iff.mpr hmem
  omega

/-- A step of a directory that comes again is filed under its name. -/
theorem name_mem_prefixes {step : List (String × Json F)} (hstep : step ∈ objectsOf py osw)
    {dir name : String} (hdir : dirOf py step = some dir) (hagain : 1 < (dirs py osw).count dir)
    (hname : nameOf step = some name) (hnot : name ∉ dirs py osw)
    (hone : ((objectsOf py osw).filterMap (labelOf py)).count name = 1) {r : Reported F}
    (hr : reportOf py (counts (dirs py osw)) (counts (namesBesideDirs py osw)) step = some r) :
    name ∈ r.prefixes := by
  rw [reportOf] at hr
  split at hr
  next measure result hmeasure hresult =>
    cases hr
    have hmeasureDir : measure = dir := by
      rw [measureOf, hdir] at hmeasure
      exact (Option.some.inj hmeasure).symm
    have hmem : dir ∈ dirs py osw := List.mem_filterMap.mpr ⟨step, hstep, hdir⟩
    have hcount := count_namesBesideDirs hstep hdir hname hone
    show name ∈ keyPrefixes _ _ _ _ _
    rw [keyPrefixes, hname]
    dsimp only
    rw [if_pos, hmeasureDir]
    · exact List.mem_cons_of_mem _ (List.mem_singleton.mpr rfl)
    · refine ⟨by rw [hdir]; rfl, ?_, fun h => hnot (mem_keys_counts.mp h), ?_⟩
      · rw [hmeasureDir, get?_counts, if_pos hmem]
        exact hagain
      · rw [get?_counts, if_pos (List.count_pos_iff.mp (by omega)), hcount]
  next => cases hr

/-! ## Keys -/

/-- Two keys are the same if prefix and attribute are, or one prefix goes on in the other's
attribute. -/
theorem keyOf_eq_iff {p p' a a' : String} :
    keyOf p a = keyOf p' a' ↔ (p = p' ∧ a = a') ∨ Splits p p' a a' ∨ Splits p' p a' a :=
  append_char_eq_iff '.' _ _ _ _

theorem not_splits_self {p a a' : String} : ¬ Splits p p a a' := by
  intro h
  obtain ⟨x, hp, -⟩ := h
  exact ne_append_char '.' p x hp

theorem distinct_iff :
    (∀ r ∈ reports py osw, ∀ r' ∈ reports py osw, ∀ w ∈ r.writes, ∀ w' ∈ r'.writes,
      keyOf w.1.1 w.1.2 = keyOf w'.1.1 w'.1.2 → w.1 = w'.1) ↔
    ∀ r ∈ reports py osw, ∀ r' ∈ reports py osw, ∀ w ∈ r.writes, ∀ w' ∈ r'.writes,
      ¬ Splits w.1.1 w'.1.1 w.1.2 w'.1.2 := by
  constructor
  · intro h r hr r' hr' w hw w' hw' hsplits
    have hsame := h r hr r' hr' w hw w' hw' (keyOf_eq_iff.mpr (.inr (.inl hsplits)))
    rw [hsame] at hsplits
    exact not_splits_self hsplits
  · intro h r hr r' hr' w hw w' hw' heq
    rcases keyOf_eq_iff.mp heq with ⟨hp, hname⟩ | hsplits | hsplits
    · exact Prod.ext hp hname
    · exact absurd hsplits (h r hr r' hr' w hw w' hw')
    · exact absurd hsplits (h r' hr' r hr w' hw' w hw)

/-- Where the keys are told apart, under a prefix and an attribute is what was reported last
with them. -/
theorem get?_keyOf (h : readOutOsw py (.json (.obj osw)) = .ok out)
    (hdistinct : ∀ r ∈ reports py osw, ∀ r' ∈ reports py osw, ∀ w ∈ r.writes, ∀ w' ∈ r'.writes,
      keyOf w.1.1 w.1.2 = keyOf w'.1.1 w'.1.2 → w.1 = w'.1)
    {r : Reported F} (hr : r ∈ reports py osw) {keyPrefix : String} (hp : keyPrefix ∈ r.prefixes)
    {detail : OswStepValue F} (hdetail : detail ∈ r.details) :
    out.stepValues.get? (keyOf keyPrefix detail.name) =
      (lastAmong py osw (fun r => keyPrefix ∈ r.prefixes) detail.name).map OswStepValue.value := by
  have hw : ((keyPrefix, detail.name), detail) ∈ r.writes :=
    List.mem_flatMap.mpr ⟨detail, hdetail, List.mem_map.mpr ⟨keyPrefix, hp, rfl⟩⟩
  obtain ⟨⟨-, hvalue⟩, hlast⟩ := get?_stepValues h (keyOf keyPrefix detail.name)
  rw [hvalue, hlast, ← lastOf_writes]
  congr 1
  refine Dict.lastOf_map (fun w : String × String => keyOf w.1 w.2) (k := (keyPrefix, detail.name))
    fun w' hw' heq => ?_
  obtain ⟨r', hr', hw'⟩ := List.mem_flatMap.mp hw'
  exact hdistinct r' hr' r hr w' hw' _ hw heq

/-! ## Attribution -/

/-- Where no step without a directory reports an attribute under a directory, the steps of the
directory report it. -/
theorem lastAmong_dir {dir name : String}
    (h : ∀ r ∈ reports py osw, r.dir = none → r.measure = dir → r.last name = none) :
    lastAmong py osw (fun r => r.dir = some dir) name =
      lastAmong py osw (fun r => r.measure = dir) name := by
  rw [lastAmong, lastAmong, ← Dict.lastOf_flatMap_filter (p := fun r : Reported F =>
    r.dir = some dir) (l := (reports py osw).filter fun r => decide (r.measure = dir))]
  · rw [List.filter_filter]
    congr 2
    refine List.filter_congr fun r hr => ?_
    by_cases hdir : r.dir = some dir
    · rw [decide_eq_true hdir, decide_eq_true (measure_of_dir hr hdir).1]
      rfl
    · rw [decide_eq_false hdir]
      rfl
  · intro r hr hdir
    obtain ⟨hr, hmeasure⟩ := List.mem_filter.mp hr
    have hmeasure := of_decide_eq_true hmeasure
    refine h r hr ?_ hmeasure
    cases hrdir : r.dir with
    | none => rfl
    | some d =>
      have hd := (measure_of_dir hr hrdir).1
      rw [hrdir, ← hd, hmeasure] at hdir
      exact absurd rfl hdir

theorem attributes_of_clear (h : readOutOsw py (.json (.obj osw)) = .ok out)
    (hclear : Clear py osw) : Attributes py osw out := by
  have hdistinct := distinct_iff.mpr hclear.unsplit
  have hofStep : ∀ r ∈ reports py osw, ∀ keyPrefix ∈ r.prefixes, keyPrefix ∉ dirs py osw →
      ∀ name last, r.last name = some last →
        out.stepValues.get? (keyOf keyPrefix name) = some last.value := by
    intro r hr keyPrefix hp hnot name last hlast
    obtain ⟨hmem, hname⟩ := Reported.mem_of_last hlast
    have hget := get?_keyOf h hdistinct hr hp hmem
    rw [hname] at hget
    obtain ⟨last', hlast'⟩ := lastAmong_isSome (p := fun r => keyPrefix ∈ r.prefixes) hr hp hmem
    rw [hname] at hlast'
    obtain ⟨r', hr', hp', hrlast'⟩ := of_lastAmong hlast'
    rw [hget, hlast', Option.map_some,
      hclear.names r hr r' hr' keyPrefix hp hp' hnot name last last' hlast hrlast']
  refine ⟨?_, hofStep, hdistinct, fun key => (get?_stepValues h key).1, ?_⟩
  · intro r hr dir hp hdir detail hdetail
    have hget := get?_keyOf h hdistinct hr hp hdetail
    rw [lastAmong_congr (fun r hr => mem_prefixes_iff hr hdir)] at hget
    have hmeasure := (mem_prefixes_iff hr hdir).mp hp
    by_cases hnone : ∀ r' ∈ reports py osw, r'.dir = none → r'.measure = dir →
        r'.last detail.name = none
    · obtain ⟨last, hlast⟩ :=
        lastAmong_isSome (p := fun r => r.measure = dir) hr hmeasure hdetail
      refine ⟨last, (lastAmong_dir hnone).trans hlast, ?_⟩
      rw [hget, hlast, Option.map_some]
    · -- a step without a directory reports the attribute as well
      push Not at hnone
      obtain ⟨r', hr', hdirless, hmeasure', hsome⟩ := hnone
      obtain ⟨detail', hdetail'⟩ := Option.ne_none_iff_exists'.mp hsome
      obtain ⟨hmem', hname'⟩ := Reported.mem_of_last hdetail'
      subst hmeasure'
      obtain ⟨last, last', hlast, hlast', hvalue⟩ :=
        hclear.dirs r' hr' hdirless hdir detail' hmem'
      rw [hname'] at hlast hlast'
      refine ⟨last, hlast, ?_⟩
      rw [hget, hlast', Option.map_some, hvalue]
  · intro step hstep dir name hdir hagain hname hnot hone r hr detail hdetail
    have hmem := name_mem_prefixes hstep hdir hagain hname hnot hone hr
    obtain ⟨last, hlast⟩ := Reported.last_isSome hdetail
    obtain ⟨hlastMem, hlastName⟩ := Reported.mem_of_last hlast
    rw [hofStep r (List.mem_filterMap.mpr ⟨step, hstep, hr⟩) name hmem hnot _ last hlast,
      hclear.once step hstep dir name hdir hagain hname hnot hone r hr last hlastMem detail hdetail
        hlastName]

theorem clear_of_attributes (h : readOutOsw py (.json (.obj osw)) = .ok out)
    (hattributes : Attributes py osw out) : Clear py osw := by
  refine ⟨iterable_of_ok h, distinct_iff.mp hattributes.distinct, ?_, ?_, ?_⟩
  · intro r hr hdirless hdir detail hdetail
    have hp := measure_mem_prefixes hr
    obtain ⟨last, hlast, hvalue⟩ := hattributes.ofDir r hr r.measure hp hdir detail hdetail
    have hget := get?_keyOf h hattributes.distinct hr hp hdetail
    rw [lastAmong_congr (fun r' hr' => mem_prefixes_iff hr' hdir)] at hget
    obtain ⟨last', hlast'⟩ :=
      lastAmong_isSome (p := fun r' => r'.measure = r.measure) hr rfl hdetail
    refine ⟨last, last', hlast, hlast', ?_⟩
    rw [hvalue, hlast', Option.map_some] at hget
    exact (Option.some.inj hget).symm
  · intro r hr r' hr' keyPrefix hp hp' hnot name last last' hlast hlast'
    have hvalue := hattributes.ofStep r hr keyPrefix hp hnot name last hlast
    rw [hattributes.ofStep r' hr' keyPrefix hp' hnot name last' hlast'] at hvalue
    exact (Option.some.inj hvalue).symm
  · intro step hstep dir name hdir hagain hname hnot hone r hr detail hdetail detail' hdetail' heq
    have hreach := hattributes.reachable step hstep dir name hdir hagain hname hnot hone r hr
    have hvalue := hreach detail hdetail
    rw [heq, hreach detail' hdetail'] at hvalue
    exact (Option.some.inj hvalue).symm

end

theorem attributed_iff (content : Content F) :
    Attributed py content ↔ ClearContent py content := by
  have hempty : readOutOsw py content = .ok (OswResults.new none) →
      ∃ out, readOutOsw py content = .ok out ∧
        (out.stepValues = ∅ ∧ out.stepUnits = ∅ ∧ out.stepValueDetails = ∅) :=
    fun h => ⟨_, h, rfl, rfl, rfl⟩
  cases content with
  | missing => exact iff_of_true (hempty rfl) trivial
  | unparseable => exact iff_of_true (hempty rfl) trivial
  | tooManyDigits =>
    refine iff_of_false ?_ id
    intro h
    obtain ⟨out, hout, -⟩ := h
    cases hout
  | json value =>
    cases value with
    | obj osw =>
      constructor
      · intro h
        obtain ⟨out, hout, hattributes⟩ := h
        exact clear_of_attributes hout hattributes
      · intro hclear
        obtain ⟨out, hout⟩ := readOutOsw_ok hclear.iterable
        exact ⟨out, hout, attributes_of_clear hout hclear⟩
    | null => exact iff_of_true (hempty rfl) trivial
    | bool b => exact iff_of_true (hempty rfl) trivial
    | int n => exact iff_of_true (hempty rfl) trivial
    | float x => exact iff_of_true (hempty rfl) trivial
    | str s => exact iff_of_true (hempty rfl) trivial
    | arr items => exact iff_of_true (hempty rfl) trivial

def plainStr : Json Unit → String
  | .str s => s
  | _ => ""

def plain : Python Unit where
  str := plainStr
  str_str _ := rfl
  isZero _ := false

/-- A step that reports a number for an attribute. -/
def reporting (key measure name : String) (n : Int) : Json Unit :=
  .obj [(key, .str measure), ("result", .obj [("step_values",
    .arr [.obj [("name", .str name), ("value", .int n)]])])]

/-- A measure, and a step without a directory that is called like it. -/
def namesake : List (String × Json Unit) :=
  [("steps", .arr [reporting "measure_dir_name" "Wall" "R" 1, reporting "name" "Wall" "R" 2])]

theorem namesake_taken_over : ¬ Attributed plain (.json (.obj namesake)) := by
  intro h
  obtain ⟨out, hout, hattributes⟩ := h
  have hreports : reports plain namesake =
      [⟨some "Wall", "Wall", ["Wall"], [⟨"R", .int 1, "", none, none⟩]⟩,
        ⟨none, "Wall", ["Wall"], [⟨"R", .int 2, "", none, none⟩]⟩] := rfl
  obtain ⟨last, hlast, hvalue⟩ := hattributes.ofDir _ (hreports ▸ List.mem_cons_self) "Wall"
    List.mem_cons_self (by decide +kernel) _ List.mem_cons_self
  have hfirst : lastAmong plain namesake (fun r => r.dir = some "Wall") "R" =
      some ⟨"R", .int 1, "", none, none⟩ := rfl
  have hsecond : out.stepValues.get? "Wall.R" = some (.int 2) := by
    have hrun : readOutOsw plain (.json (.obj namesake)) = .ok out := hout
    cases hrun
    rfl
  rw [hfirst] at hlast
  cases hlast
  rw [show keyOf "Wall" "R" = "Wall.R" from rfl, hsecond] at hvalue
  cases hvalue

end OSimFlow.Aggregation.OutOsw
