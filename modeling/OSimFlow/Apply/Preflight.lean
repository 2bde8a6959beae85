import Mathlib.Data.List.Pairwise
import OSimFlow.Apply.OswArguments
import OSimFlow.Lib.Succeeds

/-!
# Preflight and what it guarantees

`preflight_check` looks at the keys of a sample against the template's arguments and `.osm`
attributes; `_apply_osw_parameters` then reads the workflow again, without the attributes, and
writes what maps to a measure argument. Of two instances of one measure a plain key takes the
first, and preflight counts measures, not instances. An attribute of the same name hides an
argument from its checks.

> `applied_iff`: the parameters are applied unambiguously exactly if each key can be read as
> one slot, no two as the same, and each value can be written there.
>
> `applied_of_accepted_iff`: in a tidy template preflight guarantees the first two.
>
> `plain_key_of_two_instances`: an accepted key that two steps expose.

Coercion of values is a parameter. A write is logged with the key it is made for.
-/

namespace OSimFlow.Apply

open OSimFlow.Lib

variable {V : Type}

/-- `"__epw_file__"`. -/
def epwFileKey : Name := ['_', '_', 'e', 'p', 'w', '_', 'f', 'i', 'l', 'e', '_', '_']

/-! ## Preflight -/

def attributeParam (name : Name) (default : V) : MappedParameter V where
  name := name
  kind := .attribute
  default := default
  stepIndex := none
  measureName := none
  stepName := none
  ambiguousSteps := []

/-- `_build_mappings`: the arguments, and over them the attributes of a JSON `.osm`. -/
def buildMappings (skipDefault : V) (w : Workflow V) (attributes : List (Name × V)) : Mappings V :=
  attributes.foldl (fun mappings a => mappings.set a.1 (attributeParam a.1 a.2))
    (parseOswArguments skipDefault w)

inductive PreflightError where
  | unmapped (names : List Name)
  | ambiguousParameter (names : List Name)
  | ambiguousStep (keys : List Name)
  | crossMeasureConflict (arguments : List Name)

/-- What stands behind the last dot: `key.rpartition(".")[2]`. -/
def plainArg (key : Name) : Name := (key.reverse.takeWhile fun c => decide (c ≠ '.')).reverse

def isMeasureArgument (mapping : MappedParameter V) : Bool :=
  decide (mapping.kind = .measureArgument)

section Checks

variable (keys : List Name) (mappings : Mappings V)

/-- The measures with a dotted key for the argument. -/
def argToMeasures (arg : Name) : List Name :=
  mappings.items.filterMap fun item =>
    if isMeasureArgument item.2 ∧ '.' ∈ item.1 ∧ plainArg item.1 = arg ∧ arg ≠ [] then
      item.2.measureName
    else none

/-- `_check_ambiguous_parameters`: the plain keys that several measures share. -/
def ambiguousParameters : List Name :=
  keys.filter fun key =>
    decide ('.' ∉ key) && decide (1 < (argToMeasures mappings key).eraseDups.length)

/-- `_check_ambiguous_step_targets`. -/
def ambiguousStepTargets : List Name :=
  keys.filter fun key => (mappings.get? key).any fun m => decide (m.ambiguousSteps ≠ [])

/-- The plain keys for the argument. -/
def plainParams (arg : Name) : List Name :=
  keys.filter fun key => decide ('.' ∉ key) &&
    (mappings.get? key).any fun m => isMeasureArgument m && decide (m.name = arg)

/-- The step of a dotted key for the argument. -/
def dottedStep (arg key : Name) : Option (Option Nat) :=
  match mappings.get? key with
  | none => none
  | some m =>
    if isMeasureArgument m ∧ '.' ∈ key ∧ m.measureName ≠ none ∧ plainArg key = arg ∧ arg ≠ [] then
      some m.stepIndex
    else none

/-- The steps of the dotted keys for the argument. -/
def dottedParams (arg : Name) : List (Option Nat) := keys.filterMap (dottedStep mappings arg)

/-- The argument is asked for plain and dotted, or dotted twice for one step. -/
def conflictAt (arg : Name) : Bool :=
  let dottedSteps := dottedParams keys mappings arg
  if plainParams keys mappings arg ≠ [] ∧ dottedSteps ≠ [] then true
  else if 1 < dottedSteps.length then
    !(dottedSteps.all Option.isSome && decide dottedSteps.Nodup)
  else false

/-- The arguments that the keys are about. -/
def allArgs : List Name :=
  keys.filterMap fun key =>
    match mappings.get? key with
    | none => none
    | some m =>
      if isMeasureArgument m then some (if '.' ∈ key then plainArg key else m.name) else none

/-- `_check_cross_measure_conflicts`. -/
def crossMeasureConflicts : List Name :=
  (allArgs keys mappings).filter (conflictAt keys mappings)

/-- `preflight_check` without `OSIMFLOW_ALLOW_CROSS_MEASURE_CONFLICT`. -/
def preflightCheck : Except PreflightError Unit :=
  let unmapped := keys.filter fun key => decide (mappings.get? key).isNone
  if unmapped ≠ [] then .error (.unmapped unmapped)
  else if ambiguousParameters keys mappings ≠ [] then
    .error (.ambiguousParameter (ambiguousParameters keys mappings))
  else if ambiguousStepTargets keys mappings ≠ [] then
    .error (.ambiguousStep (ambiguousStepTargets keys mappings))
  else if crossMeasureConflicts keys mappings ≠ [] then
    .error (.crossMeasureConflict (crossMeasureConflicts keys mappings))
  else .ok ()

end Checks

/-! ## Applying -/

/-- What the code does with values. -/
structure Values (V : Type) where
  /-- `False`. -/
  skipDefault : V
  /-- `value["label"]` of a categorical value, others as they are. -/
  label : V → V
  /-- `str(value)`. -/
  str : V → V
  /-- `_coerce_osw_argument_value`, on the argument's name, the value, the value that is there,
  the default, the argument's type and the measure's name. -/
  coerce : Name → V → Option V → V → Option Name → Name → Except Unit V

inductive Target where
  | argument (slot : Slot)
  | weatherFile
deriving DecidableEq

/-- A value written, and the key it is written for. -/
structure Write (V : Type) where
  key : Name
  target : Target
  value : V

namespace Step

variable (s : Step V)

/-- `step_args.get(arg)`. -/
def argument (argName : Name) : Option V :=
  match s.arguments with
  | .object entries => entries.get? argName
  | _ => none

/-- `step.setdefault("arguments", {})[arg] = value`. -/
def setArgument (argName : Name) (value : V) : Step V :=
  { s with
    arguments :=
      match s.arguments with
      | .absent => .object ((∅ : Dict Name V).set argName value)
      | .object entries => .object (entries.set argName value)
      | .other => .other }

/-- The type that `measure.xml` declares. -/
def argType (argName : Name) : Option Name :=
  ((s.measureXml.elim [] MeasureXml.arguments).find? fun a => decide (a.1 = argName)).map (·.2.1)

/-- The arguments are an object or absent. -/
def TakesArguments : Prop :=
  match s.arguments with
  | .other => False
  | _ => True

instance : Decidable s.TakesArguments := by
  unfold TakesArguments
  cases s.arguments <;> infer_instance

end Step

def Write.perform (w : Workflow V) (e : Write V) : Workflow V :=
  match e.target with
  | .argument slot =>
    { w with steps := w.steps.modify slot.1 (Option.map fun s => s.setArgument slot.2 e.value) }
  | .weatherFile => { w with weatherFile := some e.value }

inductive ApplyError where
  | ambiguousStep (keys : List Name)
  | notAnObject
  | coercion

/-- `_resolve_step_index`. -/
def resolveStepIndex (steps : List (Option (Step V))) (mapping : MappedParameter V) : Option Nat :=
  match mapping.stepIndex with
  | none => none
  | some idx =>
    let unnamed := if idx < steps.length then some idx else none
    match mapping.stepName with
    | none => unnamed
    | some stepName =>
      let named (step : Option (Step V)) : Bool :=
        step.any fun s => decide (s.name = some stepName)
      if (steps[idx]?).any named then some idx
      else (steps.findIdx? named).or unnamed

variable (vs : Values V)

/-- The value as it is written to the step. -/
def coerceAt (s : Step V) (mapping : MappedParameter V) (value : V) : Except Unit V :=
  vs.coerce mapping.name value (s.argument mapping.name) mapping.default (s.argType mapping.name)
    s.measureName

/-- One round of the loop in `_mutate_osw`. -/
def writeParam (mappings : Mappings V) (w : Workflow V) (item : Name × V) :
    Except ApplyError (Option (Write V)) :=
  match mappings.get? item.1 with
  | none => .ok none
  | some mapping =>
    if isMeasureArgument mapping then
      match resolveStepIndex w.steps mapping with
      | none => .ok none
      | some i =>
        match w.steps[i]? with
        | some (some s) =>
          if s.TakesArguments then
            match coerceAt vs s mapping item.2 with
            | .error _ => .error .coercion
            | .ok v => .ok (some ⟨item.1, .argument (i, mapping.name), v⟩)
          else .error .notAnObject
        | _ => .error .notAnObject
    else .ok none

/-- The loop in `_mutate_osw`. -/
def writeParams (mappings : Mappings V) :
    List (Name × V) → Workflow V → Except ApplyError (Workflow V × List (Write V))
  | [], w => .ok (w, [])
  | item :: items, w =>
    match writeParam vs mappings w item with
    | .error e => .error e
    | .ok none => writeParams mappings items w
    | .ok (some e) =>
      match writeParams mappings items (e.perform w) with
      | .error e' => .error e'
      | .ok (w', log) => .ok (w', e :: log)

/-- `_mutate_osw`. -/
def mutateOsw (mappings : Mappings V) (items : List (Name × V)) (w : Workflow V) :
    Except ApplyError (Workflow V × List (Write V)) :=
  let keys := ambiguousStepTargets (items.map Prod.fst) mappings
  if keys ≠ [] then .error (.ambiguousStep keys) else writeParams vs mappings items w

/-- The parameters that map to a measure argument, with their labels. -/
def oswParams (mappings : Mappings V) (remaining : List (Name × V)) : List (Name × V) :=
  remaining.filterMap fun item =>
    if (mappings.get? item.1).any isMeasureArgument then some (item.1, vs.label item.2) else none

/-- `_apply_osw_parameters`. -/
def applyOswParameters (parameters : Dict Name V) (w : Workflow V) :
    Except ApplyError (Workflow V × List (Write V)) :=
  let mappings := parseOswArguments vs.skipDefault w
  match mutateOsw vs mappings (oswParams vs mappings (parameters.erase epwFileKey).items) w with
  | .error e => .error e
  | .ok (w', log) =>
    match parameters.get? epwFileKey with
    | none => .ok (w', log)
    | some epwFile =>
      let e : Write V := ⟨epwFileKey, .weatherFile, vs.str epwFile⟩
      .ok (e.perform w', log ++ [e])

/-! ## What is asked of applying, and of the keys -/

/-- Every key that names a measure argument names one slot and is written there, once; nothing
else is written, and no slot is written twice. -/
structure Unambiguous (w : Workflow V) (parameters : Dict Name V) (w' : Workflow V)
    (log : List (Write V)) : Prop where
  written : ∀ key ∈ parameters.keys, ∀ slot, Reads vs.skipDefault w key slot →
    (∀ slot', Reads vs.skipDefault w key slot' → slot' = slot) ∧
      ∃ v, ⟨key, .argument slot, v⟩ ∈ log
  only : ∀ e ∈ log, e.key ∈ parameters.keys ∧
    ∃ slot, e.target = .argument slot ∧ Reads vs.skipDefault w e.key slot
  apart : log.Pairwise fun e e' => e.target ≠ e'.target
  rest : w' = log.foldl Write.perform w

/-- The parameters are applied, unambiguously. -/
def Applied (w : Workflow V) (parameters : Dict Name V) : Prop :=
  ∃ w' log, applyOswParameters vs parameters w = .ok (w', log) ∧
    Unambiguous vs w parameters w' log

/-- The value can be written to the step of the mapping. -/
def Writable (w : Workflow V) (mapping : MappedParameter V) (value : V) : Prop :=
  ∃ i s, mapping.stepIndex = some i ∧ IsStep w i s ∧ s.TakesArguments ∧
    ∃ v, coerceAt vs s mapping value = .ok v

/-- Each key can be read as one slot, no two as the same, and none is the weather file's; each
value can be written. -/
structure Clear (w : Workflow V) (parameters : Dict Name V) : Prop where
  single : ∀ key ∈ parameters.keys, ∀ slot slot', Reads vs.skipDefault w key slot →
    Reads vs.skipDefault w key slot' → slot = slot'
  apart : ∀ key ∈ parameters.keys, ∀ key' ∈ parameters.keys, ∀ slot,
    Reads vs.skipDefault w key slot → Reads vs.skipDefault w key' slot → key = key'
  weather : epwFileKey ∉ parameters.keys
  writable : ∀ item ∈ parameters.items, ∀ mapping,
    (parseOswArguments vs.skipDefault w).get? item.1 = some mapping →
      Writable vs w mapping (vs.label item.2)

variable {vs}

/-! ## Writing to a step -/

theorem truthy_eq_some {text : Option Name} {t : Name} (h : truthy text = some t) :
    text = some t := (Option.filter_eq_some_iff.mp h).1

/-- All but the arguments' values. -/
structure SameStep (s s' : Step V) : Prop where
  name : s'.name = s.name
  measureDirName : s'.measureDirName = s.measureDirName
  xml : s'.xml = s.xml
  takes : s'.TakesArguments ↔ s.TakesArguments

theorem SameStep.trans {s s' s'' : Step V} (h : SameStep s s') (h' : SameStep s' s'') :
    SameStep s s'' :=
  ⟨h'.name.trans h.name, h'.measureDirName.trans h.measureDirName, h'.xml.trans h.xml,
    h'.takes.trans h.takes⟩

theorem sameStep_setArgument (s : Step V) (argName : Name) (value : V) :
    SameStep s (s.setArgument argName value) := by
  refine ⟨rfl, rfl, rfl, ?_⟩
  unfold Step.TakesArguments Step.setArgument
  cases s.arguments <;> exact Iff.rfl

theorem argument_setArgument_ne (s : Step V) {argName argName' : Name} (h : argName ≠ argName')
    (value : V) : (s.setArgument argName value).argument argName' = s.argument argName' := by
  unfold Step.argument Step.setArgument
  cases s.arguments with
  | absent =>
    show ((∅ : Dict Name V).set argName value).get? argName' = none
    rw [Dict.get?_set_ne _ h]
    rfl
  | object entries => exact Dict.get?_set_ne entries h value
  | other => rfl

/-- The slot's step is there, with the same value in the slot. -/
def Agrees (slot : Slot) (w₀ w : Workflow V) : Prop :=
  ∀ s, IsStep w₀ slot.1 s → ∃ s', IsStep w slot.1 s' ∧ SameStep s s' ∧
    s'.argument slot.2 = s.argument slot.2

theorem agrees_refl (slot : Slot) (w : Workflow V) : Agrees slot w w :=
  fun s hs => ⟨s, hs, ⟨rfl, rfl, rfl, Iff.rfl⟩, rfl⟩

theorem agrees_perform {slot : Slot} {w₀ w : Workflow V} (h : Agrees slot w₀ w) {e : Write V}
    (he : e.target ≠ .argument slot) : Agrees slot w₀ (e.perform w) := by
  intro s hs
  obtain ⟨s', hs', hsame, hvalue⟩ := h s hs
  unfold Write.perform
  cases htarget : e.target with
  | weatherFile => exact ⟨s', hs', hsame, hvalue⟩
  | argument target =>
    show ∃ s'', IsStep { w with steps := w.steps.modify target.1 _ } slot.1 s'' ∧ _
    unfold IsStep at hs' ⊢
    rw [htarget] at he
    by_cases hindex : target.1 = slot.1
    · have hname : target.2 ≠ slot.2 := fun hname =>
        he (congrArg Target.argument (Prod.ext hindex hname))
      refine ⟨s'.setArgument target.2 e.value, ?_,
        hsame.trans (sameStep_setArgument s' target.2 e.value), ?_⟩
      · rw [List.getElem?_modify, hs', hindex]
        simp
      · rw [argument_setArgument_ne s' hname, hvalue]
    · refine ⟨s', ?_, hsame, hvalue⟩
      rw [List.getElem?_modify, hs']
      simp [hindex]

/-! ## One round -/

/-- The step that a mapping was made for is found again. -/
theorem resolveStepIndex_eq {w : Workflow V} {mapping : MappedParameter V} {i : Nat} {s : Step V}
    (hindex : mapping.stepIndex = some i) (hs : IsStep w i s)
    (hname : mapping.stepName = truthy s.name) : resolveStepIndex w.steps mapping = some i := by
  have hlt : i < w.steps.length := by
    obtain ⟨h, -⟩ := List.getElem?_eq_some_iff.mp hs
    exact h
  unfold resolveStepIndex
  rw [hindex]
  cases hstep : mapping.stepName with
  | none => exact if_pos hlt
  | some stepName =>
    have hs' : s.name = some stepName := truthy_eq_some (hname.symm.trans hstep)
    refine if_pos ?_
    rw [show w.steps[i]? = some (some s) from hs]
    exact decide_eq_true hs'

theorem measureName_congr {s s' : Step V} (h : SameStep s s') : s'.measureName = s.measureName := by
  unfold Step.measureName
  rw [h.measureDirName, h.name]

theorem coerceAt_congr {s s' : Step V} (h : SameStep s s') {mapping : MappedParameter V}
    (hvalue : s'.argument mapping.name = s.argument mapping.name) (value : V) :
    coerceAt vs s' mapping value = coerceAt vs s mapping value := by
  have htype : s'.argType mapping.name = s.argType mapping.name := by
    unfold Step.argType Step.measureXml
    rw [h.measureDirName, h.xml]
  unfold coerceAt
  rw [hvalue, htype, measureName_congr h]

variable {w₀ : Workflow V}

/-- A round writes to the slot of the mapping if the value is writable there, and fails else. -/
theorem writeParam_cases {w : Workflow V} {item : Name × V} {p : MappedParameter V} {i : Nat}
    (hp : (parseOswArguments vs.skipDefault w₀).get? item.1 = some p)
    (hindex : p.stepIndex = some i) (hagrees : Agrees (i, p.name) w₀ w) :
    (∃ v, writeParam vs (parseOswArguments vs.skipDefault w₀) w item =
        .ok (some ⟨item.1, .argument (i, p.name), v⟩) ∧ Writable vs w₀ p item.2) ∨
      (∃ e, writeParam vs (parseOswArguments vs.skipDefault w₀) w item = .error e ∧
        ¬ Writable vs w₀ p item.2) := by
  obtain ⟨j, s, hs, -, hkind, hj, hname, -⟩ := target_of_get? hp
  obtain rfl : j = i := Option.some.inj (hj.symm.trans hindex)
  obtain ⟨s', hs', hsame, hvalue⟩ := hagrees s hs
  have hwritable : Writable vs w₀ p item.2 ↔
      s.TakesArguments ∧ ∃ v, coerceAt vs s p item.2 = .ok v := by
    constructor
    · rintro ⟨k, s₁, hk, hs₁, h⟩
      obtain rfl : k = j := Option.some.inj (hk.symm.trans hindex)
      obtain rfl : s₁ = s := Option.some.inj (Option.some.inj (hs₁.symm.trans hs))
      exact h
    · intro h
      exact ⟨j, s, hindex, hs, h⟩
  have hround : writeParam vs (parseOswArguments vs.skipDefault w₀) w item =
      if s'.TakesArguments then
        match coerceAt vs s' p item.2 with
        | .error _ => .error .coercion
        | .ok v => .ok (some ⟨item.1, .argument (j, p.name), v⟩)
      else .error .notAnObject := by
    have hresolve := resolveStepIndex_eq hindex hs' (by rw [hname, hsame.name])
    have hmeasure : isMeasureArgument p = true := decide_eq_true hkind
    unfold writeParam
    rw [hp]
    show (if isMeasureArgument p = true then _ else _) = _
    rw [if_pos hmeasure, hresolve]
    have hget : w.steps[j]? = some (some s') := hs'
    simp only [hget]
  rw [hround, hwritable, coerceAt_congr hsame hvalue]
  by_cases htakes : s.TakesArguments
  · rw [if_pos (hsame.takes.mpr htakes)]
    cases hcoerce : coerceAt vs s p item.2 with
    | error e => exact .inr ⟨.coercion, rfl, fun h => nomatch h.2⟩
    | ok v => exact .inl ⟨v, rfl, htakes, v, rfl⟩
  · rw [if_neg fun h => htakes (hsame.takes.mp h)]
    exact .inr ⟨.notAnObject, rfl, fun h => htakes h.1⟩

/-! ## The loop -/

/-- The write made for an item. -/
def WrittenFor (vs : Values V) (w₀ : Workflow V) (item : Name × V) (e : Write V) : Prop :=
  e.key = item.1 ∧ ∃ p i, (parseOswArguments vs.skipDefault w₀).get? item.1 = some p ∧
    p.stepIndex = some i ∧ e.target = .argument (i, p.name)

/-- The item's key is one of the workflow's, and `slot` is where its value goes. -/
def GoesTo (vs : Values V) (w₀ : Workflow V) (item : Name × V) (slot : Slot) : Prop :=
  ∃ p, (parseOswArguments vs.skipDefault w₀).get? item.1 = some p ∧
    p.stepIndex = some slot.1 ∧ p.name = slot.2

/-- The value of the item can be written. -/
def ItemWritable (vs : Values V) (w₀ : Workflow V) (item : Name × V) : Prop :=
  ∀ p, (parseOswArguments vs.skipDefault w₀).get? item.1 = some p → Writable vs w₀ p item.2

/-- Items that go to different slots are written one after the other, all of them if they can
be written. The induction keeps the slots of the items to come as they were. -/
theorem writeParams_cases {items : List (Name × V)} {w : Workflow V}
    (hgoes : ∀ item ∈ items, ∃ slot, GoesTo vs w₀ item slot)
    (hapart : items.Pairwise fun a b => ∀ slot, GoesTo vs w₀ a slot → ¬ GoesTo vs w₀ b slot)
    (hagrees : ∀ item ∈ items, ∀ slot, GoesTo vs w₀ item slot → Agrees slot w₀ w) :
    (∃ log, writeParams vs (parseOswArguments vs.skipDefault w₀) items w =
        .ok (log.foldl Write.perform w, log) ∧
        List.Forall₂ (WrittenFor vs w₀) items log ∧ ∀ item ∈ items, ItemWritable vs w₀ item) ∨
      ((∃ e, writeParams vs (parseOswArguments vs.skipDefault w₀) items w = .error e) ∧
        ¬ ∀ item ∈ items, ItemWritable vs w₀ item) := by
  induction items generalizing w with
  | nil => exact .inl ⟨[], rfl, .nil, nofun⟩
  | cons item items ih =>
    obtain ⟨⟨i, a⟩, p, hp, hindex, rfl⟩ := hgoes item List.mem_cons_self
    have hitem : ItemWritable vs w₀ item ↔ Writable vs w₀ p item.2 :=
      ⟨fun h => h p hp, fun h p' hp' => Option.some.inj (hp.symm.trans hp') ▸ h⟩
    have hslot := hagrees item List.mem_cons_self (i, p.name) ⟨p, hp, hindex, rfl⟩
    unfold writeParams
    obtain ⟨v, hround, hwritable⟩ | ⟨e, hround, hnot⟩ := writeParam_cases hp hindex hslot
    · obtain ⟨hfirst, hrest⟩ := List.pairwise_cons.mp hapart
      have hlater : ∀ item' ∈ items, ∀ slot, GoesTo vs w₀ item' slot →
          Agrees slot w₀ (Write.perform w ⟨item.1, .argument (i, p.name), v⟩) := by
        intro item' hmem slot hslot'
        refine agrees_perform (hagrees item' (List.mem_cons_of_mem item hmem) slot hslot')
          fun heq => ?_
        obtain rfl := Target.argument.inj heq
        exact hfirst item' hmem _ ⟨p, hp, hindex, rfl⟩ hslot'
      have hih := ih (fun item' h => hgoes item' (List.mem_cons_of_mem item h)) hrest hlater
      rw [hround]
      obtain ⟨log, hlog, hfor, hall⟩ | ⟨⟨e, hloop⟩, hnot⟩ := hih
      · refine .inl ⟨⟨item.1, .argument (i, p.name), v⟩ :: log, ?_,
          .cons ⟨rfl, p, i, hp, hindex, rfl⟩ hfor,
          List.forall_mem_cons.mpr ⟨hitem.mpr hwritable, hall⟩⟩
        show (match writeParams vs _ items _ with | .error e' => _ | .ok (w', log) => _) = _
        rw [hlog]
        rfl
      · refine .inr ⟨⟨e, ?_⟩, fun hall => hnot (List.forall_mem_cons.mp hall).2⟩
        show (match writeParams vs _ items _ with | .error e' => _ | .ok (w', log) => _) = _
        rw [hloop]
    · rw [hround]
      exact .inr ⟨⟨e, rfl⟩, fun hall => hnot (hitem.mp (List.forall_mem_cons.mp hall).1)⟩

/-! ## The keys of a workflow -/

variable {parameters : Dict Name V}

theorem reads_of_goesTo {item : Name × V} {slot : Slot} (h : GoesTo vs w₀ item slot) :
    Reads vs.skipDefault w₀ item.1 slot := by
  obtain ⟨p, hp, hindex, hname⟩ := h
  obtain ⟨i, s, -, hreads, -, hi, -⟩ := target_of_get? hp
  rw [hi] at hindex
  rwa [Option.some.inj hindex, hname] at hreads

theorem goesTo_of_reads {item : Name × V} {slot : Slot}
    (h : Reads vs.skipDefault w₀ item.1 slot) : ∃ slot', GoesTo vs w₀ item slot' := by
  obtain ⟨p, hp⟩ := get?_parse_isSome_iff.mpr ⟨slot, h⟩
  obtain ⟨i, s, -, -, -, hi, -⟩ := target_of_get? hp
  exact ⟨(i, p.name), p, hp, hi, rfl⟩

theorem mem_oswParams {remaining : List (Name × V)} {item : Name × V} :
    item ∈ oswParams vs (parseOswArguments vs.skipDefault w₀) remaining ↔
      ∃ v, (item.1, v) ∈ remaining ∧ item.2 = vs.label v ∧ ∃ slot, GoesTo vs w₀ item slot := by
  unfold oswParams
  rw [List.mem_filterMap]
  constructor
  · rintro ⟨⟨key, v⟩, hmem, hitem⟩
    split at hitem
    next hmeasure =>
      obtain rfl := Option.some.inj hitem
      refine ⟨v, hmem, rfl, ?_⟩
      cases hp : (parseOswArguments vs.skipDefault w₀).get? key with
      | none =>
        rw [hp] at hmeasure
        cases hmeasure
      | some p =>
        obtain ⟨i, s, -, -, -, hi, -⟩ := target_of_get? hp
        exact ⟨(i, p.name), p, hp, hi, rfl⟩
    next => cases hitem
  · rintro ⟨v, hmem, hvalue, slot, p, hp, -⟩
    refine ⟨(item.1, v), hmem, ?_⟩
    have hmeasure : ((parseOswArguments vs.skipDefault w₀).get? item.1).any isMeasureArgument :=
      by
        obtain ⟨i, s, -, -, hkind, -⟩ := target_of_get? hp
        rw [hp]
        exact decide_eq_true hkind
    rw [if_pos hmeasure, ← hvalue]

/-- No key is written twice. -/
theorem pairwise_oswParams (mappings : Mappings V) :
    (oswParams vs mappings parameters.items).Pairwise fun a b => a.1 ≠ b.1 := by
  have hnodup : parameters.items.Pairwise fun a b => a.1 ≠ b.1 :=
    List.pairwise_map.mp parameters.nodup
  refine List.Pairwise.filterMap _ (fun a b hne a' ha' b' hb' => ?_) hnodup
  split at ha'
  · split at hb'
    · rw [← Option.some.inj ha', ← Option.some.inj hb']
      exact hne
    · cases hb'
  · cases ha'

/-- Two readings of two items' keys are never the same slot. -/
theorem pairwise_goesTo (hapart : ∀ key ∈ parameters.keys, ∀ key' ∈ parameters.keys, ∀ slot,
      Reads vs.skipDefault w₀ key slot → Reads vs.skipDefault w₀ key' slot → key = key') :
    (oswParams vs (parseOswArguments vs.skipDefault w₀) parameters.items).Pairwise
      fun a b => ∀ slot, GoesTo vs w₀ a slot → ¬ GoesTo vs w₀ b slot := by
  have hkey {item : Name × V}
      (h : item ∈ oswParams vs (parseOswArguments vs.skipDefault w₀) parameters.items) :
      item.1 ∈ parameters.keys := by
    obtain ⟨v, hmem, -⟩ := mem_oswParams.mp h
    exact List.mem_map.mpr ⟨_, hmem, rfl⟩
  refine List.Pairwise.imp_of_mem (fun ha hb hne slot hslot hslot' => hne ?_)
    (pairwise_oswParams _)
  exact hapart _ (hkey ha) _ (hkey hb) slot (reads_of_goesTo hslot) (reads_of_goesTo hslot')

/-- Without the weather file's key, applying is the loop behind the check of the steps. -/
theorem apply_of_notMem (h : epwFileKey ∉ parameters.keys) :
    applyOswParameters vs parameters w₀ = mutateOsw vs (parseOswArguments vs.skipDefault w₀)
      (oswParams vs (parseOswArguments vs.skipDefault w₀) parameters.items) w₀ := by
  unfold applyOswParameters
  rw [Dict.erase_of_notMem h, Dict.get?_of_notMem h]
  dsimp only
  cases mutateOsw vs (parseOswArguments vs.skipDefault w₀)
    (oswParams vs (parseOswArguments vs.skipDefault w₀) parameters.items) w₀ <;> rfl

/-- With it, the weather file is written. -/
theorem weather_of_mem (h : epwFileKey ∈ parameters.keys) {w' : Workflow V} {log : List (Write V)}
    (happly : applyOswParameters vs parameters w₀ = .ok (w', log)) :
    ∃ e ∈ log, e.target = .weatherFile := by
  obtain ⟨epwFile, hget⟩ := Dict.mem_keys_iff.mp h
  unfold applyOswParameters at happly
  rw [hget] at happly
  dsimp only at happly
  split at happly
  next => exact nomatch happly
  next =>
    obtain ⟨-, rfl⟩ := Prod.mk.inj (Except.ok.inj happly)
    exact ⟨_, List.mem_append_right _ (List.mem_singleton_self _), rfl⟩

/-- Keys that can be read as one slot only pass the check of the steps. -/
theorem mutate_of_single (hsingle : ∀ key ∈ parameters.keys, ∀ slot slot',
      Reads vs.skipDefault w₀ key slot → Reads vs.skipDefault w₀ key slot' → slot = slot') :
    mutateOsw vs (parseOswArguments vs.skipDefault w₀)
        (oswParams vs (parseOswArguments vs.skipDefault w₀) parameters.items) w₀ =
      writeParams vs (parseOswArguments vs.skipDefault w₀)
        (oswParams vs (parseOswArguments vs.skipDefault w₀) parameters.items) w₀ := by
  unfold mutateOsw
  refine if_neg (not_not_intro ?_)
  refine List.filter_eq_nil_iff.mpr fun key hkey hambiguous => ?_
  obtain ⟨item, hitem, rfl⟩ := List.mem_map.mp hkey
  obtain ⟨v, hmem, -, slot, p, hp, -⟩ := mem_oswParams.mp hitem
  rw [hp] at hambiguous
  refine of_decide_eq_true hambiguous (unambiguous_of_reads (hsingle item.1 ?_) hp)
  exact List.mem_map.mpr ⟨_, hmem, rfl⟩

/-- The parameters are applied unambiguously exactly if the keys are clear and the values can
be written. -/
theorem applied_iff (vs : Values V) (w : Workflow V) (parameters : Dict Name V) :
    Applied vs w parameters ↔ Clear vs w parameters := by
  have hkey {item : Name × V}
      (h : item ∈ oswParams vs (parseOswArguments vs.skipDefault w) parameters.items) :
      item.1 ∈ parameters.keys := by
    obtain ⟨v, hmem, -⟩ := mem_oswParams.mp h
    exact List.mem_map.mpr ⟨_, hmem, rfl⟩
  have hgoes : ∀ item ∈ oswParams vs (parseOswArguments vs.skipDefault w) parameters.items,
      ∃ slot, GoesTo vs w item slot := fun item h => by
    obtain ⟨v, -, -, hslot⟩ := mem_oswParams.mp h
    exact hslot
  have hwritable : (∀ item ∈ oswParams vs (parseOswArguments vs.skipDefault w) parameters.items,
      ItemWritable vs w item) ↔ ∀ item ∈ parameters.items, ∀ mapping,
      (parseOswArguments vs.skipDefault w).get? item.1 = some mapping →
        Writable vs w mapping (vs.label item.2) := by
    constructor
    · intro h item hitem mapping hmapping
      obtain ⟨i, s, -, -, -, hi, -⟩ := target_of_get? hmapping
      exact h (item.1, vs.label item.2)
        (mem_oswParams.mpr ⟨item.2, hitem, rfl, (i, mapping.name), mapping, hmapping, hi, rfl⟩)
        mapping hmapping
    · intro h item hitem mapping hmapping
      obtain ⟨v, hmem, hvalue, -⟩ := mem_oswParams.mp hitem
      rw [hvalue]
      exact h (item.1, v) hmem mapping hmapping
  constructor
  · rintro ⟨w', log, happly, happlied⟩
    have hsingle : ∀ key ∈ parameters.keys, ∀ slot slot', Reads vs.skipDefault w key slot →
        Reads vs.skipDefault w key slot' → slot = slot' := fun key hkey slot slot' h h' =>
      (happlied.written key hkey slot' h').1 slot h
    have hapart : ∀ key ∈ parameters.keys, ∀ key' ∈ parameters.keys, ∀ slot,
        Reads vs.skipDefault w key slot → Reads vs.skipDefault w key' slot → key = key' := by
      intro key hkey key' hkey' slot h h'
      obtain ⟨v, he⟩ := (happlied.written key hkey slot h).2
      obtain ⟨v', he'⟩ := (happlied.written key' hkey' slot h').2
      by_contra hne
      have hsymm : Std.Symm fun e e' : Write V => e.target ≠ e'.target :=
        ⟨fun _ _ h h' => h h'.symm⟩
      exact happlied.apart.forall he he' (fun heq => hne (congrArg Write.key heq)) rfl
    have hweather : epwFileKey ∉ parameters.keys := by
      intro hmem
      obtain ⟨e, he, htarget⟩ := weather_of_mem hmem happly
      obtain ⟨slot, hslot, -⟩ := (happlied.only e he).2
      exact nomatch hslot.symm.trans htarget
    refine ⟨hsingle, hapart, hweather, hwritable.mp ?_⟩
    rw [apply_of_notMem hweather, mutate_of_single hsingle] at happly
    obtain ⟨-, -, -, hall⟩ | ⟨⟨e, herror⟩, -⟩ := writeParams_cases hgoes
      (pairwise_goesTo hapart) fun item _ slot _ => agrees_refl slot w
    · exact hall
    · rw [herror] at happly
      exact nomatch happly
  · intro hclear
    obtain ⟨log, hlog, hfor, -⟩ | ⟨-, hnot⟩ := writeParams_cases hgoes
      (pairwise_goesTo hclear.apart) fun item _ slot _ => agrees_refl slot w
    swap
    · exact absurd (hwritable.mpr hclear.writable) hnot
    refine ⟨log.foldl Write.perform w, log, ?_, ?_⟩
    · rw [apply_of_notMem hclear.weather, mutate_of_single hclear.single, hlog]
    · have hback : ∀ e ∈ log, ∃ item ∈ oswParams vs (parseOswArguments vs.skipDefault w)
          parameters.items, e.key = item.1 ∧ ∃ slot, GoesTo vs w item slot ∧
            e.target = .argument slot := by
        intro e he
        obtain ⟨item, hitem, hkey', p, i, hp, hi, htarget⟩ := exists_of_forall₂ hfor.flip e he
        exact ⟨item, hitem, hkey', (i, p.name), ⟨p, hp, hi, rfl⟩, htarget⟩
      have honly : ∀ e ∈ log, e.key ∈ parameters.keys ∧
          ∃ slot, e.target = .argument slot ∧ Reads vs.skipDefault w e.key slot := by
        intro e he
        obtain ⟨item, hitem, hkey', slot, hslot, htarget⟩ := hback e he
        rw [hkey']
        exact ⟨hkey hitem, slot, htarget, reads_of_goesTo hslot⟩
      refine ⟨fun key hmem slot hreads => ⟨fun slot' hreads' =>
        hclear.single key hmem slot' slot hreads' hreads, ?_⟩, honly, ?_, rfl⟩
      · obtain ⟨value, hvalue⟩ := Dict.mem_keys_iff.mp hmem
        have hgoes' : ∃ slot', GoesTo vs w (key, vs.label value) slot' := goesTo_of_reads hreads
        have hitem : (key, vs.label value) ∈
            oswParams vs (parseOswArguments vs.skipDefault w) parameters.items :=
          mem_oswParams.mpr ⟨value, Dict.mem_items.mpr hvalue, rfl, hgoes'⟩
        obtain ⟨e, he, hkey', p, i, hp, hi, htarget⟩ := exists_of_forall₂ hfor _ hitem
        have hgoes'' : GoesTo vs w (key, vs.label value) (i, p.name) := ⟨p, hp, hi, rfl⟩
        have hreads' := reads_of_goesTo hgoes''
        obtain rfl := hclear.single key hmem _ _ hreads' hreads
        refine ⟨e.value, ?_⟩
        rw [← htarget, show key = e.key from hkey'.symm]
        exact he
      · have hkeys : log.map Write.key =
            (oswParams vs (parseOswArguments vs.skipDefault w) parameters.items).map Prod.fst := by
          have h : List.Forall₂ Eq (log.map Write.key)
              ((oswParams vs (parseOswArguments vs.skipDefault w) parameters.items).map
                Prod.fst) :=
            List.forall₂_map_left_iff.mpr
              (List.forall₂_map_right_iff.mpr (hfor.flip.imp fun e item h => h.1))
          rwa [List.forall₂_eq_eq_eq] at h
        have hdistinct : log.Pairwise fun e e' => e.key ≠ e'.key := by
          rw [← List.pairwise_map, hkeys, List.pairwise_map]
          exact pairwise_oswParams _
        refine List.Pairwise.imp_of_mem (fun he he' hne heq => hne ?_) hdistinct
        obtain ⟨hmem, slot, htarget, hreads⟩ := honly _ he
        obtain ⟨hmem', slot', htarget', hreads'⟩ := honly _ he'
        obtain rfl : slot = slot' :=
          Target.argument.inj (htarget.symm.trans (heq.trans htarget'))
        exact hclear.apart _ hmem _ hmem' slot hreads hreads'


/-! ## What preflight guarantees -/

/-- No dots in argument names; no attribute has the name of an argument's key; and a plain key
that two steps expose is exposed by two steps with different measure names. -/
structure Tidy (skipDefault : V) (w : Workflow V) (attributes : List (Name × V))
    (keys : List Name) : Prop where
  undotted : ∀ i s a, IsStep w i s → Exposes skipDefault s a → a ≠ [] ∧ '.' ∉ a
  attributes : ∀ name ∈ attributes.map Prod.fst, ∀ slot, ¬ Reads skipDefault w name slot
  measures : ∀ key ∈ keys, ∀ i s j s', IsStep w i s → IsStep w j s' → i ≠ j →
    Exposes skipDefault s key → Exposes skipDefault s' key →
      ∃ k t k' t', IsStep w k t ∧ IsStep w k' t' ∧ Exposes skipDefault t key ∧
        Exposes skipDefault t' key ∧ t.measureName ≠ [] ∧ t'.measureName ≠ [] ∧
          t.measureName ≠ t'.measureName

section Tidy

variable {skipDefault : V} {w : Workflow V} {attributes : List (Name × V)} {keys : List Name}

theorem dot_mem_dotted (q a : Name) : '.' ∈ dotted q a :=
  List.mem_append_right q List.mem_cons_self

theorem plainArg_dotted (q : Name) {a : Name} (ha : '.' ∉ a) : plainArg (dotted q a) = a := by
  have htake : (dotted q a).reverse.takeWhile (fun c => decide (c ≠ '.')) = a.reverse := by
    unfold dotted
    rw [List.reverse_append, List.reverse_cons, List.append_assoc,
      List.takeWhile_append_of_pos]
    · show a.reverse ++ List.takeWhile _ ('.' :: q.reverse) = _
      rw [List.takeWhile_cons_of_neg (by decide), List.append_nil]
    · intro c hc
      exact decide_eq_true fun h => ha (h ▸ List.mem_reverse.mp hc)
  unfold plainArg
  rw [htake, List.reverse_reverse]

/-- The last dot splits a dotted key. -/
theorem dotted_inj {q q' a a' : Name} (ha : '.' ∉ a) (ha' : '.' ∉ a')
    (h : dotted q a = dotted q' a') : q = q' ∧ a = a' := by
  have harg : a = a' := by
    rw [← plainArg_dotted q ha, h, plainArg_dotted q' ha']
  subst harg
  exact ⟨List.append_cancel_right h, rfl⟩

theorem get?_buildMappings_of_notMem {key : Name} (h : key ∉ attributes.map Prod.fst) :
    (buildMappings skipDefault w attributes).get? key =
      (parseOswArguments skipDefault w).get? key := by
  unfold buildMappings
  generalize parseOswArguments skipDefault w = mappings
  induction attributes generalizing mappings with
  | nil => rfl
  | cons a attributes ih =>
    rw [List.map_cons, List.mem_cons, not_or] at h
    rw [List.foldl_cons, ih h.2, Dict.get?_set_ne _ (Ne.symm h.1)]

variable (htidy : Tidy skipDefault w attributes keys)

include htidy

/-- A key of the workflow has the same entry with the attributes. -/
theorem Tidy.get?_buildMappings {key : Name} {slot : Slot} (h : Reads skipDefault w key slot) :
    ∃ p, (buildMappings skipDefault w attributes).get? key = some p ∧
      (parseOswArguments skipDefault w).get? key = some p := by
  obtain ⟨p, hp⟩ := get?_parse_isSome_iff.mpr ⟨slot, h⟩
  refine ⟨p, ?_, hp⟩
  rw [get?_buildMappings_of_notMem fun hmem => htidy.attributes key hmem slot h, hp]

omit htidy in
/-- A key without a dot is read as the argument of its name. -/
theorem plain_reading {key : Name} {slot : Slot} (hdot : '.' ∉ key)
    (h : Reads skipDefault w key slot) :
    slot.2 = key ∧ ∃ s, IsStep w slot.1 s ∧ Exposes skipDefault s key := by
  obtain ⟨s, hs, hexposes, rfl | ⟨q, -, rfl⟩⟩ := h
  · exact ⟨rfl, s, hs, hexposes⟩
  · exact absurd (dot_mem_dotted q slot.2) hdot

/-- A key with a dot names a step before it. -/
theorem Tidy.dotted_reading {key : Name} {slot : Slot} (hdot : '.' ∈ key)
    (h : Reads skipDefault w key slot) :
    ∃ s q, IsStep w slot.1 s ∧ Exposes skipDefault s slot.2 ∧ Denotes w q slot.1 s ∧
      key = dotted q slot.2 := by
  obtain ⟨s, hs, hexposes, rfl | ⟨q, hq, rfl⟩⟩ := h
  · exact absurd hdot (htidy.undotted _ s _ hs hexposes).2
  · exact ⟨s, q, hs, hexposes, hq, rfl⟩

theorem Tidy.not_dot {i : Nat} {s : Step V} {a : Name} (hs : IsStep w i s)
    (ha : Exposes skipDefault s a) : '.' ∉ a := (htidy.undotted i s a hs ha).2

/-- The entry of `<measure>.<argument>` is the measure's. -/
theorem Tidy.measureName_of_dotted {i : Nat} {s : Step V} {a : Name} {p : MappedParameter V}
    (hs : IsStep w i s) (ha : Exposes skipDefault s a) (hne : s.measureName ≠ [])
    (hp : (parseOswArguments skipDefault w).get? (dotted s.measureName a) = some p) :
    p.measureName = some s.measureName := by
  obtain ⟨j, s', hs', hreads, -, -, -, hmeasure⟩ := target_of_get? hp
  obtain ⟨t, q, ht, hexposes, hq, hkey⟩ := htidy.dotted_reading (dot_mem_dotted _ a) hreads
  obtain rfl : t = s' := Option.some.inj (Option.some.inj (ht.symm.trans hs'))
  obtain ⟨rfl, -⟩ := dotted_inj (htidy.not_dot hs ha) (htidy.not_dot ht hexposes) hkey
  have hname : s.measureName = t.measureName :=
    hq.2.resolve_right fun halias => halias.2.1 (mem_canonical hs)
  rw [hmeasure, ← hname]
  exact Option.filter_eq_some_iff.mpr ⟨rfl, decide_eq_true hne⟩

/-- Two measures with the argument make its plain key ambiguous. -/
theorem Tidy.ambiguous_of_measures {key : Name} (hmem : key ∈ keys) (hdot : '.' ∉ key)
    {k k' : Nat} {t t' : Step V} (ht : IsStep w k t) (ht' : IsStep w k' t')
    (hexposes : Exposes skipDefault t key) (hexposes' : Exposes skipDefault t' key)
    (hne : t.measureName ≠ []) (hne' : t'.measureName ≠ [])
    (hdiffer : t.measureName ≠ t'.measureName) :
    key ∈ ambiguousParameters keys (buildMappings skipDefault w attributes) := by
  have hmeasure {i : Nat} {s : Step V} (hs : IsStep w i s) (ha : Exposes skipDefault s key)
      (hs' : s.measureName ≠ []) :
      s.measureName ∈ argToMeasures (buildMappings skipDefault w attributes) key := by
    have hreads : Reads skipDefault w (dotted s.measureName key) (i, key) :=
      ⟨s, hs, ha, .inr ⟨s.measureName, ⟨hs', .inl rfl⟩, rfl⟩⟩
    obtain ⟨p, hp, hparse⟩ := htidy.get?_buildMappings hreads
    refine List.mem_filterMap.mpr ⟨(_, p), Dict.mem_items.mpr hp, ?_⟩
    obtain ⟨-, -, -, -, hkind, -⟩ := target_of_get? hparse
    rw [if_pos ⟨decide_eq_true hkind, dot_mem_dotted _ key, plainArg_dotted _ hdot,
      (htidy.undotted i s key hs ha).1⟩]
    exact htidy.measureName_of_dotted hs ha hs' hparse
  refine List.mem_filter.mpr ⟨hmem, ?_⟩
  rw [Bool.and_eq_true]
  refine ⟨decide_eq_true hdot, decide_eq_true ?_⟩
  by_contra hle
  have h := List.mem_eraseDups.mpr (hmeasure ht hexposes hne)
  have h' := List.mem_eraseDups.mpr (hmeasure ht' hexposes' hne')
  cases hlist : (argToMeasures (buildMappings skipDefault w attributes) key).eraseDups with
  | nil =>
    rw [hlist] at h
    exact nomatch h
  | cons m ms =>
    rw [hlist, List.length_cons] at hle
    have hms : ms = [] := List.eq_nil_of_length_eq_zero (by omega)
    rw [hlist, hms] at h h'
    exact hdiffer ((List.mem_singleton.mp h).trans (List.mem_singleton.mp h').symm)

/-- Two steps with the measure and the argument make the dotted key ambiguous. -/
theorem Tidy.ambiguous_of_steps {q a : Name} (hmem : dotted q a ∈ keys) {i j : Nat}
    {s s' : Step V} (hs : IsStep w i s) (hs' : IsStep w j s') (hne : i ≠ j)
    (ha : Exposes skipDefault s a) (ha' : Exposes skipDefault s' a) (hq : q ≠ [])
    (hqs : q = s.measureName) (hqs' : q = s'.measureName) :
    dotted q a ∈ ambiguousStepTargets keys (buildMappings skipDefault w attributes) := by
  have hreads : Reads skipDefault w (dotted q a) (i, a) :=
    ⟨s, hs, ha, .inr ⟨q, ⟨hq, .inl hqs⟩, rfl⟩⟩
  obtain ⟨p, hp, hparse⟩ := htidy.get?_buildMappings hreads
  refine List.mem_filter.mpr ⟨hmem, ?_⟩
  rw [hp]
  refine decide_eq_true fun hunambiguous => ?_
  obtain ⟨first, later, hregs, rfl⟩ := get?_parse_eq_some hparse
  have hclash := (ambiguous_of_get? hregs hparse).mp hunambiguous
  have hsame := sameTarget_foldl_mark later first.param
  have hfirst : first.param.measureName = some q := by
    rw [← hsame.measureName]
    subst hqs
    exact htidy.measureName_of_dotted hs ha hq hparse
  -- the registration of either step clashes, unless it is the first one
  have hindex {k : Nat} {t : Step V} (ht : IsStep w k t) (hexposes : Exposes skipDefault t a)
      (hqt : q = t.measureName) : first.param.stepIndex = some k := by
    obtain ⟨b, hb, rfl⟩ := List.mem_map.mp hexposes
    have hreg : (⟨dotted q b.1, argumentParam b.1 b.2 k t, true⟩ : Registration V) ∈
        first :: later := by
      rw [← hregs]
      refine mem_registeredAs.mpr ⟨mem_registrations.mpr ⟨k, t, ht, b, hb, ?_⟩, rfl⟩
      refine (mem_registrationsOf ht).mpr (.inr ⟨q, ⟨hq, .inl hqt⟩, ?_⟩)
      rw [decide_eq_true hqt]
      rfl
    rcases List.mem_cons.mp hreg with heq | hlater
    · rw [← heq]
      rfl
    · by_contra hk
      refine hclash _ hlater ⟨rfl, hk, ?_⟩
      have htruthy : truthy (some q) = some q :=
        Option.filter_eq_some_iff.mpr ⟨rfl, decide_eq_true hq⟩
      rw [hfirst]
      show some q = truthy (some t.measureName)
      rw [← hqt, htruthy]
  exact hne (Option.some.inj ((hindex hs ha hqs).symm.trans (hindex hs' ha' hqs')))

omit htidy in
theorem preflight_passed (h : preflightCheck keys (buildMappings skipDefault w attributes) =
      .ok ()) :
    ambiguousParameters keys (buildMappings skipDefault w attributes) = [] ∧
      ambiguousStepTargets keys (buildMappings skipDefault w attributes) = [] ∧
      crossMeasureConflicts keys (buildMappings skipDefault w attributes) = [] := by
  unfold preflightCheck at h
  dsimp only at h
  split at h
  · cases h
  · split at h
    · cases h
    next hparameters =>
      split at h
      · cases h
      next hsteps =>
        split at h
        · cases h
        next hconflicts =>
          exact ⟨not_not.mp hparameters, not_not.mp hsteps, not_not.mp hconflicts⟩

variable (haccepted : preflightCheck keys (buildMappings skipDefault w attributes) = .ok ())

include haccepted

/-- In a tidy template an accepted key can be read as one slot only. -/
theorem Tidy.single_of_accepted {key : Name} (hmem : key ∈ keys) {slot slot' : Slot}
    (h : Reads skipDefault w key slot) (h' : Reads skipDefault w key slot') : slot = slot' := by
  obtain ⟨hparameters, hsteps, -⟩ := preflight_passed haccepted
  by_cases hdot : '.' ∈ key
  · obtain ⟨s, q, hs, ha, hq, hkey⟩ := htidy.dotted_reading hdot h
    obtain ⟨s', q', hs', ha', hq', hkey'⟩ := htidy.dotted_reading hdot h'
    obtain ⟨rfl, harg⟩ := dotted_inj (htidy.not_dot hs ha) (htidy.not_dot hs' ha')
      (hkey.symm.trans hkey')
    refine Prod.ext ?_ harg
    by_contra hne
    rcases hq.2 with hmeasure | halias
    · have hmeasure' := hq'.2.resolve_right fun halias =>
        halias.2.1 (hmeasure ▸ mem_canonical hs)
      rw [hkey] at hmem
      rw [← harg] at ha'
      have := htidy.ambiguous_of_steps hmem hs hs' hne ha ha' hq.1 hmeasure hmeasure'
      rw [hsteps] at this
      exact nomatch this
    · rcases hq'.2 with hmeasure' | halias'
      · exact halias.2.1 (hmeasure' ▸ mem_canonical hs')
      · exact hne (halias'.2.2 _ s hs halias.1)
  · obtain ⟨harg, s, hs, ha⟩ := plain_reading hdot h
    obtain ⟨harg', s', hs', ha'⟩ := plain_reading hdot h'
    refine Prod.ext ?_ (harg.trans harg'.symm)
    by_contra hne
    obtain ⟨k, t, k', t', ht, ht', hexposes, hexposes', hnonempty, hnonempty', hdiffer⟩ :=
      htidy.measures key hmem _ s _ s' hs hs' hne ha ha'
    have := htidy.ambiguous_of_measures hmem hdot ht ht' hexposes hexposes' hnonempty
      hnonempty' hdiffer
    rw [hparameters] at this
    exact nomatch this

omit htidy haccepted in
/-- A step that an identifier denotes has a measure name. -/
theorem measureName_of_denotes {q : Name} {i : Nat} {s : Step V} (h : Denotes w q i s) :
    truthy (some s.measureName) = some s.measureName := by
  refine Option.filter_eq_some_iff.mpr ⟨rfl, decide_eq_true fun hnil => ?_⟩
  rcases h.2 with hq | ⟨halias, -⟩
  · exact h.1 (hq.trans hnil)
  · cases hdir : truthy s.measureDirName with
    | none =>
      unfold Step.rawAliases at halias
      rw [hdir] at halias
      exact nomatch halias
    | some dir =>
      have hname : s.measureName = dir := by
        unfold Step.measureName
        rw [hdir]
        rfl
      exact of_decide_eq_true (Option.filter_eq_some_iff.mp hdir).2 (hname.symm.trans hnil)

/-- The entry of an accepted key is the slot's. -/
theorem Tidy.entry_of_accepted {key : Name} (hmem : key ∈ keys) {slot : Slot}
    (h : Reads skipDefault w key slot) :
    ∃ p, (buildMappings skipDefault w attributes).get? key = some p ∧
      isMeasureArgument p = true ∧ p.stepIndex = some slot.1 ∧ p.name = slot.2 ∧
        ∃ s, IsStep w slot.1 s ∧ p.measureName = truthy (some s.measureName) := by
  obtain ⟨p, hp, hparse⟩ := htidy.get?_buildMappings h
  obtain ⟨i, s, hs, hreads, hkind, hindex, -, hmeasure⟩ := target_of_get? hparse
  obtain rfl := htidy.single_of_accepted haccepted hmem hreads h
  exact ⟨p, hp, decide_eq_true hkind, hindex, rfl, s, hs, hmeasure⟩

/-- An accepted plain key is counted among the argument's plain ones. -/
theorem Tidy.mem_plainParams {key : Name} (hmem : key ∈ keys) (hdot : '.' ∉ key) {slot : Slot}
    (h : Reads skipDefault w key slot) :
    key ∈ plainParams keys (buildMappings skipDefault w attributes) slot.2 := by
  obtain ⟨p, hp, hkind, -, hname, -⟩ := htidy.entry_of_accepted haccepted hmem h
  refine List.mem_filter.mpr ⟨hmem, ?_⟩
  rw [hp, Bool.and_eq_true]
  refine ⟨decide_eq_true hdot, ?_⟩
  show (isMeasureArgument p && decide (p.name = slot.2)) = true
  rw [hkind, decide_eq_true hname]
  rfl

/-- An accepted dotted key is counted under its step. -/
theorem Tidy.dottedParams_step {key : Name} (hmem : key ∈ keys) (hdot : '.' ∈ key) {slot : Slot}
    (h : Reads skipDefault w key slot) :
    dottedStep (buildMappings skipDefault w attributes) slot.2 key = some (some slot.1) := by
  obtain ⟨p, hp, hkind, hindex, -, s, hs, hmeasure⟩ := htidy.entry_of_accepted haccepted hmem h
  obtain ⟨t, q, ht, hexposes, hq, hkey⟩ := htidy.dotted_reading hdot h
  obtain rfl : t = s := Option.some.inj (Option.some.inj (ht.symm.trans hs))
  have hnot := htidy.undotted _ t _ ht hexposes
  have harg : plainArg key = slot.2 := by
    rw [hkey]
    exact plainArg_dotted q hnot.2
  have hname : p.measureName ≠ none := by
    rw [hmeasure, measureName_of_denotes hq]
    exact Option.some_ne_none _
  unfold dottedStep
  rw [hp]
  exact (if_pos ⟨hkind, hdot, hname, harg, hnot.1⟩).trans (congrArg some hindex)

/-- The argument of an accepted key is one of those looked at. -/
theorem Tidy.mem_allArgs {key : Name} (hmem : key ∈ keys) {slot : Slot}
    (h : Reads skipDefault w key slot) :
    slot.2 ∈ allArgs keys (buildMappings skipDefault w attributes) := by
  obtain ⟨p, hp, hkind, -, hname, -⟩ := htidy.entry_of_accepted haccepted hmem h
  refine List.mem_filterMap.mpr ⟨key, hmem, ?_⟩
  rw [hp]
  show (if isMeasureArgument p = true then _ else none) = _
  rw [if_pos hkind]
  by_cases hdot : '.' ∈ key
  · obtain ⟨t, q, ht, hexposes, -, hkey⟩ := htidy.dotted_reading hdot h
    rw [if_pos hdot, hkey, plainArg_dotted q (htidy.not_dot ht hexposes)]
  · rw [if_neg hdot, hname]

/-- In a tidy template no two accepted keys can be read as the same slot. -/
theorem Tidy.apart_of_accepted {key key' : Name} (hmem : key ∈ keys) (hmem' : key' ∈ keys)
    {slot : Slot} (h : Reads skipDefault w key slot) (h' : Reads skipDefault w key' slot) :
    key = key' := by
  have hnone : conflictAt keys (buildMappings skipDefault w attributes) slot.2 ≠ true :=
    List.filter_eq_nil_iff.mp (preflight_passed haccepted).2.2 slot.2
      (htidy.mem_allArgs haccepted hmem h)
  -- one key plain and the other dotted is the first conflict
  have hmixed {k k' : Name} (hk : k ∈ keys) (hk' : k' ∈ keys) (hplain : '.' ∉ k)
      (hdotted : '.' ∈ k') (h : Reads skipDefault w k slot) (h' : Reads skipDefault w k' slot) :
      False := by
    have hmemPlain := htidy.mem_plainParams haccepted hk hplain h
    have hmemDotted : some slot.1 ∈
        dottedParams keys (buildMappings skipDefault w attributes) slot.2 :=
      List.mem_filterMap.mpr ⟨k', hk', htidy.dottedParams_step haccepted hk' hdotted h'⟩
    refine hnone ?_
    unfold conflictAt
    exact if_pos ⟨List.ne_nil_of_mem hmemPlain, List.ne_nil_of_mem hmemDotted⟩
  by_cases hdot : '.' ∈ key
  · by_cases hdot' : '.' ∈ key'
    · -- both dotted: their step is counted twice
      by_contra hne
      have hrepeated :
          ¬ (dottedParams keys (buildMappings skipDefault w attributes) slot.2).Nodup := by
        intro hnodup
        unfold dottedParams List.Nodup at hnodup
        rw [List.pairwise_filterMap] at hnodup
        have hstep := htidy.dottedParams_step haccepted hmem hdot h
        have hstep' := htidy.dottedParams_step haccepted hmem' hdot' h'
        have hsymm : Std.Symm fun k k' : Name =>
            ∀ b, dottedStep (buildMappings skipDefault w attributes) slot.2 k = some b →
              ∀ b', dottedStep (buildMappings skipDefault w attributes) slot.2 k' = some b' →
                b ≠ b' :=
          ⟨fun _ _ h b hb b' hb' => (h b' hb' b hb).symm⟩
        exact hnodup.forall hmem hmem' hne _ hstep _ hstep' rfl
      have hlength :
          1 < (dottedParams keys (buildMappings skipDefault w attributes) slot.2).length := by
        by_contra hle
        refine hrepeated ?_
        match hlist : dottedParams keys (buildMappings skipDefault w attributes) slot.2 with
        | [] => exact List.nodup_nil
        | [b] => exact List.nodup_singleton b
        | b :: b' :: rest =>
          rw [hlist, List.length_cons, List.length_cons] at hle
          omega
      refine hnone ?_
      unfold conflictAt
      dsimp only
      rw [if_pos hlength, decide_eq_false hrepeated, Bool.and_false]
      split <;> rfl
    · exact (hmixed hmem' hmem hdot' hdot h' h).elim
  · by_cases hdot' : '.' ∈ key'
    · exact (hmixed hmem hmem' hdot hdot' h h').elim
    · exact (plain_reading hdot h).1.symm.trans (plain_reading hdot' h').1

end Tidy

/-- Of accepted parameters those are applied unambiguously that are clear. In a tidy template
it is enough that the weather file is not among them and that the values can be written. -/
theorem applied_of_accepted_iff (vs : Values V) (w : Workflow V) (attributes : List (Name × V))
    (parameters : Dict Name V)
    (haccepted : preflightCheck parameters.keys (buildMappings vs.skipDefault w attributes) =
      .ok ()) :
    (Applied vs w parameters ↔ Clear vs w parameters) ∧
      (Tidy vs.skipDefault w attributes parameters.keys →
        (Applied vs w parameters ↔ epwFileKey ∉ parameters.keys ∧
          ∀ item ∈ parameters.items, ∀ mapping,
            (parseOswArguments vs.skipDefault w).get? item.1 = some mapping →
              Writable vs w mapping (vs.label item.2))) := by
  refine ⟨applied_iff vs w parameters, fun htidy => ?_⟩
  rw [applied_iff]
  constructor
  · intro hclear
    exact ⟨hclear.weather, hclear.writable⟩
  · rintro ⟨hweather, hwritable⟩
    refine ⟨fun key hmem slot slot' => htidy.single_of_accepted haccepted hmem, ?_, hweather,
      hwritable⟩
    intro key hmem key' hmem' slot
    exact htidy.apart_of_accepted haccepted hmem hmem'

/-! ## Two instances of a measure -/

/-- Values that are written as they are. -/
def plainValues : Values Nat where
  skipDefault := 0
  label := id
  str := id
  coerce _ value _ _ _ _ := .ok value

def instanceStep (stepName : Name) (temp : Nat) : Step Nat where
  measureDirName := some ['S', 'e', 't']
  name := some stepName
  arguments := .object ((∅ : Dict Name Nat).set ['t', 'e', 'm', 'p'] temp)
  xml := none

def twoInstances : Workflow Nat where
  steps := [some (instanceStep ['h', 'e', 'a', 't'] 20), some (instanceStep ['c', 'o', 'o', 'l'] 24)]
  weatherFile := none

def plainTemp : Dict Name Nat := (∅ : Dict Name Nat).set ['t', 'e', 'm', 'p'] 22

def coolTemp : Dict Name Nat :=
  (∅ : Dict Name Nat).set ['c', 'o', 'o', 'l', '.', 't', 'e', 'm', 'p'] 22

/-- The key names the second instance, and is written there. -/
theorem applied_coolTemp : Applied plainValues twoInstances coolTemp := by
  have hregistered : ∀ r ∈ registrations 0 twoInstances,
      r.key = ['c', 'o', 'o', 'l', '.', 't', 'e', 'm', 'p'] →
        r.param.stepIndex = some 1 ∧ r.param.name = ['t', 'e', 'm', 'p'] := by
    decide
  have hslot : ∀ key ∈ coolTemp.keys, ∀ slot, Reads 0 twoInstances key slot →
      slot = (1, ['t', 'e', 'm', 'p']) := by
    intro key hkey slot hreads
    obtain ⟨r, hr, hrkey, hindex, hname⟩ := reads_iff.mp hreads
    obtain rfl := List.mem_singleton.mp hkey
    obtain ⟨hi, ha⟩ := hregistered r hr hrkey
    exact Prod.ext (Option.some.inj (hindex.symm.trans hi)) (hname.symm.trans ha)
  refine (applied_of_accepted_iff plainValues twoInstances [] coolTemp rfl).1.mpr ⟨?_, ?_, ?_, ?_⟩
  · intro key hkey slot slot' h h'
    exact (hslot key hkey slot h).trans (hslot key hkey slot' h').symm
  · intro key hkey key' hkey' _ _ _
    exact (List.mem_singleton.mp hkey).trans (List.mem_singleton.mp hkey').symm
  · decide
  · intro item hitem mapping hmapping
    obtain ⟨i, s, hs, hreads, -, hindex, -⟩ := target_of_get? hmapping
    obtain rfl := (Prod.mk.inj (hslot _ (List.mem_map_of_mem hitem) _ hreads)).1
    obtain rfl := Option.some.inj (Option.some.inj hs)
    exact ⟨1, _, hindex, rfl, trivial, _, rfl⟩

/-- Both instances have the argument, and preflight lets its plain key pass. -/
theorem plain_key_of_two_instances :
    preflightCheck plainTemp.keys (buildMappings plainValues.skipDefault twoInstances []) = .ok () ∧
      ¬ Applied plainValues twoInstances plainTemp := by
  refine ⟨rfl, ?_⟩
  rintro ⟨w', log, -, happlied⟩
  have hreads (i : Nat) (s : Step Nat) (hs : IsStep twoInstances i s)
      (ha : Exposes 0 s ['t', 'e', 'm', 'p']) :
      Reads 0 twoInstances ['t', 'e', 'm', 'p'] (i, ['t', 'e', 'm', 'p']) :=
    ⟨s, hs, ha, .inl rfl⟩
  have hheat := hreads 0 _ rfl List.mem_cons_self
  have hcool := hreads 1 _ rfl List.mem_cons_self
  have hsame := (happlied.written _ List.mem_cons_self _ hheat).1 _ hcool
  exact absurd (Prod.mk.inj hsame).1 (by decide)

end OSimFlow.Apply
