import Mathlib.Data.List.Basic
import OSimFlow.Lib.Dict

/-!
# The measure arguments of a workflow

`parse_osw_arguments` gives names to the arguments of the steps of a `workflow.osw`: the
argument's own name, and the name with the step's measure, its step name or a `measure.xml`
name before a dot. The first step to register a key has it. A second step of the same measure
marks the `<measure>.<argument>` key as ambiguous; nothing marks a plain one.

> `get?_parse`: what a key is looked up as, in terms of the registrations of the key.
>
> `reads_iff`: a key is registered for a step's argument exactly if it can be read so.

A step that is no object is skipped. What `measure.xml` declares is given with the step.
-/

namespace OSimFlow.Apply

open OSimFlow.Lib

abbrev Name := List Char

/-- `"__SKIP__"`. -/
def skipName : Name := ['_', '_', 'S', 'K', 'I', 'P', '_', '_']

/-- The argument's number of the step, and its name. -/
abbrev Slot := Nat × Name

variable {V : Type}

/-! ## Workflows -/

/-- The `measure.xml` of a measure: names, types and defaults of its arguments, and its
`<name>` and `<class_name>`. -/
structure MeasureXml (V : Type) where
  arguments : List (Name × Name × V)
  aliases : List Name

/-- `step["arguments"]`, which may be no object. -/
inductive Arguments (V : Type) where
  | absent
  | object (entries : Dict Name V)
  | other

structure Step (V : Type) where
  measureDirName : Option Name
  name : Option Name
  arguments : Arguments V
  xml : Option (MeasureXml V)

structure Workflow (V : Type) where
  steps : List (Option (Step V))
  weatherFile : Option V

/-- A string that Python takes for true. -/
def truthy (text : Option Name) : Option Name := text.filter fun t => decide (t ≠ [])

def Arguments.entries : Arguments V → List (Name × V)
  | .object entries => entries.items
  | _ => []

namespace Step

variable (s : Step V)

/-- `str(measure_dir_name or step.get("name") or "")`. -/
def measureName : Name := ((truthy s.measureDirName).or (truthy s.name)).getD []

/-- The `measure.xml` of a step that has a `measure_dir_name`. -/
def measureXml : Option (MeasureXml V) := (truthy s.measureDirName).bind fun _ => s.xml

/-- The arguments with their defaults: given, declared in `measure.xml`, and `__SKIP__`. -/
def exposed (skipDefault : V) : List (Name × V) :=
  let given := s.arguments.entries
  let declared := (s.measureXml.elim [] MeasureXml.arguments).map fun a => (a.1, a.2.2)
  given ++ (declared.filter fun a => decide (a.1 ∉ given.map Prod.fst)) ++
    (if skipName ∈ given.map Prod.fst then [] else [(skipName, skipDefault)])

/-- The step name and the `measure.xml` names of a step that has a `measure_dir_name`. -/
def rawAliases : List Name :=
  match truthy s.measureDirName with
  | none => []
  | some _ => ((truthy s.name).toList ++ s.measureXml.elim [] MeasureXml.aliases).eraseDups

end Step

/-- The measure names of the steps. -/
def canonical (steps : List (Option (Step V))) : List Name :=
  steps.filterMap (Option.map Step.measureName)

/-- The steps that claim an alias. -/
def claimants (steps : List (Option (Step V))) (n : Name) : List (Option (Step V) × Nat) :=
  steps.zipIdx.filter fun p => decide (n ∈ p.1.elim [] Step.rawAliases)

/-- `_collect_step_aliases`, for one step: an alias is kept if it is no step's measure name and
no other step claims it. -/
def stepAliases (steps : List (Option (Step V))) (s : Step V) : List Name :=
  s.rawAliases.filter fun n =>
    decide (n ∉ canonical steps) && decide ((claimants steps n).length = 1)

/-! ## Mappings -/

inductive ParamKind where
  | attribute
  | measureArgument
deriving DecidableEq

structure MappedParameter (V : Type) where
  name : Name
  kind : ParamKind
  default : V
  stepIndex : Option Nat
  measureName : Option Name
  stepName : Option Name
  ambiguousSteps : List Name

/-- `f"{measure_name}.{arg_name}"`. -/
def dotted (measureName argName : Name) : Name := measureName ++ '.' :: argName

/-- `_step_label`. -/
def stepLabel (param : MappedParameter V) : Name :=
  match param.stepName with
  | some stepName => stepName
  | none =>
    ['s', 't', 'e', 'p', '['] ++ (param.stepIndex.elim [] fun i => (toString i).toList) ++ [']']

/-- A second step of the measure joins the ambiguous ones. -/
def markAmbiguous (existing param : MappedParameter V) : MappedParameter V :=
  let labels :=
    if existing.ambiguousSteps = [] then [stepLabel existing] else existing.ambiguousSteps
  { existing with ambiguousSteps := labels ++ [stepLabel param] }

abbrev Mappings (V : Type) := Dict Name (MappedParameter V)

/-- The entry of an argument. -/
def argumentParam (argName : Name) (default : V) (stepIdx : Nat) (s : Step V) :
    MappedParameter V where
  name := argName
  kind := .measureArgument
  default := default
  stepIndex := some stepIdx
  measureName := truthy (some s.measureName)
  stepName := truthy s.name
  ambiguousSteps := []

/-- `_register_osw_argument`. -/
def registerOswArgument (result : Mappings V) (param : MappedParameter V) (measureName : Name)
    (aliases : List Name) : Mappings V :=
  let result := result.setDefault param.name param
  let result :=
    if measureName = [] then result
    else
      match result.get? (dotted measureName param.name) with
      | none => result.set (dotted measureName param.name) param
      | some existing =>
        if existing.stepIndex ≠ param.stepIndex ∧ existing.measureName = param.measureName then
          result.set (dotted measureName param.name) (markAmbiguous existing param)
        else result
  aliases.foldl (fun result al =>
    if al ≠ [] ∧ al ≠ measureName then result.setDefault (dotted al param.name) param
    else result) result

/-- The arguments of one step are registered. -/
def registerStep (skipDefault : V) (steps : List (Option (Step V))) (result : Mappings V)
    (p : Option (Step V) × Nat) : Mappings V :=
  match p.1 with
  | none => result
  | some s =>
    (s.exposed skipDefault).foldl (fun result a =>
      registerOswArgument result (argumentParam a.1 a.2 p.2 s) s.measureName
        (stepAliases steps s)) result

/-- `parse_osw_arguments`. -/
def parseOswArguments (skipDefault : V) (w : Workflow V) : Mappings V :=
  w.steps.zipIdx.foldl (registerStep skipDefault w.steps) ∅

/-! ## What a key can be read as -/

/-- The step exposes the argument. -/
def Exposes (skipDefault : V) (s : Step V) (argName : Name) : Prop :=
  argName ∈ (s.exposed skipDefault).map Prod.fst

/-- The step is there under this number. -/
def IsStep (w : Workflow V) (i : Nat) (s : Step V) : Prop := w.steps[i]? = some (some s)

/-- The identifier is the step's measure name, or an alias of this step alone that is no
measure name. -/
def Denotes (w : Workflow V) (q : Name) (i : Nat) (s : Step V) : Prop :=
  q ≠ [] ∧ (q = s.measureName ∨ q ∈ s.rawAliases ∧ q ∉ canonical w.steps ∧
    ∀ j s', IsStep w j s' → q ∈ s'.rawAliases → j = i)

/-- The key is the argument's own name, or names the step before a dot. -/
def Reads (skipDefault : V) (w : Workflow V) (key : Name) (slot : Slot) : Prop :=
  ∃ s, IsStep w slot.1 s ∧ Exposes skipDefault s slot.2 ∧
    (key = slot.2 ∨ ∃ q, Denotes w q slot.1 s ∧ key = dotted q slot.2)

/-! ## Registrations -/

/-- A key with the entry it is registered for, and whether it goes by the measure. -/
structure Registration (V : Type) where
  key : Name
  param : MappedParameter V
  viaMeasure : Bool

/-- The registration marks the entry as ambiguous. -/
def Registration.Clashes (r : Registration V) (existing : MappedParameter V) : Prop :=
  r.viaMeasure = true ∧ existing.stepIndex ≠ r.param.stepIndex ∧
    existing.measureName = r.param.measureName

instance (r : Registration V) (existing : MappedParameter V) : Decidable (r.Clashes existing) :=
  inferInstanceAs (Decidable (_ ∧ _ ∧ _))

def Registration.mark (existing : MappedParameter V) (r : Registration V) : MappedParameter V :=
  if r.Clashes existing then markAmbiguous existing r.param else existing

def Registration.add (result : Mappings V) (r : Registration V) : Mappings V :=
  match result.get? r.key with
  | none => result.set r.key r.param
  | some existing =>
    if r.Clashes existing then result.set r.key (markAmbiguous existing r.param) else result

/-- The registrations of one argument. -/
def registrationsOf (param : MappedParameter V) (measureName : Name) (aliases : List Name) :
    List (Registration V) :=
  ⟨param.name, param, false⟩ ::
    ((if measureName = [] then [] else [⟨dotted measureName param.name, param, true⟩]) ++
      (aliases.filter fun al => decide (al ≠ [] ∧ al ≠ measureName)).map fun al =>
        ⟨dotted al param.name, param, false⟩)

theorem add_of_not_viaMeasure (result : Mappings V) (key : Name) (param : MappedParameter V) :
    Registration.add result ⟨key, param, false⟩ = result.setDefault key param := by
  unfold Registration.add Dict.setDefault
  cases result.get? key with
  | none => rfl
  | some existing => exact if_neg fun h => nomatch h.1

theorem registerOswArgument_eq (result : Mappings V) (param : MappedParameter V)
    (measureName : Name) (aliases : List Name) :
    registerOswArgument result param measureName aliases =
      (registrationsOf param measureName aliases).foldl Registration.add result := by
  have haliases (d : Mappings V) :
      aliases.foldl (fun result al =>
        if al ≠ [] ∧ al ≠ measureName then result.setDefault (dotted al param.name) param
        else result) d =
      (((aliases.filter fun al => decide (al ≠ [] ∧ al ≠ measureName)).map fun al =>
        (⟨dotted al param.name, param, false⟩ : Registration V))).foldl Registration.add d := by
    rw [List.foldl_map, List.foldl_filter]
    simp only [decide_eq_true_eq, add_of_not_viaMeasure]
  unfold registerOswArgument registrationsOf
  rw [List.foldl_cons, List.foldl_append, add_of_not_viaMeasure, haliases]
  congr 1
  by_cases hm : measureName = []
  · rw [if_pos hm, if_pos hm]
    rfl
  · rw [if_neg hm, if_neg hm]
    show _ = Registration.add _ ⟨dotted measureName param.name, param, true⟩
    unfold Registration.add
    cases (result.setDefault param.name param).get? (dotted measureName param.name) with
    | none => rfl
    | some existing =>
      simp [Registration.Clashes]

/-- The registrations of a workflow, in order. -/
def registrations (skipDefault : V) (w : Workflow V) : List (Registration V) :=
  w.steps.zipIdx.flatMap fun p =>
    match p.1 with
    | none => []
    | some s =>
      (s.exposed skipDefault).flatMap fun a =>
        registrationsOf (argumentParam a.1 a.2 p.2 s) s.measureName (stepAliases w.steps s)

theorem parse_eq (skipDefault : V) (w : Workflow V) :
    parseOswArguments skipDefault w =
      (registrations skipDefault w).foldl Registration.add ∅ := by
  unfold parseOswArguments registrations
  rw [List.foldl_flatMap]
  congr 1
  funext result p
  unfold registerStep
  cases p.1 with
  | none => rfl
  | some s =>
    show _ = List.foldl _ _ (List.flatMap _ _)
    rw [List.foldl_flatMap]
    simp only [registerOswArgument_eq]

/-- The registrations of a key. -/
def registeredAs (regs : List (Registration V)) (key : Name) : List (Registration V) :=
  regs.filter fun r => decide (r.key = key)

theorem get?_add (result : Mappings V) (r : Registration V) (key : Name) :
    (Registration.add result r).get? key =
      if r.key = key then
        some ((result.get? key).elim r.param fun existing => Registration.mark existing r)
      else result.get? key := by
  unfold Registration.add
  by_cases hkey : r.key = key
  · subst hkey
    rw [if_pos rfl]
    cases hget : result.get? r.key with
    | none => exact Dict.get?_set_self _ _ _
    | some existing =>
      show (if r.Clashes existing then _ else result).get? r.key = some (Registration.mark _ _)
      unfold Registration.mark
      split
      · exact Dict.get?_set_self _ _ _
      · exact hget
  · rw [if_neg hkey]
    cases result.get? r.key with
    | none => exact Dict.get?_set_ne _ hkey _
    | some existing =>
      show (if r.Clashes existing then _ else result).get? key = _
      split
      · exact Dict.get?_set_ne _ hkey _
      · rfl

/-- The first registration of a key gives its entry, the later ones mark it. -/
theorem get?_foldl_add (regs : List (Registration V)) (result : Mappings V) (key : Name) :
    (regs.foldl Registration.add result).get? key =
      match result.get? key, registeredAs regs key with
      | some existing, later => some (later.foldl Registration.mark existing)
      | none, [] => none
      | none, first :: later => some (later.foldl Registration.mark first.param) := by
  induction regs generalizing result with
  | nil =>
    show result.get? key = _
    cases result.get? key <;> rfl
  | cons r regs ih =>
    rw [List.foldl_cons, ih, get?_add]
    unfold registeredAs
    by_cases hkey : r.key = key
    · rw [if_pos hkey, List.filter_cons_of_pos (by simpa using hkey)]
      cases result.get? key <;> rfl
    · rw [if_neg hkey, List.filter_cons_of_neg (by simpa using hkey)]

theorem get?_parse (skipDefault : V) (w : Workflow V) (key : Name) :
    (parseOswArguments skipDefault w).get? key =
      match registeredAs (registrations skipDefault w) key with
      | [] => none
      | first :: later => some (later.foldl Registration.mark first.param) := by
  rw [parse_eq, get?_foldl_add, Dict.get?_empty]
  cases registeredAs (registrations skipDefault w) key <;> rfl

/-! ## Entries -/

/-- The fields that marking leaves alone. -/
structure SameTarget (p p' : MappedParameter V) : Prop where
  name : p'.name = p.name
  kind : p'.kind = p.kind
  default : p'.default = p.default
  stepIndex : p'.stepIndex = p.stepIndex
  measureName : p'.measureName = p.measureName
  stepName : p'.stepName = p.stepName

theorem sameTarget_foldl_mark (later : List (Registration V)) (p : MappedParameter V) :
    SameTarget p (later.foldl Registration.mark p) := by
  induction later generalizing p with
  | nil => exact ⟨rfl, rfl, rfl, rfl, rfl, rfl⟩
  | cons r later ih =>
    have hmark : SameTarget p (Registration.mark p r) := by
      unfold Registration.mark
      split <;> exact ⟨rfl, rfl, rfl, rfl, rfl, rfl⟩
    have h := ih (Registration.mark p r)
    exact ⟨h.name.trans hmark.name, h.kind.trans hmark.kind, h.default.trans hmark.default,
      h.stepIndex.trans hmark.stepIndex, h.measureName.trans hmark.measureName,
      h.stepName.trans hmark.stepName⟩

/-- The entry is ambiguous exactly if it was, or a later registration clashes with it. -/
theorem ambiguous_foldl_mark (later : List (Registration V)) (p : MappedParameter V) :
    (later.foldl Registration.mark p).ambiguousSteps = [] ↔
      p.ambiguousSteps = [] ∧ ∀ r ∈ later, ¬ r.Clashes p := by
  induction later generalizing p with
  | nil => simp
  | cons r later ih =>
    rw [List.foldl_cons, ih, List.forall_mem_cons]
    unfold Registration.mark
    by_cases hclash : r.Clashes p
    · rw [if_pos hclash]
      refine iff_of_false (fun h => ?_) fun h => h.2.1 hclash
      exact List.append_ne_nil_of_right_ne_nil _ (List.cons_ne_nil _ _) h.1
    · rw [if_neg hclash]
      exact ⟨fun h => ⟨h.1, hclash, h.2⟩, fun h => ⟨h.1, h.2.2⟩⟩

/-! ## Registrations are readings -/

theorem isStep_iff (w : Workflow V) (i : Nat) (s : Step V) :
    IsStep w i s ↔ (some s, i) ∈ w.steps.zipIdx := List.mk_mem_zipIdx_iff_getElem?.symm

theorem mem_canonical {w : Workflow V} {i : Nat} {s : Step V} (h : IsStep w i s) :
    s.measureName ∈ canonical w.steps :=
  List.mem_filterMap.mpr ⟨some s, List.mem_of_getElem? h, rfl⟩

/-- A step alone claims an alias if no other step does. -/
theorem claimants_iff {w : Workflow V} {i : Nat} {s : Step V} (hs : IsStep w i s) {q : Name}
    (hq : q ∈ s.rawAliases) :
    (claimants w.steps q).length = 1 ↔
      ∀ j s', IsStep w j s' → q ∈ s'.rawAliases → j = i := by
  have hmem : (some s, i) ∈ claimants w.steps q :=
    List.mem_filter.mpr ⟨(isStep_iff w i s).mp hs, decide_eq_true hq⟩
  constructor
  · intro hlength j s' hs' hq'
    obtain ⟨p, hp⟩ := List.length_eq_one_iff.mp hlength
    have hmem' : (some s', j) ∈ claimants w.steps q :=
      List.mem_filter.mpr ⟨(isStep_iff w j s').mp hs', decide_eq_true hq'⟩
    rw [hp] at hmem hmem'
    have h := (List.mem_singleton.mp hmem').trans (List.mem_singleton.mp hmem).symm
    exact (Prod.mk.inj h).2
  · intro honly
    have hindex : ∀ j ∈ (claimants w.steps q).map Prod.snd, j = i := by
      intro j hj
      obtain ⟨⟨step, k⟩, hp, rfl⟩ := List.mem_map.mp hj
      obtain ⟨hzip, hclaims⟩ := List.mem_filter.mp hp
      cases step with
      | none => exact absurd (of_decide_eq_true hclaims) List.not_mem_nil
      | some s' => exact honly k s' ((isStep_iff w k s').mpr hzip) (of_decide_eq_true hclaims)
    have hnodup : ((claimants w.steps q).map Prod.snd).Nodup :=
      (List.filter_sublist.map Prod.snd).nodup (by
        rw [List.zipIdx_map_snd]
        exact List.nodup_range')
    have hreplicate := List.eq_replicate_of_mem hindex
    rw [hreplicate, List.nodup_replicate, List.length_map] at hnodup
    have hpos := List.length_pos_of_mem hmem
    omega

theorem mem_stepAliases {w : Workflow V} {i : Nat} {s : Step V} (hs : IsStep w i s) (q : Name) :
    q ∈ stepAliases w.steps s ↔ q ∈ s.rawAliases ∧ q ∉ canonical w.steps ∧
      ∀ j s', IsStep w j s' → q ∈ s'.rawAliases → j = i := by
  unfold stepAliases
  rw [List.mem_filter, Bool.and_eq_true, decide_eq_true_eq, decide_eq_true_eq]
  constructor
  · rintro ⟨hq, hcanonical, hlength⟩
    exact ⟨hq, hcanonical, (claimants_iff hs hq).mp hlength⟩
  · rintro ⟨hq, hcanonical, honly⟩
    exact ⟨hq, hcanonical, (claimants_iff hs hq).mpr honly⟩

theorem mem_registrations {skipDefault : V} {w : Workflow V} {r : Registration V} :
    r ∈ registrations skipDefault w ↔ ∃ i s, IsStep w i s ∧ ∃ a ∈ s.exposed skipDefault,
      r ∈ registrationsOf (argumentParam a.1 a.2 i s) s.measureName (stepAliases w.steps s) := by
  unfold registrations
  rw [List.mem_flatMap]
  constructor
  · rintro ⟨⟨step, i⟩, hp, hr⟩
    cases step with
    | none => exact absurd hr List.not_mem_nil
    | some s =>
      obtain ⟨a, ha, hr⟩ := List.mem_flatMap.mp hr
      exact ⟨i, s, (isStep_iff w i s).mpr hp, a, ha, hr⟩
  · rintro ⟨i, s, hs, a, ha, hr⟩
    exact ⟨(some s, i), (isStep_iff w i s).mp hs, List.mem_flatMap.mpr ⟨a, ha, hr⟩⟩

/-- The keys of an argument's registrations: its name, and the step's identifiers before it. -/
theorem mem_registrationsOf {w : Workflow V} {i : Nat} {s : Step V} (hs : IsStep w i s)
    {param : MappedParameter V} {r : Registration V} :
    r ∈ registrationsOf param s.measureName (stepAliases w.steps s) ↔
      r = ⟨param.name, param, false⟩ ∨ ∃ q, Denotes w q i s ∧
        r = ⟨dotted q param.name, param, decide (q = s.measureName)⟩ := by
  unfold registrationsOf Denotes
  rw [List.mem_cons, List.mem_append, List.mem_map]
  refine or_congr_right ?_
  constructor
  · rintro (h | ⟨q, hq, rfl⟩)
    · by_cases hm : s.measureName = []
      · rw [if_pos hm] at h
        exact absurd h List.not_mem_nil
      · rw [if_neg hm] at h
        refine ⟨s.measureName, ⟨hm, .inl rfl⟩, ?_⟩
        rw [decide_eq_true rfl]
        exact List.mem_singleton.mp h
    · obtain ⟨halias, hne⟩ := List.mem_filter.mp hq
      obtain ⟨hne, hm⟩ := of_decide_eq_true hne
      refine ⟨q, ⟨hne, .inr ((mem_stepAliases hs q).mp halias)⟩, ?_⟩
      rw [decide_eq_false hm]
  · rintro ⟨q, ⟨hne, rfl | halias⟩, rfl⟩
    · refine .inl ?_
      rw [if_neg hne, decide_eq_true rfl]
      exact List.mem_singleton_self _
    · have hm : q ≠ s.measureName := fun h => halias.2.1 (h ▸ mem_canonical hs)
      refine .inr ⟨q, List.mem_filter.mpr ⟨(mem_stepAliases hs q).mpr halias,
        decide_eq_true ⟨hne, hm⟩⟩, ?_⟩
      rw [decide_eq_false hm]

/-- Every entry is the argument of a step, as it was registered. -/
theorem registration_param {skipDefault : V} {w : Workflow V} {r : Registration V}
    (hr : r ∈ registrations skipDefault w) :
    ∃ i s a, IsStep w i s ∧ a ∈ s.exposed skipDefault ∧ r.param = argumentParam a.1 a.2 i s := by
  obtain ⟨i, s, hs, a, ha, hr⟩ := mem_registrations.mp hr
  refine ⟨i, s, a, hs, ha, ?_⟩
  rcases (mem_registrationsOf hs).mp hr with rfl | ⟨q, -, rfl⟩ <;> rfl

/-- A key can be read as a slot exactly if it is registered for it. -/
theorem reads_iff {skipDefault : V} {w : Workflow V} {key : Name} {slot : Slot} :
    Reads skipDefault w key slot ↔ ∃ r ∈ registrations skipDefault w, r.key = key ∧
      r.param.stepIndex = some slot.1 ∧ r.param.name = slot.2 := by
  obtain ⟨i, argName⟩ := slot
  constructor
  · rintro ⟨s, hs, hexposes, hkey⟩
    obtain ⟨a, ha, rfl⟩ := List.mem_map.mp hexposes
    have hmem {r : Registration V} (h : r ∈ registrationsOf (argumentParam a.1 a.2 i s)
        s.measureName (stepAliases w.steps s)) : r ∈ registrations skipDefault w :=
      mem_registrations.mpr ⟨i, s, hs, a, ha, h⟩
    rcases hkey with rfl | ⟨q, hq, rfl⟩
    · exact ⟨_, hmem ((mem_registrationsOf hs).mpr (.inl rfl)), rfl, rfl, rfl⟩
    · exact ⟨_, hmem ((mem_registrationsOf hs).mpr (.inr ⟨q, hq, rfl⟩)), rfl, rfl, rfl⟩
  · rintro ⟨r, hr, rfl, hindex, hname⟩
    obtain ⟨j, s, hs, a, ha, hr⟩ := mem_registrations.mp hr
    have hkeys := (mem_registrationsOf hs).mp hr
    have hparam : r.param = argumentParam a.1 a.2 j s := by
      rcases hkeys with rfl | ⟨q, -, rfl⟩ <;> rfl
    rw [hparam] at hindex hname
    obtain rfl : j = i := Option.some.inj hindex
    obtain rfl : a.1 = argName := hname
    refine ⟨s, hs, List.mem_map_of_mem ha, ?_⟩
    rcases hkeys with rfl | ⟨q, hq, rfl⟩
    · exact .inl rfl
    · exact .inr ⟨q, hq, rfl⟩

/-! ## Looking a key up -/

variable {skipDefault : V} {w : Workflow V} {key : Name} {p : MappedParameter V}

/-- The entry of a key is its first registration's, marked by the later ones. -/
theorem get?_parse_eq_some (h : (parseOswArguments skipDefault w).get? key = some p) :
    ∃ first later, registeredAs (registrations skipDefault w) key = first :: later ∧
      p = later.foldl Registration.mark first.param := by
  rw [get?_parse] at h
  cases hregs : registeredAs (registrations skipDefault w) key with
  | nil =>
    rw [hregs] at h
    exact nomatch h
  | cons first later =>
    rw [hregs] at h
    exact ⟨first, later, rfl, (Option.some.inj h).symm⟩

theorem mem_registeredAs {regs : List (Registration V)} {r : Registration V} :
    r ∈ registeredAs regs key ↔ r ∈ regs ∧ r.key = key := by
  unfold registeredAs
  rw [List.mem_filter, decide_eq_true_eq]

theorem get?_parse_isSome_iff :
    (∃ p, (parseOswArguments skipDefault w).get? key = some p) ↔
      ∃ slot, Reads skipDefault w key slot := by
  constructor
  · rintro ⟨p, hp⟩
    obtain ⟨first, later, hregs, -⟩ := get?_parse_eq_some hp
    have hfirst : first ∈ registeredAs (registrations skipDefault w) key := by
      rw [hregs]
      exact List.mem_cons_self
    obtain ⟨hmem, hkey⟩ := mem_registeredAs.mp hfirst
    obtain ⟨i, s, a, -, -, hparam⟩ := registration_param hmem
    refine ⟨(i, a.1), reads_iff.mpr ⟨first, hmem, hkey, ?_, ?_⟩⟩
    · rw [hparam]
      rfl
    · rw [hparam]
      rfl
  · rintro ⟨slot, hreads⟩
    obtain ⟨r, hr, hkey, -⟩ := reads_iff.mp hreads
    have hmem := mem_registeredAs.mpr ⟨hr, hkey⟩
    rw [get?_parse]
    cases hregs : registeredAs (registrations skipDefault w) key with
    | nil =>
      rw [hregs] at hmem
      exact nomatch hmem
    | cons first later => exact ⟨_, rfl⟩

/-- The entry of a key is about one of the slots it can be read as. -/
theorem target_of_get? (h : (parseOswArguments skipDefault w).get? key = some p) :
    ∃ i s, IsStep w i s ∧ Reads skipDefault w key (i, p.name) ∧ p.kind = .measureArgument ∧
      p.stepIndex = some i ∧ p.stepName = truthy s.name ∧
      p.measureName = truthy (some s.measureName) := by
  obtain ⟨first, later, hregs, rfl⟩ := get?_parse_eq_some h
  have hfirst : first ∈ registeredAs (registrations skipDefault w) key := by
    rw [hregs]
    exact List.mem_cons_self
  obtain ⟨hmem, hkey⟩ := mem_registeredAs.mp hfirst
  obtain ⟨i, s, a, hs, -, hparam⟩ := registration_param hmem
  have hsame := sameTarget_foldl_mark later first.param
  rw [hparam] at hsame ⊢
  refine ⟨i, s, hs, ?_, hsame.kind, hsame.stepIndex, hsame.stepName, hsame.measureName⟩
  rw [hsame.name]
  refine reads_iff.mpr ⟨first, hmem, hkey, ?_, ?_⟩
  · rw [hparam]
    rfl
  · rw [hparam]

/-- The entry is ambiguous exactly if a later registration of the key clashes with the first. -/
theorem ambiguous_of_get? {first : Registration V} {later : List (Registration V)}
    (hregs : registeredAs (registrations skipDefault w) key = first :: later)
    (h : (parseOswArguments skipDefault w).get? key = some p) :
    p.ambiguousSteps = [] ↔ ∀ r ∈ later, ¬ r.Clashes first.param := by
  obtain ⟨first', later', hregs', rfl⟩ := get?_parse_eq_some h
  obtain ⟨rfl, rfl⟩ := List.cons.inj (hregs'.symm.trans hregs)
  have hfirst : first' ∈ registeredAs (registrations skipDefault w) key := by
    rw [hregs]
    exact List.mem_cons_self
  obtain ⟨i, s, a, -, -, hparam⟩ := registration_param (mem_registeredAs.mp hfirst).1
  rw [ambiguous_foldl_mark, hparam]
  exact and_iff_right rfl

/-- A key that can be read as one slot only is not ambiguous. -/
theorem unambiguous_of_reads (hunique : ∀ slot slot', Reads skipDefault w key slot →
      Reads skipDefault w key slot' → slot = slot')
    (h : (parseOswArguments skipDefault w).get? key = some p) : p.ambiguousSteps = [] := by
  obtain ⟨first, later, hregs, -⟩ := get?_parse_eq_some h
  refine (ambiguous_of_get? hregs h).mpr fun r hr hclash => hclash.2.1 ?_
  have hreads {r : Registration V} (hr : r ∈ first :: later) :
      ∃ i a, r.param.stepIndex = some i ∧ Reads skipDefault w key (i, a) := by
    rw [← hregs] at hr
    obtain ⟨hmem, hkey⟩ := mem_registeredAs.mp hr
    obtain ⟨i, s, a, -, -, hparam⟩ := registration_param hmem
    have hindex : r.param.stepIndex = some i := by
      rw [hparam]
      rfl
    have hname : r.param.name = a.1 := by
      rw [hparam]
      rfl
    exact ⟨i, a.1, hindex, reads_iff.mpr ⟨r, hmem, hkey, hindex, hname⟩⟩
  obtain ⟨i, a, hi, hri⟩ := hreads List.mem_cons_self
  obtain ⟨j, b, hj, hrj⟩ := hreads (List.mem_cons_of_mem first hr)
  rw [hi, hj]
  exact congrArg some (Prod.mk.inj (hunique _ _ hri hrj)).1

end OSimFlow.Apply
