import OSimFlow.Apply.OswArguments
import OSimFlow.Lib.Separator
import OSimFlow.Lib.Succeeds

/-!
# The attributes of a model under dotted names

`parse_osm_attributes` reports the attributes of the objects of an OpenStudio model under keys
`<type>_<object>.<attribute>`; `parse_dotted_name` reads such a key at its first dot, and what
is before it at its first underscore. The mutation looks the object up and sets the attribute.

> `mem_keys_parseOsm`: the keys are those of the attributes that are found.
>
> `roundTrip`: a key tells its attribute, and what is applied through it changes this attribute.

What the bindings do is given; `Lawful` is what is relied on.
-/

namespace OSimFlow.Apply.DottedNames

open OSimFlow.Lib

/-! ## Names -/

/-- `OSMAttributeError`, but for the last three. -/
inductive Raised where
  /-- `"Invalid dotted .osm attribute name …: expected 'ObjectType_InstanceName.attribute'"` -/
  | invalidName (name : Name)
  /-- `"… the object specifier … must contain an underscore …"` -/
  | noUnderscore (name objectSpec : Name)
  /-- `"Cannot resolve … for variable … The object does not exist in the model."` -/
  | unresolved (objectType objectName name : Name)
  /-- `"Failed to set …"` -/
  | failed (objectType name : Name)
  /-- `TypeError`: `"Cannot coerce parameter value of type …"` -/
  | notCoercible
  /-- `OverflowError` of `float(value)`. -/
  | overflow
  /-- What `setString` raises. -/
  | sdk
deriving DecidableEq

/-- `DottedName`. -/
structure DottedName where
  objectType : Option Name
  objectName : Option Name
  attributeName : Name
deriving DecidableEq

/-- `text.split(sep, 1)`, where `sep` is in the text. -/
def splitOnce (sep : Char) (text : Name) : Name × Name :=
  (text.takeWhile fun c => decide (c ≠ sep), (text.dropWhile fun c => decide (c ≠ sep)).tail)

/-- `parse_dotted_name`. -/
def parseDottedName (name : Name) : Except Raised DottedName :=
  if '.' ∉ name then .ok ⟨none, none, name⟩
  else
    let objectSpec := (splitOnce '.' name).1
    let attributeName := (splitOnce '.' name).2
    if objectSpec = [] ∨ attributeName = [] then .error (.invalidName name)
    else if '_' ∉ objectSpec then .error (.noUnderscore name objectSpec)
    else .ok ⟨some (splitOnce '_' objectSpec).1, some (splitOnce '_' objectSpec).2, attributeName⟩

/-! ## Objects and attributes -/

inductive ObjectType where
  | spaceType
  | thermalZone
  | construction
  | lights
  | people
deriving DecidableEq

def ObjectType.text : ObjectType → Name
  | spaceType => "SpaceType".toList
  | thermalZone => "ThermalZone".toList
  | construction => "Construction".toList
  | lights => "Lights".toList
  | people => "People".toList

/-- The method of the model that lists the objects. -/
def ObjectType.getterName : ObjectType → Name
  | spaceType => "getSpaceTypes".toList
  | thermalZone => "getThermalZones".toList
  | construction => "getConstructions".toList
  | lights => "getLights".toList
  | people => "getPeople".toList

inductive Attribute where
  | lightingPowerDensity
  | coolingSetpoint
  | heatingSetpoint
  | uValue
  | lightingLevel
  | peoplePerFloorArea
deriving DecidableEq

namespace Attribute

def type : Attribute → ObjectType
  | lightingPowerDensity => .spaceType
  | coolingSetpoint => .thermalZone
  | heatingSetpoint => .thermalZone
  | uValue => .construction
  | lightingLevel => .lights
  | peoplePerFloorArea => .people

def text : Attribute → Name
  | lightingPowerDensity => "lighting_power_density".toList
  | coolingSetpoint => "cooling_setpoint".toList
  | heatingSetpoint => "heating_setpoint".toList
  | uValue => "u_value".toList
  | lightingLevel => "lighting_level".toList
  | peoplePerFloorArea => "people_per_floor_area".toList

def all : List Attribute :=
  [lightingPowerDensity, coolingSetpoint, heatingSetpoint, uValue, lightingLevel,
    peoplePerFloorArea]

/-- The attributes that are schedules. -/
def isSetpoint : Attribute → Bool
  | coolingSetpoint => true
  | heatingSetpoint => true
  | _ => false

end Attribute

/-- `f"{type}_{name}.{attribute}"`. -/
def keyOf (a : Attribute) (objectName : Name) : Name :=
  a.type.text ++ '_' :: (objectName ++ '.' :: a.text)

/-! ## Values and bindings -/

/-- The values of Python that are told apart. -/
inductive Value (F : Type) where
  | bool (b : Bool)
  | int (n : Int)
  | float (x : F)
  | str (s : Name)
  | other

/-- What the bindings are called with. -/
inductive Coerced (F : Type) where
  | bool (b : Bool)
  | float (x : F)
  | str (s : Name)
deriving DecidableEq

/-- What is used of the bindings, for models `M` with objects `H`. A method that raises gives
nothing. -/
structure Bindings (M H F : Type) where
  /-- `float(n)`; nothing for `OverflowError`. -/
  ofInt : Int → Option F
  /-- `str(value)`, of a number or a truth value. -/
  str : F ⊕ Bool → Name
  /-- `getattr(model, name, None)`. -/
  getter : Name → Option (M → List H)
  /-- What the five methods list that the discovery calls. -/
  objects : ObjectType → M → List H
  nameString : M → H → Name
  isInitialized : Attribute → M → H → Bool
  get : Attribute → M → H → F
  /-- The setter of an attribute that is a number. -/
  set : Attribute → M → H → Coerced F → Option M
  /-- `ScheduleConstant(zone.model())`. -/
  newSchedule : M → M × H
  setValue : M → H → Coerced F → Option M
  /-- The setter of a schedule: the zone, and the schedule. -/
  assign : Attribute → M → H → H → Option M
  /-- `setString`, of an object or of the model. -/
  setString : M → Option H → Name → Name → Option M

variable {M H F : Type} (sdk : Bindings M H F)

/-! ## Discovery -/

/-- A `MappedParameter` of kind `attribute`. -/
structure MappedAttribute (F : Type) where
  name : Name
  default : Option F
  objectType : Name
  objectName : Name

/-- What is reported of an attribute; a schedule has no default. -/
def mapped (m : M) (a : Attribute) (h : H) : MappedAttribute F where
  name := keyOf a (sdk.nameString m h)
  default := if a.isSetpoint then none else some (sdk.get a m h)
  objectType := a.type.text
  objectName := sdk.nameString m h

/-- The attributes of the objects of a type that have a name. -/
def discover (t : ObjectType) (attributes : List Attribute) (m : M)
    (result : Dict Name (MappedAttribute F)) : Dict Name (MappedAttribute F) :=
  (sdk.objects t m).foldl (fun result h =>
    if sdk.nameString m h = [] then result
    else attributes.foldl (fun result a =>
      if sdk.isInitialized a m h then result.set (keyOf a (sdk.nameString m h)) (mapped sdk m a h)
      else result) result) result

def discoverSpaceTypes := discover sdk .spaceType [.lightingPowerDensity]

def discoverThermalZones := discover sdk .thermalZone [.coolingSetpoint, .heatingSetpoint]

def discoverConstructions := discover sdk .construction [.uValue]

def discoverLights := discover sdk .lights [.lightingLevel]

def discoverPeople := discover sdk .people [.peoplePerFloorArea]

/-- `_parse_osm_production`, of a model that is loaded. -/
def parseOsm (m : M) : Dict Name (MappedAttribute F) :=
  discoverPeople sdk m (discoverLights sdk m (discoverConstructions sdk m
    (discoverThermalZones sdk m (discoverSpaceTypes sdk m ∅))))

/-- An attribute that the discovery finds. -/
def Discovered (m : M) (a : Attribute) (h : H) : Prop :=
  h ∈ sdk.objects a.type m ∧ sdk.nameString m h ≠ [] ∧ sdk.isInitialized a m h = true

/-! ## Mutation -/

/-- `_resolve_osm_object`. -/
def resolveOsmObject (m : M) (objectType objectName : Name) : Option H :=
  match sdk.getter ("get".toList ++ objectType ++ "s".toList) with
  | none => none
  | some getter => (getter m).find? fun h => decide (sdk.nameString m h = objectName)

/-- `_set_thermal_zone_schedule`. -/
def setThermalZoneSchedule (a : Attribute) (m : M) (zone : H) (value : Coerced F) : Option M := do
  let (m, schedule) := sdk.newSchedule m
  let m ← sdk.setValue m schedule value
  sdk.assign a m zone schedule

/-- `setter_map.get(object_type).get(attribute)`. -/
def setterMap (objectType attributeName : Name) : Option Attribute :=
  Attribute.all.find? fun a => decide (a.type.text = objectType ∧ a.text = attributeName)

/-- The setter of an attribute. -/
def setter (a : Attribute) (m : M) (h : H) (value : Coerced F) : Option M :=
  if a.isSetpoint then setThermalZoneSchedule sdk a m h value else sdk.set a m h value

/-- What `setString` is given. -/
def textOf : Coerced F → Name
  | .bool b => sdk.str (.inr b)
  | .float x => sdk.str (.inl x)
  | .str s => s

/-- `_set_osm_attribute`, on the object that was resolved or on the model. -/
def setOsmAttribute (m : M) (target : Option (Name × H)) (attributeName : Name)
    (value : Coerced F) : Except Raised M :=
  match target with
  | some (objectType, h) =>
    match setterMap objectType attributeName with
    | some a =>
      match setter sdk a m h value with
      | some m => .ok m
      | none => .error (.failed objectType attributeName)
    | none => ((sdk.setString m (some h) attributeName (textOf sdk value)).elim (.error .sdk) .ok)
  | none => ((sdk.setString m none attributeName (textOf sdk value)).elim (.error .sdk) .ok)

/-- The coercion of `_apply_single_osm_mutation`. -/
def coerce : Value F → Except Raised (Coerced F)
  | .bool b => .ok (.bool b)
  | .int n => (sdk.ofInt n).elim (.error .overflow) fun x => .ok (.float x)
  | .float x => .ok (.float x)
  | .str s => .ok (.str s)
  | .other => .error .notCoercible

/-- `_apply_single_osm_mutation`. -/
def applySingle (m : M) (name : Name) (value : Value F) : Except Raised M := do
  let parsed ← parseDottedName name
  let target ← (match parsed.objectType, parsed.objectName with
    | some objectType, some objectName =>
      match resolveOsmObject sdk m objectType objectName with
      | some h => .ok (some (objectType, h))
      | none => .error (.unresolved objectType objectName name)
    | _, _ => .ok none)
  let coerced ← coerce sdk value
  setOsmAttribute sdk m target parsed.attributeName coerced

/-! ## Documents -/

/-- What a document holds: its objects with their fields, and what an attribute comes to. -/
structure Document (M H F Field D : Type) where
  handles : M → List H
  field : M → H → Field → D
  fieldOf : Attribute → Field
  value : M → H → Attribute → Option (Coerced F)
  /-- The value of a constant schedule. -/
  constant : M → H → Option (Coerced F)
  /-- The values that an attribute of an object takes. -/
  Takes : M → H → Attribute → Coerced F → Prop

variable {Field D : Type} (doc : Document M H F Field D)

/-- The objects that are there have the same fields in both documents, but for one field. -/
def SameBut (m m' : M) (h : H) (f : Field) : Prop :=
  ∀ h' ∈ doc.handles m, ∀ f', ¬ (h' = h ∧ f' = f) → doc.field m' h' f' = doc.field m h' f'

/-- What is relied on of the bindings. -/
structure Lawful : Prop where
  /-- The methods of the discovery are methods of the model. -/
  getters : ∀ t : ObjectType, sdk.getter t.getterName = some (sdk.objects t)
  /-- Objects of a type have different names. -/
  uniqueNames : ∀ m t, ∀ h ∈ sdk.objects t m, ∀ h' ∈ sdk.objects t m,
    sdk.nameString m h = sdk.nameString m h' → h = h'
  listed : ∀ m t, ∀ h ∈ sdk.objects t m, h ∈ doc.handles m
  /-- A setter sets its attribute. -/
  set_spec : ∀ m h a c, a.isSetpoint = false → doc.Takes m h a c →
    ∃ m', sdk.set a m h c = some m' ∧ doc.value m' h a = some c ∧
      doc.handles m' = doc.handles m ∧ SameBut doc m m' h (doc.fieldOf a)
  /-- A schedule is a new object. -/
  newSchedule_spec : ∀ m, doc.handles (sdk.newSchedule m).1 =
      doc.handles m ++ [(sdk.newSchedule m).2] ∧
    (∀ t, sdk.objects t (sdk.newSchedule m).1 = sdk.objects t m) ∧
    ∀ h ∈ doc.handles m, ∀ f, doc.field (sdk.newSchedule m).1 h f = doc.field m h f
  /-- The schedule takes what a set point takes. -/
  setValue_spec : ∀ m h a c, a.isSetpoint = true → doc.Takes m h a c →
    ∃ m', sdk.setValue (sdk.newSchedule m).1 (sdk.newSchedule m).2 c = some m' ∧
      doc.constant m' (sdk.newSchedule m).2 = some c ∧
      doc.handles m' = doc.handles (sdk.newSchedule m).1 ∧
      (∀ t, sdk.objects t m' = sdk.objects t (sdk.newSchedule m).1) ∧
      ∀ h ∈ doc.handles m, ∀ f, doc.field m' h f = doc.field (sdk.newSchedule m).1 h f
  /-- A zone is given the schedule. -/
  assign_spec : ∀ m a zone schedule, a.isSetpoint = true → zone ∈ sdk.objects a.type m →
    schedule ∈ doc.handles m → ∀ c, doc.constant m schedule = some c →
    ∃ m', sdk.assign a m zone schedule = some m' ∧ doc.value m' zone a = some c ∧
      doc.handles m' = doc.handles m ∧ SameBut doc m m' zone (doc.fieldOf a)

/-- The attribute of the object has the value, and nothing else is changed; a set point brings
its schedule. -/
structure OnlySets (m m' : M) (h : H) (a : Attribute) (c : Coerced F) : Prop where
  value : doc.value m' h a = some c
  others : SameBut doc m m' h (doc.fieldOf a)
  objects : ∃ schedules, doc.handles m' = doc.handles m ++ schedules ∧
    schedules.length = if a.isSetpoint then 1 else 0

/-! ## Keys -/

theorem splitOnce_append {sep : Char} {s t : Name} (h : sep ∉ s) :
    splitOnce sep (s ++ sep :: t) = (s, t) := by
  have hs : ∀ c ∈ s, decide (c ≠ sep) = true := by
    intro c hc
    exact decide_eq_true fun heq => h (heq ▸ hc)
  rw [splitOnce, List.takeWhile_append_of_pos hs, List.dropWhile_append_of_pos hs]
  simp

theorem notMem_typeText (t : ObjectType) : '_' ∉ t.text ∧ '.' ∉ t.text := by
  cases t <;> decide +kernel

theorem notMem_text (a : Attribute) : '.' ∉ a.text ∧ a.text ≠ [] := by
  cases a <;> decide +kernel

/-- An attribute is told by its type and its text. -/
theorem attribute_ext {a a' : Attribute} (htype : a.type.text = a'.type.text)
    (htext : a.text = a'.text) : a = a' := by
  revert htype htext
  cases a <;> cases a' <;> decide +kernel

/-- The type ends at the first underscore, and the attribute begins behind the last dot. -/
theorem keyOf_inj {a a' : Attribute} {n n' : Name} (h : keyOf a n = keyOf a' n') :
    a = a' ∧ n = n' := by
  obtain ⟨htype, hrest⟩ := append_sep_inj (notMem_typeText a.type).1 (notMem_typeText a'.type).1 h
  have hreverse := congrArg List.reverse hrest
  rw [List.reverse_append, List.reverse_append, List.reverse_cons, List.reverse_cons,
    List.append_assoc, List.append_assoc, List.singleton_append, List.singleton_append] at hreverse
  have hdot : ∀ a : Attribute, '.' ∉ a.text.reverse := fun a hmem =>
    (notMem_text a).1 (List.mem_reverse.mp hmem)
  obtain ⟨htext, hname⟩ := append_sep_inj (hdot a) (hdot a') hreverse
  exact ⟨attribute_ext htype (List.reverse_injective htext), List.reverse_injective hname⟩

/-- A key is read back, if the name of the object has no dot. -/
theorem parse_keyOf {a : Attribute} {n : Name} (h : '.' ∉ n) :
    parseDottedName (keyOf a n) = .ok ⟨some a.type.text, some n, a.text⟩ := by
  have hkey : keyOf a n = (a.type.text ++ '_' :: n) ++ '.' :: a.text := by
    rw [keyOf, List.append_assoc, List.cons_append]
  have hspec : '.' ∉ a.type.text ++ '_' :: n := by
    intro hmem
    rcases List.mem_append.mp hmem with htype | hname
    · exact (notMem_typeText a.type).2 htype
    · rcases List.mem_cons.mp hname with heq | hname
      · exact absurd heq (by decide)
      · exact h hname
  have hne : a.type.text ++ '_' :: n ≠ [] :=
    List.append_ne_nil_of_right_ne_nil _ (List.cons_ne_nil _ _)
  have hdot : '.' ∈ keyOf a n := hkey ▸ List.mem_append_right _ List.mem_cons_self
  rw [parseDottedName, if_neg (not_not.mpr hdot), hkey, splitOnce_append hspec]
  dsimp only
  rw [if_neg fun hor => hor.elim hne (notMem_text a).2,
    if_neg (not_not.mpr (List.mem_append_right _ List.mem_cons_self)),
    splitOnce_append (notMem_typeText a.type).1]

/-! ## What is discovered -/

theorem mem_keys_attributes {m : M} {h : H} {k : Name} (attributes : List Attribute)
    (result : Dict Name (MappedAttribute F)) :
    k ∈ (attributes.foldl (fun result a =>
      if sdk.isInitialized a m h then result.set (keyOf a (sdk.nameString m h)) (mapped sdk m a h)
      else result) result).keys ↔
      k ∈ result.keys ∨ ∃ a ∈ attributes, sdk.isInitialized a m h = true ∧
        k = keyOf a (sdk.nameString m h) := by
  induction attributes generalizing result with
  | nil => simp
  | cons a attributes ih =>
    rw [List.foldl_cons, ih]
    simp only [List.mem_cons, or_and_right, exists_or, exists_eq_left]
    by_cases hinit : sdk.isInitialized a m h = true
    · rw [if_pos hinit, Dict.mem_keys_set, or_assoc]
      refine or_congr_right (or_congr_left ?_)
      exact ⟨fun heq => ⟨hinit, heq.symm⟩, fun hand => hand.2.symm⟩
    · rw [if_neg hinit]
      simp only [hinit, false_and, false_or, Bool.false_eq_true]

theorem mem_keys_discover {t : ObjectType} {attributes : List Attribute} {m : M} {k : Name}
    (result : Dict Name (MappedAttribute F)) :
    k ∈ (discover sdk t attributes m result).keys ↔
      k ∈ result.keys ∨ ∃ a ∈ attributes, ∃ h ∈ sdk.objects t m, sdk.nameString m h ≠ [] ∧
        sdk.isInitialized a m h = true ∧ k = keyOf a (sdk.nameString m h) := by
  rw [discover]
  induction sdk.objects t m generalizing result with
  | nil => simp
  | cons h objects ih =>
    rw [List.foldl_cons, ih]
    by_cases hname : sdk.nameString m h = []
    · rw [if_pos hname]
      simp [hname]
    · rw [if_neg hname, mem_keys_attributes, or_assoc]
      refine or_congr_right ?_
      simp only [List.mem_cons, or_and_right, exists_or, exists_eq_left, ne_eq, hname,
        not_false_eq_true, true_and, and_or_left]

theorem mem_keys_parseOsm {m : M} {k : Name} :
    k ∈ (parseOsm sdk m).keys ↔ ∃ a h, Discovered sdk m a h ∧ k = keyOf a (sdk.nameString m h) := by
  rw [parseOsm, discoverPeople, discoverLights, discoverConstructions, discoverThermalZones,
    discoverSpaceTypes]
  simp only [mem_keys_discover, List.mem_cons, List.not_mem_nil, or_false, or_and_right,
    exists_or, exists_eq_left]
  constructor
  · intro hk
    have hfound : ∀ a : Attribute, (∃ h ∈ sdk.objects a.type m, sdk.nameString m h ≠ [] ∧
        sdk.isInitialized a m h = true ∧ k = keyOf a (sdk.nameString m h)) →
        ∃ a h, Discovered sdk m a h ∧ k = keyOf a (sdk.nameString m h) := by
      intro a ha
      obtain ⟨h, hmem, hname, hinit, heq⟩ := ha
      exact ⟨a, h, ⟨hmem, hname, hinit⟩, heq⟩
    rcases hk with ((((hempty | hk) | hk | hk) | hk) | hk) | hk
    · cases hempty
    · exact hfound .lightingPowerDensity hk
    · exact hfound .coolingSetpoint hk
    · exact hfound .heatingSetpoint hk
    · exact hfound .uValue hk
    · exact hfound .lightingLevel hk
    · exact hfound .peoplePerFloorArea hk
  · intro hk
    obtain ⟨a, h, ⟨hmem, hname, hinit⟩, rfl⟩ := hk
    cases a with
    | lightingPowerDensity => exact .inl (.inl (.inl (.inl (.inr ⟨h, hmem, hname, hinit, rfl⟩))))
    | coolingSetpoint => exact .inl (.inl (.inl (.inr (.inl ⟨h, hmem, hname, hinit, rfl⟩))))
    | heatingSetpoint => exact .inl (.inl (.inl (.inr (.inr ⟨h, hmem, hname, hinit, rfl⟩))))
    | uValue => exact .inl (.inl (.inr ⟨h, hmem, hname, hinit, rfl⟩))
    | lightingLevel => exact .inl (.inr ⟨h, hmem, hname, hinit, rfl⟩)
    | peoplePerFloorArea => exact .inr ⟨h, hmem, hname, hinit, rfl⟩

/-! ## What is applied -/

theorem setterMap_eq (a : Attribute) : setterMap a.type.text a.text = some a := by
  cases a <;> decide +kernel

theorem getterName_eq {t : ObjectType} (hlights : t ≠ .lights) (hpeople : t ≠ .people) :
    "get".toList ++ t.text ++ "s".toList = t.getterName := by
  cases t with
  | spaceType => decide +kernel
  | thermalZone => decide +kernel
  | construction => decide +kernel
  | lights => exact absurd rfl hlights
  | people => exact absurd rfl hpeople

variable {sdk doc}

theorem resolve_eq (laws : Lawful sdk doc) {m : M} {a : Attribute} {h : H}
    (hslot : Discovered sdk m a h) (hlights : a.type ≠ .lights) (hpeople : a.type ≠ .people) :
    resolveOsmObject sdk m a.type.text (sdk.nameString m h) = some h := by
  rw [resolveOsmObject, getterName_eq hlights hpeople, laws.getters]
  dsimp only
  cases hfind : (sdk.objects a.type m).find? fun h' =>
      decide (sdk.nameString m h' = sdk.nameString m h) with
  | none =>
    have hnone := List.find?_eq_none.mp hfind h hslot.1
    exact absurd (decide_eq_true rfl) hnone
  | some h' =>
    have hname : sdk.nameString m h' = sdk.nameString m h := by
      simpa using List.find?_some hfind
    rw [laws.uniqueNames m a.type h' (List.mem_of_find?_eq_some hfind) h hslot.1 hname]

/-- A setter that takes a value sets the attribute, and nothing else. -/
theorem setter_spec (laws : Lawful sdk doc) {m : M} {a : Attribute} {h : H}
    (hmem : h ∈ sdk.objects a.type m) {c : Coerced F} (htakes : doc.Takes m h a c) :
    ∃ m', setter sdk a m h c = some m' ∧ OnlySets doc m m' h a c := by
  unfold setter
  cases hset : a.isSetpoint with
  | false =>
    obtain ⟨m', hm', hvalue, hhandles, hothers⟩ := laws.set_spec m h a c hset htakes
    refine ⟨m', hm', hvalue, hothers, [], ?_, ?_⟩
    · rw [hhandles, List.append_nil]
    · rw [hset]
      rfl
  | true =>
    obtain ⟨hhandles₁, hobjects₁, hfields₁⟩ := laws.newSchedule_spec m
    obtain ⟨m₂, hm₂, hconstant, hhandles₂, hobjects₂, hfields₂⟩ :=
      laws.setValue_spec m h a c hset htakes
    have hzone : h ∈ sdk.objects a.type m₂ := by
      rw [hobjects₂, hobjects₁]
      exact hmem
    have hschedule : (sdk.newSchedule m).2 ∈ doc.handles m₂ := by
      rw [hhandles₂, hhandles₁]
      exact List.mem_append_right _ List.mem_cons_self
    obtain ⟨m₃, hm₃, hvalue, hhandles₃, hothers⟩ :=
      laws.assign_spec m₂ a h _ hset hzone hschedule c hconstant
    refine ⟨m₃, ?_, hvalue, ?_, [(sdk.newSchedule m).2], ?_, ?_⟩
    · show (sdk.setValue (sdk.newSchedule m).1 (sdk.newSchedule m).2 c).bind _ = some m₃
      rw [hm₂]
      exact hm₃
    · -- the objects that were there are there after each of the three calls
      intro h' hh' f' hne
      have hh₂ : h' ∈ doc.handles m₂ := by
        rw [hhandles₂, hhandles₁]
        exact List.mem_append_left _ hh'
      rw [hothers h' hh₂ f' hne, hfields₂ h' hh' f', hfields₁ h' hh' f']
    · rw [hhandles₃, hhandles₂, hhandles₁]
    · rw [hset]
      rfl

theorem apply_eq (laws : Lawful sdk doc) {m : M} {a : Attribute} {h : H}
    (hslot : Discovered sdk m a h) (hdot : '.' ∉ sdk.nameString m h)
    (hlights : a.type ≠ .lights) (hpeople : a.type ≠ .people) {v : Value F} {c : Coerced F}
    (hv : coerce sdk v = .ok c) (htakes : doc.Takes m h a c) :
    ∃ m', applySingle sdk m (keyOf a (sdk.nameString m h)) v = .ok m' ∧
      OnlySets doc m m' h a c := by
  obtain ⟨m', hm', honly⟩ := setter_spec laws hslot.1 htakes
  refine ⟨m', ?_, honly⟩
  rw [applySingle, parse_keyOf hdot]
  show (match resolveOsmObject sdk m a.type.text (sdk.nameString m h) with
    | some h' => (Except.ok (some (a.type.text, h')) : Except Raised (Option (Name × H)))
    | none => .error (.unresolved a.type.text (sdk.nameString m h)
        (keyOf a (sdk.nameString m h)))) >>= (fun target => coerce sdk v >>= fun coerced =>
          setOsmAttribute sdk m target a.text coerced) = .ok m'
  rw [resolve_eq laws hslot hlights hpeople, hv]
  show setOsmAttribute sdk m (some (a.type.text, h)) a.text c = .ok m'
  rw [setOsmAttribute, setterMap_eq]
  dsimp only
  rw [hm']

theorem roundTrip (laws : Lawful sdk doc) (m : M) {a : Attribute} {h : H}
    (hslot : Discovered sdk m a h) :
    (∀ a' h', Discovered sdk m a' h' →
      keyOf a' (sdk.nameString m h') = keyOf a (sdk.nameString m h) → a' = a ∧ h' = h) ∧
    ('.' ∉ sdk.nameString m h →
      parseDottedName (keyOf a (sdk.nameString m h)) =
        .ok ⟨some a.type.text, some (sdk.nameString m h), a.text⟩ ∧
      (a.type ≠ .lights → a.type ≠ .people → ∀ v c, coerce sdk v = .ok c → doc.Takes m h a c →
        ∃ m', applySingle sdk m (keyOf a (sdk.nameString m h)) v = .ok m' ∧
          OnlySets doc m m' h a c)) := by
  refine ⟨?_, fun hdot => ⟨parse_keyOf hdot, ?_⟩⟩
  · intro a' h' hslot' heq
    obtain ⟨rfl, hname⟩ := keyOf_inj heq
    exact ⟨rfl, laws.uniqueNames m a'.type h' hslot'.1 h hslot.1 hname⟩
  · intro hlights hpeople v c hv htakes
    exact apply_eq laws hslot hdot hlights hpeople hv htakes

/-! ## A house with one zone -/

inductive Handle where
  | zone
  | schedule (n : Nat)
deriving DecidableEq

/-- The schedules of the two set points by their number, and the values of all schedules. -/
structure House where
  cooling : Nat
  heating : Nat
  schedules : List Int
deriving DecidableEq

def houseObjects : ObjectType → House → List Handle
  | .thermalZone => fun _ => [.zone]
  | _ => fun _ => []

def houseBindings : Bindings House Handle Int where
  ofInt n := some n
  str value := value.elim (fun n => (toString n).toList) fun b => (toString b).toList
  getter name :=
    ([.spaceType, .thermalZone, .construction, .lights, .people].find? fun t : ObjectType =>
      decide (t.getterName = name)).map houseObjects
  objects := houseObjects
  nameString _ h :=
    match h with
    | .zone => "Core".toList
    | .schedule n => (toString n).toList
  isInitialized a _ h := a.isSetpoint && decide (h = .zone)
  get _ _ _ := 0
  set _ _ _ _ := none
  newSchedule m := ({ m with schedules := m.schedules ++ [0] }, .schedule m.schedules.length)
  setValue m h c :=
    match h, c with
    | .schedule n, .float x => some { m with schedules := m.schedules.set n x }
    | _, _ => none
  assign a m z s :=
    match a, z, s with
    | .coolingSetpoint, .zone, .schedule n => some { m with cooling := n }
    | .heatingSetpoint, .zone, .schedule n => some { m with heating := n }
    | _, _, _ => none
  setString _ _ _ _ := none

/-- The number of the schedule of a set point. -/
def House.scheduleOf (m : House) : Attribute → Option Nat
  | .coolingSetpoint => some m.cooling
  | .heatingSetpoint => some m.heating
  | _ => none

def houseDocument : Document House Handle Int Attribute (Option Int) where
  handles m := .zone :: (List.range m.schedules.length).map .schedule
  field m h f :=
    match h with
    | .zone => (m.scheduleOf f).map Int.ofNat
    | .schedule n => m.schedules[n]?
  fieldOf a := a
  value m h a :=
    match h with
    | .zone => ((m.scheduleOf a).bind fun n => m.schedules[n]?).map .float
    | .schedule _ => none
  constant m h :=
    match h with
    | .zone => none
    | .schedule n => m.schedules[n]?.map .float
  Takes _ _ a c := a.isSetpoint = true ∧ ∃ x, c = .float x

theorem house_lawful : Lawful houseBindings houseDocument where
  getters t := by cases t <;> rfl
  uniqueNames := by
    intro m t h hh h' hh' _
    have hzone : ∀ h ∈ houseObjects t m, h = .zone := by
      intro h hh
      cases t with
      | thermalZone => exact List.mem_singleton.mp hh
      | spaceType => cases hh
      | construction => cases hh
      | lights => cases hh
      | people => cases hh
    rw [hzone h hh, hzone h' hh']
  listed := by
    intro m t h hh
    cases t with
    | thermalZone => exact List.mem_cons.mpr (.inl (List.mem_singleton.mp hh))
    | spaceType => cases hh
    | construction => cases hh
    | lights => cases hh
    | people => cases hh
  set_spec := by
    intro m h a c hset htakes
    rw [htakes.1] at hset
    cases hset
  newSchedule_spec := by
    intro m
    refine ⟨?_, fun t => by cases t <;> rfl, ?_⟩
    · simp [houseDocument, houseBindings, List.range_succ]
    · intro h hh f
      cases h with
      | zone => rfl
      | schedule n =>
        have hn : n < m.schedules.length := by simpa [houseDocument] using hh
        exact List.getElem?_append_left hn
  setValue_spec := by
    intro m h a c _ htakes
    obtain ⟨-, x, rfl⟩ := htakes
    refine ⟨_, rfl, ?_, ?_, fun t => by cases t <;> rfl, ?_⟩
    · simp [houseDocument, houseBindings]
    · simp [houseDocument, houseBindings]
    · intro h hh f
      cases h with
      | zone => cases f <;> rfl
      | schedule n =>
        have hn : n < m.schedules.length := by simpa [houseDocument] using hh
        exact List.getElem?_set_ne (Nat.ne_of_gt hn)
  assign_spec := by
    intro m a z s hset hzone _ c hc
    cases s with
    | zone => cases hc
    | schedule n =>
      cases a with
      | lightingPowerDensity => cases hset
      | uValue => cases hset
      | lightingLevel => cases hset
      | peoplePerFloorArea => cases hset
      | coolingSetpoint =>
        cases List.mem_singleton.mp hzone
        refine ⟨_, rfl, hc, rfl, ?_⟩
        intro h _ f hne
        cases h with
        | schedule k => rfl
        | zone =>
          cases f with
          | coolingSetpoint => exact absurd ⟨rfl, rfl⟩ hne
          | _ => rfl
      | heatingSetpoint =>
        cases List.mem_singleton.mp hzone
        refine ⟨_, rfl, hc, rfl, ?_⟩
        intro h _ f hne
        cases h with
        | schedule k => rfl
        | zone =>
          cases f with
          | heatingSetpoint => exact absurd ⟨rfl, rfl⟩ hne
          | _ => rfl

/-- The set points of both kinds are at 20. -/
def house : House := ⟨0, 0, [20]⟩

theorem cooling_discovered : Discovered houseBindings house .coolingSetpoint .zone := by
  refine ⟨List.mem_cons_self, ?_, rfl⟩
  decide +kernel

theorem cooling_round_trips :
    parseDottedName (keyOf .coolingSetpoint "Core".toList) =
        .ok ⟨some "ThermalZone".toList, some "Core".toList, "cooling_setpoint".toList⟩ ∧
      ∃ m', applySingle houseBindings house (keyOf .coolingSetpoint "Core".toList) (.int 24) =
          .ok m' ∧
        OnlySets houseDocument house m' .zone .coolingSetpoint (.float 24) := by
  obtain ⟨hparse, happly⟩ :=
    (roundTrip house_lawful house cooling_discovered).2 (by decide +kernel)
  exact ⟨hparse, happly (by decide) (by decide) (.int 24) (.float 24) rfl ⟨rfl, 24, rfl⟩⟩

/-- A set point does not come without a new object. -/
theorem setpoint_brings_schedule :
    Discovered houseBindings house .coolingSetpoint .zone ∧
      ∃ m', applySingle houseBindings house
          (keyOf .coolingSetpoint (houseBindings.nameString house .zone)) (.float 24) = .ok m' ∧
        houseDocument.handles m' ≠ houseDocument.handles house := by
  refine ⟨cooling_discovered, ⟨1, 0, [20, 24]⟩, ?_, by decide +kernel⟩
  decide +kernel

end OSimFlow.Apply.DottedNames
