import OSimFlow.Osa.References
import OSimFlow.Osa.Weights

/-!
# What survives an export and an import

A variable survives if the importer reads from the exporter's entry what the exporter read from
the variable. Numbers that are zero do not where the importer takes a zero for absent: the mode
of a triangular distribution, and `sigma`.

> `roundTrip_preserves_iff`: a study comes back as it was exactly if its variables survive, its
> sample count is positive, its algorithm is registered, and it has variables or steps.
>
> `roundTrip_zero_mode`: a triangular variable that loses its mode.

The condition is about the study and the names of its template's steps.
-/

namespace OSimFlow.Osa

open OSimFlow.Lib OSimFlow.Algorithms.Sampling
open OSimFlow.Apply (truthy dotted)

variable {t : Texts}

/-! ## What is asked of a variable -/

/-- The variable is of one of the kinds that are converted, and has what the conversion needs. -/
def KindSurvives (t : Texts) (v : Variable) : Prop :=
  match v.kind with
  | .uniform => v.min ≠ none ∧ v.max ≠ none ∧ v.mapping.nonemptyDict = .null
  | .normal | .lognormal =>
    v.mean ≠ none ∧ v.sigma ≠ none ∧ v.sigma ≠ some 0 ∧ v.mapping.nonemptyDict = .null
  | .triangular =>
    v.min ≠ none ∧ v.max ≠ none ∧ v.mode ≠ some 0 ∧ v.mapping.nonemptyDict = .null
  | .discrete | .categorical =>
    v.valueList ≠ [] ∧ ValuesSurvive t v ∧ ∀ pmf, v.pmf = some pmf →
      PmfSurvives t v.valueList pmf
  | _ => False

/-- A static variable keeps its value. A pivot is categorical and has no weights. Another
variable is not typed as a pivot. -/
def DistributionSurvives (t : Texts) (v : Variable) : Prop :=
  if v.kind = .static then
    v.pivot = false ∧ v.value.json t = v.value ∧ v.mapping.nonemptyDict = .null
  else if v.pivot then
    v.kind = .categorical ∧ ValuesSurvive t v ∧ ∀ k, v.share k = evenShare v.valueList k
  else v.variableType ≠ some pivotType ∧ KindSurvives t v

structure Survives (t : Texts) (steps : List OsaStep) (v : Variable) : Prop where
  name : v.name ≠ []
  reference : ReferenceSurvives t steps v
  distribution : DistributionSurvives t v

/-! ## One variable -/

/-- The fields of `SameVariable` that a distribution decides. -/
structure SameEntry (v entry : Variable) : Prop where
  kind : entry.kind = v.kind
  parameters : entry.parameters = v.parameters
  value : v.kind = .static → entry.value = v.value
  values : v.Listed → entry.valueList = v.valueList
  weights : v.Listed → ∀ k, entry.share k = v.share k
  mapping : entry.mapping.nonemptyDict = v.mapping.nonemptyDict
  pivot : entry.pivot = v.pivot

theorem sameVariable_attach {v entry : Variable} (hname : entry.name = v.name) (o : OsaVariable)
    (variableType : Option (List Char)) :
    SameVariable v (Importer.attachCommonFields entry o variableType) ↔
      SameEntry v entry ∧ Importer.resolveMeasureArgument o.measure = v.measureArgument := by
  constructor
  · intro h
    exact ⟨⟨h.kind, h.parameters, h.value, h.values, h.weights, h.mapping, h.pivot⟩,
      h.measureArgument⟩
  · rintro ⟨h, hreference⟩
    exact ⟨hname, h.kind, h.parameters, h.value, h.values, h.weights, h.mapping, h.pivot,
      hreference⟩

/-- The variable is exported, and imported as `v'`. -/
def Returns (t : Texts) (steps : List OsaStep) (v v' : Variable) : Prop :=
  ∃ o, Exporter.convertVariable t v = .ok (some o) ∧
    Importer.convertVariable t (Importer.normalizeVariableMeasure t steps (o.json t)) =
      .ok (some v')

/-- Of an exported variable only the measure is rewritten. -/
theorem normalize_exported (steps : List OsaStep) {o : OsaVariable} {name : List Char}
    {measureArgument : Option (List Char)} (hname : o.name = some name)
    (hmeasure : o.measure = Exporter.measureOf measureArgument) :
    ∃ m, Importer.normalizeVariableMeasure t steps o = { o with measure := m } ∧
      Importer.resolveMeasureArgument m = referenceBack t steps name measureArgument := by
  obtain ⟨name', variableType, defaultValue, distribution, displayName, measure⟩ := o
  obtain rfl : name' = some name := hname
  obtain rfl : measure = Exporter.measureOf measureArgument := hmeasure
  unfold referenceBack Importer.normalizeVariableMeasure
  cases Exporter.measureOf measureArgument with
  | some m =>
    dsimp only
    cases (m.name.bind (Importer.stepAlias t steps)).or
      (m.displayName.bind (Importer.stepAlias t steps)) <;> exact ⟨_, rfl, rfl⟩
  | none =>
    dsimp only [Option.bind_some]
    cases splitDot name with
    | none => exact ⟨_, rfl, rfl⟩
    | some parts =>
      dsimp only
      cases Importer.stepAlias t steps parts.1 <;> exact ⟨_, rfl, rfl⟩

theorem truthy_name {name : List Char} (h : name ≠ []) (displayName : Option (List Char)) :
    (truthy (some name)).or displayName = some name := by
  rw [truthy_some h]
  rfl

/-- A named variable is converted by its distribution. -/
theorem import_named {o : OsaVariable} {name : List Char} (hname : o.name = some name)
    (hne : name ≠ []) : Importer.convertVariable t o =
      match o.distribution with
      | none => .ok (some (Importer.convertStaticVariable name o))
      | some d =>
        if o.variableType = some pivotType ∨ d.type = .pivot then
          .ok (some (Importer.convertPivotVariable name o d))
        else
          match Importer.mapDistribution t d with
          | .error .osaImportError => .ok none
          | .error e => .error e
          | .ok entry =>
            .ok (some (Importer.attachCommonFields { entry with name := name } o
              o.variableType)) := by
  unfold Importer.convertVariable
  rewrite [hname, truthy_name hne]
  rfl

/-- What returns is a variable whose entry and reference are the same. -/
theorem returns_of_entry {steps : List OsaStep} {v : Variable} {o : OsaVariable}
    (hexport : Exporter.convertVariable t v = .ok (some o)) {entry : Variable}
    {o' : OsaVariable} {variableType : Option (List Char)}
    (himport : Importer.convertVariable t (Importer.normalizeVariableMeasure t steps (o.json t)) =
      .ok (some (Importer.attachCommonFields entry o' variableType)))
    (hname : entry.name = v.name)
    (hreference : Importer.resolveMeasureArgument o'.measure =
      referenceBack t steps v.name v.measureArgument) :
    (∃ v', Returns t steps v v' ∧ SameVariable v v') ↔
      ReferenceSurvives t steps v ∧ SameEntry v entry := by
  have hreturns (v' : Variable) :
      Returns t steps v v' ↔ Importer.attachCommonFields entry o' variableType = v' := by
    unfold Returns
    rw [hexport]
    constructor
    · rintro ⟨_, ho, hv'⟩
      obtain rfl := Option.some.inj (Except.ok.inj ho)
      exact Option.some.inj (Except.ok.inj (himport.symm.trans hv'))
    · rintro rfl
      exact ⟨o, rfl, himport⟩
  simp only [hreturns, exists_eq_left']
  rw [sameVariable_attach hname, hreference, referenceBack_eq_iff, and_comm]

theorem not_listed {v : Variable} {k : Distribution} (hkind : v.kind = k) (hd : k ≠ .discrete)
    (hc : k ≠ .categorical) : ¬ v.Listed := by
  rintro (h | h)
  · exact hd (hkind.symm.trans h)
  · exact hc (hkind.symm.trans h)

theorem survives_static {steps : List OsaStep} {v : Variable} (hname : v.name ≠ [])
    (hkind : v.kind = .static) :
    (∃ v', Returns t steps v v' ∧ SameVariable v v') ↔
      ReferenceSurvives t steps v ∧ DistributionSurvives t v := by
  have hexport : ∃ variableType displayName, Exporter.convertVariable t v =
      .ok (some ⟨some v.name, variableType, v.value, none, displayName,
        Exporter.measureOf v.measureArgument⟩) := by
    unfold Exporter.convertVariable
    rw [if_neg hname]
    dsimp only
    rw [if_pos hkind]
    exact ⟨_, _, rfl⟩
  obtain ⟨variableType, displayName, hexport⟩ := hexport
  obtain ⟨m, hnormal, hreference⟩ := normalize_exported (t := t) steps
    (o := (OsaVariable.json t ⟨some v.name, variableType, v.value, none, displayName,
      Exporter.measureOf v.measureArgument⟩)) rfl rfl
  have himport : Importer.convertVariable t (Importer.normalizeVariableMeasure t steps
      (OsaVariable.json t ⟨some v.name, variableType, v.value, none, displayName,
        Exporter.measureOf v.measureArgument⟩)) =
      .ok (some (Importer.attachCommonFields
        { name := v.name, distribution := some .static, value := v.value.json t }
        ⟨some v.name, variableType, v.value.json t, none, displayName, m⟩ variableType)) := by
    rw [hnormal, import_named rfl hname]
    rfl
  refine (returns_of_entry hexport himport rfl hreference).trans (and_congr_right fun _ => ?_)
  unfold DistributionSurvives
  rw [if_pos hkind]
  have hlisted : ¬ v.Listed := not_listed hkind nofun nofun
  constructor
  · intro h
    exact ⟨h.pivot.symm, h.value hkind, h.mapping.symm⟩
  · rintro ⟨hpivot, hvalue, hmapping⟩
    refine ⟨hkind.symm, ?_, fun _ => hvalue, fun h => absurd h hlisted, fun h => absurd h hlisted,
      hmapping.symm, hpivot.symm⟩
    unfold Variable.parameters
    rw [hkind]
    rfl

theorem survives_pivot {steps : List OsaStep} {v : Variable} (hname : v.name ≠ [])
    (hkind : v.kind ≠ .static) (hpivot : v.pivot = true) :
    (∃ v', Returns t steps v v' ∧ SameVariable v v') ↔
      ReferenceSurvives t steps v ∧ DistributionSurvives t v := by
  have hexport : ∃ displayName, Exporter.convertVariable t v =
      .ok (some ⟨some v.name, some pivotType, .null, some (Exporter.convertPivot v), displayName,
        Exporter.measureOf v.measureArgument⟩) := by
    unfold Exporter.convertVariable
    rw [if_neg hname]
    dsimp only
    rw [if_neg hkind, if_pos hpivot, if_pos hpivot]
    exact ⟨_, rfl⟩
  obtain ⟨displayName, hexport⟩ := hexport
  obtain ⟨m, hnormal, hreference⟩ := normalize_exported (t := t) steps
    (o := (OsaVariable.json t ⟨some v.name, some pivotType, .null,
      some (Exporter.convertPivot v), displayName, Exporter.measureOf v.measureArgument⟩)) rfl rfl
  have hvalues : Importer.orList (some (Importer.orList
      (some (Value.jsonItems t v.valueList)) none)) none = Value.jsonItems t v.valueList := by
    cases Value.jsonItems t v.valueList <;> rfl
  let entry : Variable :=
    { name := v.name, distribution := some .categorical,
      values := some (Value.jsonItems t v.valueList),
      mapping := (v.mapping.nonemptyDict.json t).nonemptyDict, pivot := true,
      variableType := some pivotType }
  have himport : Importer.convertVariable t (Importer.normalizeVariableMeasure t steps
      (OsaVariable.json t ⟨some v.name, some pivotType, .null, some (Exporter.convertPivot v),
        displayName, Exporter.measureOf v.measureArgument⟩)) =
      .ok (some (Importer.attachCommonFields entry ⟨some v.name, some pivotType, .null,
        some ((Exporter.convertPivot v).json t), displayName, m⟩ (some pivotType))) := by
    rw [hnormal, import_named rfl hname]
    show (if _ ∨ _ then Except.ok (some (Importer.convertPivotVariable _ _ _)) else _) = _
    rw [if_pos (.inl rfl)]
    unfold Importer.convertPivotVariable
    show Except.ok (some (Importer.attachCommonFields
      { entry with values := some (Importer.orList (some (Importer.orList
        (some (Value.jsonItems t v.valueList)) none)) none) } _ _)) = _
    rw [hvalues]
    rfl
  refine (returns_of_entry hexport himport rfl hreference).trans (and_congr_right fun _ => ?_)
  unfold DistributionSurvives
  rw [if_neg hkind, if_pos hpivot]
  constructor
  · intro h
    have hcategorical : v.kind = .categorical := h.kind.symm
    have hmapping : (v.mapping.nonemptyDict.json t).nonemptyDict.nonemptyDict =
        v.mapping.nonemptyDict := h.mapping
    have hweights := h.weights (.inr hcategorical)
    have hjson : Value.jsonItems t v.valueList = v.valueList := h.values (.inr hcategorical)
    rw [nonemptyDict_idem, nonemptyDict_json] at hmapping
    refine ⟨hcategorical, ⟨hjson, hmapping⟩, fun k => ?_⟩
    rw [← hweights k]
    show evenShare (Value.jsonItems t v.valueList) k = _
    rw [hjson]
  · rintro ⟨hcategorical, ⟨hjson, hmapping⟩, hweights⟩
    refine ⟨hcategorical.symm, ?_, fun h => absurd h hkind, fun _ => hjson, fun _ k => ?_, ?_,
      hpivot.symm⟩
    · unfold Variable.parameters
      rw [hcategorical]
      rfl
    · rw [hweights]
      show evenShare (Value.jsonItems t v.valueList) k = _
      rw [hjson]
    · show (v.mapping.nonemptyDict.json t).nonemptyDict.nonemptyDict = _
      rw [nonemptyDict_idem, nonemptyDict_json, hmapping]

/-! ## Distributions that are neither static nor a pivot -/

/-- The distribution comes back as an entry that is the variable's. -/
def DistributionBack (t : Texts) (v : Variable) : Prop :=
  ∃ d entry, Exporter.convertDistribution t v v.kind = .ok d ∧
    Importer.mapDistribution t (d.json t) = .ok entry ∧ SameEntry v entry

theorem sameEntry_unlisted {v entry : Variable} (hlisted : ¬ v.Listed) (hstatic : v.kind ≠ .static)
    (hkind : entry.kind = v.kind) (hparameters : entry.parameters = v.parameters)
    (hentry : entry.mapping = .null) (hmapping : v.mapping.nonemptyDict = .null)
    (hpivot : entry.pivot = v.pivot) : SameEntry v entry := by
  refine ⟨hkind, hparameters, fun h => absurd h hstatic, fun h => absurd h hlisted,
    fun h => absurd h hlisted, ?_, hpivot⟩
  rw [hentry, hmapping]
  rfl

theorem uniform_back {v : Variable} (hpivot : v.pivot = false) (hkind : v.kind = .uniform) :
    DistributionBack t v ↔ v.min ≠ none ∧ v.max ≠ none ∧ v.mapping.nonemptyDict = .null := by
  unfold DistributionBack
  rw [hkind]
  constructor
  · rintro ⟨d, entry, hd, hentry, hsame⟩
    obtain rfl := Except.ok.inj hd
    have hentry : Importer.mapUniform
        { type := .uniform, minimum := v.min, maximum := v.max } = .ok entry := hentry
    unfold Importer.mapUniform at hentry
    cases hmin : v.min with
    | none =>
      rw [hmin] at hentry
      exact nomatch hentry
    | some a =>
      cases hmax : v.max with
      | none =>
        rw [hmin, hmax] at hentry
        exact nomatch hentry
      | some b =>
        rw [hmin, hmax] at hentry
        obtain rfl := Except.ok.inj hentry
        exact ⟨Option.some_ne_none a, Option.some_ne_none b, hsame.mapping.symm⟩
  · rintro ⟨hmin, hmax, hmapping⟩
    obtain ⟨a, ha⟩ := Option.ne_none_iff_exists'.mp hmin
    obtain ⟨b, hb⟩ := Option.ne_none_iff_exists'.mp hmax
    refine ⟨{ type := .uniform, minimum := v.min, maximum := v.max },
      { name := [], distribution := some .uniform, min := some a, max := some b }, rfl, ?_, ?_⟩
    · rw [ha, hb]
      rfl
    · refine sameEntry_unlisted (not_listed hkind nofun nofun) (fun h => nomatch hkind.symm.trans h)
        hkind.symm ?_ rfl hmapping hpivot.symm
      unfold Variable.parameters
      rw [hkind, ha, hb]
      rfl

theorem triangular_back {v : Variable} (hpivot : v.pivot = false) (hkind : v.kind = .triangular) :
    DistributionBack t v ↔
      v.min ≠ none ∧ v.max ≠ none ∧ v.mode ≠ some 0 ∧ v.mapping.nonemptyDict = .null := by
  have hmode : Importer.orNumber v.mode none = v.mode ↔ v.mode ≠ some 0 := by
    cases v.mode with
    | none => exact iff_of_true rfl nofun
    | some c =>
      unfold Importer.orNumber
      by_cases hc : c = 0
      · simp [hc]
      · simp [hc]
  have hparameters : v.parameters = [v.min, v.max, v.mode] := by
    unfold Variable.parameters
    rw [hkind]
  unfold DistributionBack
  rw [hkind]
  constructor
  · rintro ⟨d, entry, hd, hentry, hsame⟩
    obtain rfl := Except.ok.inj hd
    have hentry : Importer.mapTriangular
        { type := .triangular, minimum := v.min, maximum := v.max, mode := v.mode } =
          .ok entry := hentry
    unfold Importer.mapTriangular at hentry
    cases hmin : v.min with
    | none =>
      rw [hmin] at hentry
      exact nomatch hentry
    | some a =>
      cases hmax : v.max with
      | none =>
        rw [hmin, hmax] at hentry
        exact nomatch hentry
      | some b =>
        rw [hmin, hmax] at hentry
        obtain rfl := Except.ok.inj hentry
        have hsameMode : [some a, some b, Importer.orNumber v.mode none] = v.parameters :=
          hsame.parameters
        rw [hparameters] at hsameMode
        simp only [List.cons.injEq, and_true] at hsameMode
        exact ⟨Option.some_ne_none a, Option.some_ne_none b, hmode.mp hsameMode.2.2,
          hsame.mapping.symm⟩
  · rintro ⟨hmin, hmax, hzero, hmapping⟩
    obtain ⟨a, ha⟩ := Option.ne_none_iff_exists'.mp hmin
    obtain ⟨b, hb⟩ := Option.ne_none_iff_exists'.mp hmax
    refine ⟨{ type := .triangular, minimum := v.min, maximum := v.max, mode := v.mode },
      { name := [], distribution := some .triangular, min := some a, max := some b,
        mode := Importer.orNumber v.mode none }, rfl, ?_, ?_⟩
    · rw [ha, hb]
      rfl
    · refine sameEntry_unlisted (not_listed hkind nofun nofun) (fun h => nomatch hkind.symm.trans h)
        hkind.symm ?_ rfl hmapping hpivot.symm
      rw [hparameters, ha, hb]
      show [some a, some b, Importer.orNumber v.mode none] = _
      rw [hmode.mpr hzero]

/-- What `normal` and `lognormal` share. -/
theorem mapNormal_back {v : Variable} (hpivot : v.pivot = false)
    (hkind : v.kind = .normal ∨ v.kind = .lognormal) (type : OsaType) :
    (∃ entry, Importer.mapNormal v.kind { type := type, mean := v.mean, stddev := v.sigma } =
        .ok entry ∧ SameEntry v entry) ↔
      v.mean ≠ none ∧ v.sigma ≠ none ∧ v.sigma ≠ some 0 ∧ v.mapping.nonemptyDict = .null := by
  have hparameters : v.parameters = [v.mean, v.sigma] := by
    unfold Variable.parameters
    rcases hkind with h | h <;> rw [h]
  constructor
  · rintro ⟨entry, hentry, hsame⟩
    unfold Importer.mapNormal at hentry
    dsimp only at hentry
    cases hmean : v.mean with
    | none =>
      rw [hmean] at hentry
      exact nomatch hentry
    | some a =>
      rw [hmean] at hentry
      cases hsigma : v.sigma with
      | none =>
        rw [hsigma] at hentry
        exact nomatch hentry
      | some b =>
        -- a zero `stddev` counts as none
        have hb : b ≠ 0 := by
          rintro rfl
          rw [hsigma] at hentry
          exact nomatch hentry
        rw [hsigma, show Importer.orNumber (some b) none = some b from if_neg hb] at hentry
        obtain rfl := Except.ok.inj hentry
        exact ⟨Option.some_ne_none a, Option.some_ne_none b, fun h => hb (Option.some.inj h),
          hsame.mapping.symm⟩
  · rintro ⟨hmean, hsigma, hzero, hmapping⟩
    obtain ⟨a, ha⟩ := Option.ne_none_iff_exists'.mp hmean
    obtain ⟨b, hb⟩ := Option.ne_none_iff_exists'.mp hsigma
    have hb' : Importer.orNumber (some b) none = some b :=
      if_neg fun h => hzero (by rw [hb, h])
    refine ⟨{ name := [], distribution := some v.kind, mean := some a, sigma := some b }, ?_, ?_⟩
    · unfold Importer.mapNormal
      rw [ha, hb]
      dsimp only
      rw [hb']
      rfl
    · have hlisted : ¬ v.Listed := by
        rcases hkind with h | h <;> exact not_listed h nofun nofun
      have hstatic : v.kind ≠ .static := fun h => by
        rcases hkind with h' | h' <;> exact nomatch h'.symm.trans h
      refine sameEntry_unlisted hlisted hstatic rfl ?_ rfl hmapping hpivot.symm
      rw [hparameters, ha, hb]
      unfold Variable.parameters Variable.kind
      dsimp only [Option.getD_some]
      rcases hkind with h | h <;> rw [show v.distribution.getD .uniform = _ from h]

/-- A variable over values comes back exactly if its list does. -/
theorem listed_back {v : Variable} (hpivot : v.pivot = false) {type : OsaType}
    (hlisted : v.Listed) :
    (∃ d entry, Exporter.convertListed t v type = .ok d ∧
        Importer.mapDiscreteOrCategorical t v.kind (d.json t) = .ok entry ∧ SameEntry v entry) ↔
      ListedBack t v.kind type v := by
  constructor
  · rintro ⟨d, entry, hd, hentry, hsame⟩
    exact ⟨d, entry, hd, hentry, hsame.values hlisted, hsame.weights hlisted, hsame.mapping⟩
  · rintro ⟨d, entry, hd, hentry, hvalues, hweights, hmapping⟩
    have hfields : entry.distribution = some v.kind ∧ entry.pivot = false := by
      unfold Exporter.convertListed at hd
      split at hd
      · exact nomatch hd
      · obtain rfl := Except.ok.inj hd
        rw [mapListed_eq] at hentry
        split at hentry
        · exact nomatch hentry
        · split at hentry
          · exact nomatch hentry
          · obtain rfl := Except.ok.inj hentry
            exact ⟨rfl, rfl⟩
    have hkind : entry.kind = v.kind := by
      unfold Variable.kind
      rw [hfields.1]
      rfl
    refine ⟨d, entry, hd, hentry, hkind, ?_, fun h => ?_, fun _ => hvalues, fun _ => hweights,
      hmapping, hfields.2.trans hpivot.symm⟩
    · unfold Variable.parameters
      rw [hkind]
      rcases hlisted with h | h <;> rw [h]
    · rcases hlisted with h' | h' <;> exact nomatch h'.symm.trans h

/-- The kinds without an OSA name come back as another one, or not at all. -/
theorem not_back {v : Variable} (h : v.kind ∉ [Distribution.uniform, .normal, .lognormal,
      .triangular, .discrete, .categorical]) : ¬ DistributionBack t v := by
  rintro ⟨d, entry, hd, hentry, hsame⟩
  have hkind := hsame.kind
  have hlossy (hd' : Exporter.buildUniformFromVar v = d) : entry.kind = .uniform := by
    subst hd'
    unfold Exporter.buildUniformFromVar at hentry
    dsimp only at hentry
    split at hentry <;> rw [← Except.ok.inj hentry] <;> rfl
  have hlossy' (hd' : Exporter.buildUniformFromVar v = d) : False := by
    rw [← hkind, hlossy hd'] at h
    exact h List.mem_cons_self
  cases hk : v.kind with
  | beta | gamma | exponential =>
    rw [hk] at hd
    exact hlossy' (Except.ok.inj hd)
  | static | conditional | other =>
    rw [hk] at hd
    obtain rfl := Except.ok.inj hd
    exact nomatch hentry
  | uniform | normal | lognormal | triangular | discrete | categorical =>
    rw [hk] at h
    simp at h

theorem convertListed_type {v : Variable} {type : OsaType} {d : OsaDistribution}
    (h : Exporter.convertListed t v type = .ok d) : d.type = type := by
  unfold Exporter.convertListed at h
  split at h
  · exact nomatch h
  · rw [← Except.ok.inj h]

theorem listed_back_iff {v : Variable} (hpivot : v.pivot = false) (hnonneg : Nonnegative v)
    (hlisted : v.Listed) : DistributionBack t v ↔ v.valueList ≠ [] ∧ ValuesSurvive t v ∧
      ∀ pmf, v.pmf = some pmf → PmfSurvives t v.valueList pmf := by
  have hmap {d : OsaDistribution} {type : OsaType} (hd : Exporter.convertListed t v type = .ok d)
      (htype : type = .discrete ∧ v.kind = .discrete ∨ type = .categorical ∧
        v.kind = .categorical) : Importer.mapDistribution t (d.json t) =
          Importer.mapDiscreteOrCategorical t v.kind (d.json t) := by
    have htype' : d.type = type := convertListed_type hd
    have hjson : (d.json t).type = type := htype'
    unfold Importer.mapDistribution
    rw [hjson]
    rcases htype with ⟨rfl, hk⟩ | ⟨rfl, hk⟩ <;> rw [hk]
  have hback {type : OsaType} (hconvert : Exporter.convertDistribution t v v.kind =
      Exporter.convertListed t v type) (htype : type = .discrete ∧ v.kind = .discrete ∨
        type = .categorical ∧ v.kind = .categorical) :
      DistributionBack t v ↔ ListedBack t v.kind type v := by
    rw [← listed_back hpivot hlisted]
    unfold DistributionBack
    rw [hconvert]
    refine exists_congr fun d => exists_congr fun entry => and_congr_right fun hd => ?_
    rw [hmap hd htype]
  rcases hlisted with hk | hk
  · have hconvert : Exporter.convertDistribution t v v.kind =
        Exporter.convertListed t v .discrete := by
      rw [hk]
      rfl
    rw [hback hconvert (.inl ⟨rfl, hk⟩), listedBack_iff hnonneg]
  · have hconvert : Exporter.convertDistribution t v v.kind =
        Exporter.convertListed t v .categorical := by
      rw [hk]
      rfl
    rw [hback hconvert (.inr ⟨rfl, hk⟩), listedBack_iff hnonneg]

/-- What `normal` and `lognormal` come back as. -/
theorem normal_back_iff {v : Variable} (hpivot : v.pivot = false)
    (hkind : v.kind = .normal ∨ v.kind = .lognormal) : DistributionBack t v ↔
      v.mean ≠ none ∧ v.sigma ≠ none ∧ v.sigma ≠ some 0 ∧ v.mapping.nonemptyDict = .null := by
  unfold DistributionBack
  rcases id hkind with hk | hk
  · rw [← mapNormal_back hpivot hkind .normal, hk]
    constructor
    · rintro ⟨d, entry, hd, hentry⟩
      obtain rfl := Except.ok.inj hd
      exact ⟨entry, hentry⟩
    · rintro ⟨entry, hentry⟩
      exact ⟨_, entry, rfl, hentry⟩
  · rw [← mapNormal_back hpivot hkind .lognormal, hk]
    constructor
    · rintro ⟨d, entry, hd, hentry⟩
      obtain rfl := Except.ok.inj hd
      exact ⟨entry, hentry⟩
    · rintro ⟨entry, hentry⟩
      exact ⟨_, entry, rfl, hentry⟩

theorem distributionBack_iff {v : Variable} (hpivot : v.pivot = false)
    (hnonneg : Nonnegative v) : DistributionBack t v ↔ KindSurvives t v := by
  unfold KindSurvives
  cases hk : v.kind with
  | uniform => exact uniform_back hpivot hk
  | triangular => exact triangular_back hpivot hk
  | normal => exact normal_back_iff hpivot (.inl hk)
  | lognormal => exact normal_back_iff hpivot (.inr hk)
  | discrete => exact listed_back_iff hpivot hnonneg (.inl hk)
  | categorical => exact listed_back_iff hpivot hnonneg (.inr hk)
  | beta | gamma | exponential | static | conditional | other =>
    refine iff_of_false (not_back ?_) id
    rw [hk]
    simp

theorem convertDistribution_type {v : Variable} {d : OsaDistribution}
    (h : Exporter.convertDistribution t v v.kind = .ok d) : d.type ≠ .pivot := by
  have hlisted {type : OsaType} (hd : Exporter.convertListed t v type = .ok d)
      (htype : type ≠ .pivot) : d.type ≠ .pivot := by
    rw [convertListed_type hd]
    exact htype
  cases hk : v.kind with
  | discrete | categorical =>
    rw [hk] at h
    exact hlisted h nofun
  | beta | gamma | exponential =>
    rw [hk] at h
    rw [← Except.ok.inj h]
    unfold Exporter.buildUniformFromVar
    dsimp only
    split <;> exact nofun
  | uniform | normal | lognormal | triangular | static | conditional | other =>
    rw [hk] at h
    rw [← Except.ok.inj h]
    exact nofun

theorem sameEntry_name {v entry : Variable} (name : List Char) :
    SameEntry v { entry with name := name } ↔ SameEntry v entry :=
  ⟨fun h => ⟨h.kind, h.parameters, h.value, h.values, h.weights, h.mapping, h.pivot⟩,
    fun h => ⟨h.kind, h.parameters, h.value, h.values, h.weights, h.mapping, h.pivot⟩⟩

theorem survives_distribution {steps : List OsaStep} {v : Variable} (hnonneg : Nonnegative v)
    (hname : v.name ≠ []) (hkind : v.kind ≠ .static) (hpivot : v.pivot = false) :
    (∃ v', Returns t steps v v' ∧ SameVariable v v') ↔
      ReferenceSurvives t steps v ∧ DistributionSurvives t v := by
  have hexport : Exporter.convertVariable t v =
      (Exporter.convertDistribution t v v.kind).map fun d =>
        some ⟨some v.name, some (v.variableType.getD variableTypeDefault), .null, some d,
          truthy v.displayName, Exporter.measureOf v.measureArgument⟩ := by
    unfold Exporter.convertVariable
    rw [if_neg hname]
    dsimp only
    rw [if_neg hkind, hpivot]
    cases Exporter.convertDistribution t v v.kind <;> rfl
  have htyped : some (v.variableType.getD variableTypeDefault) = some pivotType ↔
      v.variableType = some pivotType := by
    cases v.variableType with
    | none => exact iff_of_false (by decide) (by rintro ⟨⟩)
    | some variableType => exact Iff.rfl
  unfold DistributionSurvives
  rw [if_neg hkind, if_neg (by rw [hpivot]; exact Bool.false_ne_true),
    ← distributionBack_iff hpivot hnonneg]
  cases hd : Exporter.convertDistribution t v v.kind with
  | error e =>
    rw [hd] at hexport
    refine iff_of_false ?_ ?_
    · rintro ⟨v', ⟨o, ho, -⟩, -⟩
      cases hexport.symm.trans ho
    · rintro ⟨-, -, d, entry, hd', -⟩
      cases hd.symm.trans hd'
  | ok d =>
    rw [hd] at hexport
    obtain ⟨m, hnormal, hreference⟩ := normalize_exported (t := t) steps
      (o := (OsaVariable.json t ⟨some v.name, some (v.variableType.getD variableTypeDefault),
        .null, some d, truthy v.displayName, Exporter.measureOf v.measureArgument⟩)) rfl rfl
    let o' : OsaVariable :=
      ⟨some v.name, some (v.variableType.getD variableTypeDefault), .null, some (d.json t),
        truthy v.displayName, m⟩
    change _ = o' at hnormal
    have himport := import_named (t := t) (o := o') rfl hname
    have hback : DistributionBack t v ↔ ∃ entry,
        Importer.mapDistribution t (d.json t) = .ok entry ∧ SameEntry v entry := by
      unfold DistributionBack
      rw [hd]
      constructor
      · rintro ⟨_, entry, hd', hentry⟩
        obtain rfl := Except.ok.inj hd'
        exact ⟨entry, hentry⟩
      · rintro ⟨entry, hentry⟩
        exact ⟨d, entry, rfl, hentry⟩
    rw [hback]
    have hnotPivot : d.type ≠ .pivot := convertDistribution_type hd
    by_cases hvariableType : v.variableType = some pivotType
    · -- typed as a pivot it comes back as one
      have hbranch : some (v.variableType.getD variableTypeDefault) = some pivotType ∨
          (d.json t).type = .pivot := .inl (htyped.mpr hvariableType)
      refine iff_of_false ?_ fun h => h.2.1 hvariableType
      rintro ⟨v', ⟨o, ho, hv'⟩, hsame⟩
      obtain rfl := Option.some.inj (Except.ok.inj (hexport.symm.trans ho))
      rw [hnormal, himport.trans (if_pos hbranch)] at hv'
      obtain rfl := Option.some.inj (Except.ok.inj hv')
      cases hpivot.symm.trans hsame.pivot.symm
    · have hbranch : ¬ (some (v.variableType.getD variableTypeDefault) = some pivotType ∨
          (d.json t).type = .pivot) :=
        not_or.mpr ⟨fun h => hvariableType (htyped.mp h), hnotPivot⟩
      replace himport := himport.trans (if_neg hbranch)
      cases hentry : Importer.mapDistribution t (d.json t) with
      | error e =>
        rw [hentry] at himport
        refine iff_of_false ?_ ?_
        · rintro ⟨v', ⟨o, ho, hv'⟩, -⟩
          obtain rfl := Option.some.inj (Except.ok.inj (hexport.symm.trans ho))
          rw [hnormal, himport] at hv'
          cases e <;> cases hv'
        · rintro ⟨-, -, entry, h, -⟩
          cases h
      | ok entry =>
        rw [hentry] at himport
        refine (returns_of_entry hexport ((congrArg _ hnormal).trans himport) rfl hreference).trans
          (and_congr_right fun _ => ?_)
        rw [sameEntry_name]
        constructor
        · intro hsame
          exact ⟨hvariableType, entry, rfl, hsame⟩
        · rintro ⟨-, entry', heq, hsame⟩
          obtain rfl := Except.ok.inj heq
          exact hsame

/-- A variable comes back exactly if it survives. -/
theorem returns_iff {steps : List OsaStep} {v : Variable} (hnonneg : Nonnegative v) :
    (∃ v', Returns t steps v v' ∧ SameVariable v v') ↔ Survives t steps v := by
  by_cases hname : v.name = []
  · refine iff_of_false ?_ fun h => h.name hname
    rintro ⟨v', ⟨o, ho, -⟩, -⟩
    unfold Exporter.convertVariable at ho
    rw [if_pos hname] at ho
    exact nomatch ho
  · have hparts : (∃ v', Returns t steps v v' ∧ SameVariable v v') ↔
        ReferenceSurvives t steps v ∧ DistributionSurvives t v := by
      by_cases hkind : v.kind = .static
      · exact survives_static hname hkind
      · cases hpivot : v.pivot with
        | true => exact survives_pivot hname hkind hpivot
        | false => exact survives_distribution hnonneg hname hkind hpivot
    rw [hparts]
    exact ⟨fun h => ⟨hname, h.1, h.2⟩, fun h => ⟨h.reference, h.distribution⟩⟩

/-! ## The study -/

/-- The steps of a study's analysis. -/
def Study.steps (t : Texts) (s : Study) : List OsaStep := Exporter.buildWorkflow t s.workflow

/-- The export is the collection of the variables' entries. -/
theorem buildAnalysis_eq (s : Study) : Exporter.buildAnalysis t s =
    match collect (Exporter.convertVariable t) s.variableDefs with
    | .error e => .error e
    | .ok variableDefs =>
      .ok { algorithm := Exporter.translateAlgorithm s.algorithm, numberOfSamples := some s.nSamples,
            seed := s.samplingSeed, variableDefs := variableDefs, workflow := s.steps t } := rfl

theorem algorithm_returns (a : Algorithm) :
    Importer.osaAlgorithmMap (Exporter.translateAlgorithm a) = some a ∧
      ¬ Importer.Prebuilt (Exporter.translateAlgorithm a) := by
  cases a <;> exact ⟨rfl, by decide⟩

/-- A study that survives. -/
structure StudySurvives (t : Texts) (available : Algorithm → Bool) (s : Study) : Prop where
  algorithm : available s.algorithm = true
  nSamples : 1 ≤ s.nSamples
  steps : s.variableDefs = [] → s.steps t ≠ []
  variableDefs : ∀ v ∈ s.variableDefs, Survives t (s.steps t) v

/-- The importer's list, of the exporter's. -/
def importedVariables (t : Texts) (steps : List OsaStep) (osa : List OsaVariable) :
    Except Importer.ImportFailure (List Variable × Bool) :=
  if osa = [] then if steps ≠ [] then .ok ([], true) else .error .osaImportError
  else
    match collect (Importer.convertVariable t) (osa.map fun o =>
      Importer.normalizeVariableMeasure t steps (o.json t)) with
    | .error e => .error e
    | .ok [] => .error .osaImportError
    | .ok converted => .ok (converted, false)

theorem extract_eq (s : Study) (osa : List OsaVariable) :
    Importer.extractProblemVariables t (Analysis.json t
      { algorithm := Exporter.translateAlgorithm s.algorithm, numberOfSamples := some s.nSamples,
        seed := s.samplingSeed, variableDefs := osa, workflow := s.steps t }) =
      importedVariables t (s.steps t) osa := by
  cases osa with
  | nil =>
    show (if s.steps t ≠ [] ∨ Importer.Prebuilt (Exporter.translateAlgorithm s.algorithm) then _
      else _) = if s.steps t ≠ [] then _ else _
    by_cases hsteps : s.steps t ≠ []
    · rw [if_pos (.inl hsteps), if_pos hsteps]
    · have hneither : ¬ (s.steps t ≠ [] ∨
          Importer.Prebuilt (Exporter.translateAlgorithm s.algorithm)) :=
        not_or.mpr ⟨hsteps, (algorithm_returns s.algorithm).2⟩
      rw [if_neg hneither, if_neg hsteps]
  | cons o osa =>
    have hmap : ((o :: osa).map (OsaVariable.json t)).map
        (Importer.normalizeVariableMeasure t (s.steps t)) =
        (o :: osa).map fun o => Importer.normalizeVariableMeasure t (s.steps t) (o.json t) :=
      List.map_map
    unfold importedVariables
    rw [if_neg (List.cons_ne_nil o osa), ← hmap]
    rfl

/-- The import of a study's analysis. -/
theorem import_eq (available : Algorithm → Bool) (s : Study) (osa : List OsaVariable) :
    Importer.osaToVariablesYml t available (Analysis.json t
      { algorithm := Exporter.translateAlgorithm s.algorithm, numberOfSamples := some s.nSamples,
        seed := s.samplingSeed, variableDefs := osa, workflow := s.steps t }) =
      if available s.algorithm = false then .error .osaImportError
      else if s.nSamples < 1 then .error .osaImportError
      else
        match importedVariables t (s.steps t) osa with
        | .error e => .error e
        | .ok (variableDefs, prebuilt) =>
          .ok { algorithm := s.algorithm, nSamples := some s.nSamples, seed := s.samplingSeed,
                prebuilt := prebuilt, variableDefs := variableDefs } := by
  unfold Importer.osaToVariablesYml
  rw [extract_eq]
  dsimp only [Analysis.json]
  rw [(algorithm_returns s.algorithm).1]
  dsimp only
  by_cases havailable : available s.algorithm = false
  · rw [if_pos havailable, if_pos havailable]
  rw [if_neg havailable, if_neg havailable]
  unfold Importer.extractNSamples
  dsimp only [Option.some_or]
  by_cases hn : s.nSamples < 1
  · rw [if_pos hn, if_pos hn]
    rfl
  rw [if_neg hn, if_neg hn]
  cases importedVariables t (s.steps t) osa with
  | error e => rfl
  | ok result => rfl

/-- A list of variables is imported from steps alone, or is what the variables give. -/
theorem importedVariables_eq_ok {steps : List OsaStep} {osa : List OsaVariable}
    {vs : List Variable} : (∃ prebuilt, importedVariables t steps osa = .ok (vs, prebuilt)) ↔
      (osa = [] → steps ≠ [] ∧ vs = []) ∧ (osa ≠ [] → vs ≠ [] ∧
        collect (Importer.convertVariable t) (osa.map fun o =>
          Importer.normalizeVariableMeasure t steps (o.json t)) = .ok vs) := by
  unfold importedVariables
  by_cases hosa : osa = []
  · rw [if_pos hosa]
    by_cases hsteps : steps ≠ []
    · rw [if_pos hsteps]
      constructor
      · rintro ⟨prebuilt, h⟩
        exact ⟨fun _ => ⟨hsteps, (Prod.mk.inj (Except.ok.inj h)).1.symm⟩, absurd hosa⟩
      · intro h
        rw [(h.1 hosa).2]
        exact ⟨true, rfl⟩
    · rw [if_neg hsteps]
      refine iff_of_false ?_ fun h => hsteps (h.1 hosa).1
      rintro ⟨prebuilt, h⟩
      exact nomatch h
  · rw [if_neg hosa]
    cases collect (Importer.convertVariable t) (osa.map fun o =>
        Importer.normalizeVariableMeasure t steps (o.json t)) with
    | error e =>
      refine iff_of_false ?_ fun h => nomatch (h.2 hosa).2
      rintro ⟨prebuilt, h⟩
      exact nomatch h
    | ok converted =>
      cases converted with
      | nil =>
        refine iff_of_false ?_ fun h => (h.2 hosa).1 (Except.ok.inj (h.2 hosa).2).symm
        rintro ⟨prebuilt, h⟩
        exact nomatch h
      | cons v converted =>
        constructor
        · rintro ⟨prebuilt, h⟩
          obtain ⟨rfl, -⟩ := Prod.mk.inj (Except.ok.inj h)
          exact ⟨fun h => absurd h hosa, fun _ => ⟨List.cons_ne_nil v converted, rfl⟩⟩
        · intro h
          rw [← Except.ok.inj (h.2 hosa).2]
          exact ⟨false, rfl⟩

/-- What comes back, of the two lists. -/
theorem roundTrip_eq_ok {available : Algorithm → Bool} {s : Study} {i : Imported} :
    roundTrip t available s = .ok i ↔ available s.algorithm = true ∧ 1 ≤ s.nSamples ∧
      ∃ osa, collect (Exporter.convertVariable t) s.variableDefs = .ok osa ∧
        ∃ vs prebuilt, importedVariables t (s.steps t) osa = .ok (vs, prebuilt) ∧
          i = ⟨s.algorithm, some s.nSamples, s.samplingSeed, prebuilt, vs⟩ := by
  unfold roundTrip
  rw [buildAnalysis_eq]
  cases collect (Exporter.convertVariable t) s.variableDefs with
  | error e =>
    refine iff_of_false (fun h => by cases h) ?_
    rintro ⟨-, -, osa, h, -⟩
    cases h
  | ok osa =>
    dsimp only
    rw [import_eq]
    by_cases havailable : available s.algorithm = false
    · rw [if_pos havailable]
      exact iff_of_false (fun h => by cases h) fun h => by cases havailable.symm.trans h.1
    rw [if_neg havailable]
    by_cases hn : s.nSamples < 1
    · rw [if_pos hn]
      exact iff_of_false (fun h => by cases h) fun h => absurd h.2.1 (not_le.mpr hn)
    rw [if_neg hn]
    cases himport : importedVariables t (s.steps t) osa with
    | error e =>
      refine iff_of_false (fun h => by cases h) ?_
      rintro ⟨-, -, osa', hosa, vs, prebuilt, h, -⟩
      obtain rfl := Except.ok.inj hosa
      cases himport.symm.trans h
    | ok result =>
      obtain ⟨vs, prebuilt⟩ := result
      constructor
      · intro h
        exact ⟨Bool.eq_true_of_not_eq_false havailable, not_lt.mp hn, osa, rfl, vs, prebuilt,
          himport, (Except.ok.inj h).symm⟩
      · rintro ⟨-, -, osa', hosa, vs', prebuilt', h, rfl⟩
        obtain rfl := Except.ok.inj hosa
        obtain ⟨rfl, rfl⟩ := Prod.mk.inj (Except.ok.inj (himport.symm.trans h))
        rfl

/-- Lists of which nothing was left out hold what returns of each variable. -/
theorem returns_of_collect {steps : List OsaStep} {vars vs : List Variable}
    {osa : List OsaVariable} (hosa : collect (Exporter.convertVariable t) vars = .ok osa)
    (hvs : collect (Importer.convertVariable t) (osa.map fun o =>
      Importer.normalizeVariableMeasure t steps (o.json t)) = .ok vs)
    (hlength : vs.length = vars.length) : List.Forall₂ (Returns t steps) vars vs := by
  have hle := length_collect_le hosa
  have hle' := length_collect_le hvs
  rw [List.length_map] at hle'
  have hexport := forall₂_of_collect hosa (by omega)
  have himport := forall₂_of_collect hvs (by rw [List.length_map]; omega)
  exact forall₂_comp_iff.mpr ⟨osa, hexport, List.forall₂_map_left_iff.mp himport⟩

/-- The study comes back as it was exactly if it survives. -/
theorem roundTrip_preserves_iff (t : Texts) (available : Algorithm → Bool) (s : Study)
    (hnonneg : ∀ v ∈ s.variableDefs, Nonnegative v) :
    (∃ i, roundTrip t available s = .ok i ∧ Preserved s i) ↔ StudySurvives t available s := by
  have hsurvives : (∀ v ∈ s.variableDefs, Survives t (s.steps t) v) ↔
      ∃ vs, List.Forall₂ (fun v v' => Returns t (s.steps t) v v' ∧ SameVariable v v')
        s.variableDefs vs := by
    rw [forall₂_exists_iff]
    exact forall₂_congr fun v hv => (returns_iff (hnonneg v hv)).symm
  constructor
  · rintro ⟨i, hi, hpreserved⟩
    obtain ⟨havailable, hn, osa, hosa, vs, prebuilt, himport, rfl⟩ := roundTrip_eq_ok.mp hi
    obtain ⟨hempty, hsome⟩ := importedVariables_eq_ok.mp ⟨prebuilt, himport⟩
    have hsame : List.Forall₂ SameVariable s.variableDefs vs := hpreserved.variableDefs
    refine ⟨havailable, hn, fun hnil => ?_, hsurvives.mpr ⟨vs, ?_⟩⟩
    · rw [hnil] at hosa
      exact (hempty (Except.ok.inj hosa).symm).1
    · by_cases hosa' : osa = []
      · rw [(hempty hosa').2] at hsame ⊢
        rw [List.forall₂_nil_right_iff.mp hsame]
        exact .nil
      · exact forall₂_and (returns_of_collect hosa (hsome hosa').2 hsame.length_eq.symm) hsame
  · intro h
    obtain ⟨vs, hvs⟩ := hsurvives.mp h.variableDefs
    have hreturns : List.Forall₂ (Returns t (s.steps t)) s.variableDefs vs :=
      hvs.imp fun _ _ h => h.1
    obtain ⟨osa, hexport, himport⟩ := forall₂_comp_iff.mp hreturns
    have himported : ∃ prebuilt, importedVariables t (s.steps t) osa = .ok (vs, prebuilt) := by
      refine importedVariables_eq_ok.mpr ⟨fun hosa => ?_, fun hosa => ⟨fun hvs => ?_, ?_⟩⟩
      · subst hosa
        have hnil : s.variableDefs = [] := List.forall₂_nil_right_iff.mp hexport
        exact ⟨h.steps hnil, List.forall₂_nil_left_iff.mp himport⟩
      · subst hvs
        exact hosa (List.forall₂_nil_right_iff.mp himport)
      · exact collect_eq_ok (List.forall₂_map_left_iff.mpr himport)
    obtain ⟨prebuilt, himported⟩ := himported
    refine ⟨⟨s.algorithm, some s.nSamples, s.samplingSeed, prebuilt, vs⟩, ?_,
      hvs.imp fun _ _ h => h.2, rfl, rfl, rfl⟩
    exact roundTrip_eq_ok.mpr
      ⟨h.algorithm, h.nSamples, osa, collect_eq_ok hexport, vs, prebuilt, himported, rfl⟩

/-- Texts of a Python that writes no fractions. -/
def wholeTexts : Texts where
  float x := (toString x.num).toList
  composite _ := []
  isSpace c := decide (c = ' ')

/-- Two kinds of walls, one three times as likely, and a resistance from zero on. -/
def wallStudy : Study where
  algorithm := .fullFactorial
  nSamples := 5
  metadataSeed := some 7
  variableDefs :=
    [{ name := ['w', '.', 'r'], distribution := some .uniform, min := some 0, max := some 5,
       measureArgument := some ['m', '.', 'r'] },
     { name := ['k'], distribution := some .categorical,
       values := some [.str ['a'], .str ['b']],
       pmf := some (Dict.ofItems [(.text ['a'], 1), (.text ['b'], 3)]) }]

def wallWeights : Dict Key Rat := Dict.ofItems [(.text ['a'], 1), (.text ['b'], 3)]

theorem wallWeights_cases {k : Key} {w : Rat} (h : wallWeights.get? k = some w) :
    (k = .text ['a'] ∧ w = 1) ∨ (k = .text ['b'] ∧ w = 3) := by
  have hmem := Dict.mem_of_get?_ofItems h
  simpa only [List.mem_cons, Prod.mk.injEq, List.not_mem_nil, or_false] using hmem

theorem wallWeights_survive :
    PmfSurvives wholeTexts [.str ['a'], .str ['b']] wallWeights := by
  have huniform : ¬ Uniform wholeTexts [.str ['a'], .str ['b']] wallWeights := by
    intro h
    have heq := h (.str ['a']) List.mem_cons_self (.str ['b']) (.tail _ List.mem_cons_self)
    exact absurd heq (by decide)
  refine ⟨?_, ⟨.str ['a'], List.mem_cons_self, by decide⟩, fun h => absurd h huniform,
    fun _ => by decide, fun _ k hk => ?_⟩
  · exact List.forall_mem_cons.mpr ⟨by decide, List.forall_mem_singleton.mpr (by decide)⟩
  · obtain ⟨w, hw⟩ := Dict.mem_keys_iff.mp (mem_keys_of_weight hk)
    obtain ⟨rfl, -⟩ | ⟨rfl, -⟩ := wallWeights_cases hw
    · exact ⟨.str ['a'], List.mem_cons_self, rfl⟩
    · exact ⟨.str ['b'], .tail _ List.mem_cons_self, rfl⟩

/-- The study comes back. -/
theorem roundTrip_wallStudy : ∃ i, roundTrip wholeTexts (fun _ => true) wallStudy = .ok i ∧
    Preserved wallStudy i := by
  have hrename {identifier target : List Char} :
      ¬ Renames wholeTexts (wallStudy.steps wholeTexts) identifier target := by
    rintro ⟨⟨s, hs, -⟩, -⟩
    exact nomatch hs
  refine (roundTrip_preserves_iff wholeTexts (fun _ => true) wallStudy ?_).mpr
    ⟨rfl, by decide, nofun, ?_⟩
  · refine List.forall_mem_cons.mpr ⟨nofun, List.forall_mem_singleton.mpr fun pmf hpmf k => ?_⟩
    obtain rfl : wallWeights = pmf := Option.some.inj hpmf
    unfold weight
    cases hget : wallWeights.get? k with
    | none => exact le_refl _
    | some w =>
      obtain ⟨-, rfl⟩ | ⟨-, rfl⟩ := wallWeights_cases hget
      · exact zero_le_one
      · exact zero_le_three
  · refine List.forall_mem_cons.mpr ⟨⟨List.cons_ne_nil _ _, ?_, ?_⟩,
      List.forall_mem_singleton.mpr ⟨List.cons_ne_nil _ _, ?_, ?_⟩⟩
    · exact ⟨['m'], ['r'], rfl, List.cons_ne_nil _ _, List.cons_ne_nil _ _,
        fun target h => absurd h hrename⟩
    · exact ⟨nofun, nofun, nofun, rfl⟩
    · exact fun _ _ h => nomatch h
    · refine ⟨nofun, List.cons_ne_nil _ _, ⟨rfl, rfl⟩, fun pmf hpmf => ?_⟩
      obtain rfl : wallWeights = pmf := Option.some.inj hpmf
      exact wallWeights_survive

/-- A triangular variable between minus two and four, with its mode at zero. -/
def zeroModeStudy : Study where
  algorithm := .lhs
  nSamples := 10
  variableDefs :=
    [{ name := ['x'], distribution := some .triangular, min := some (-2), max := some 4,
       mode := some 0 }]

/-- The variable without its mode, which is then at one. -/
def modelessVariable : Variable :=
  { name := ['x'], distribution := some .triangular, min := some (-2), max := some 4 }

/-- The mode is lost. -/
theorem roundTrip_zero_mode : ¬ ∃ i, roundTrip wholeTexts (fun _ => true) zeroModeStudy = .ok i ∧
    Preserved zeroModeStudy i := by
  rintro ⟨i, hi, hpreserved⟩
  have hback : roundTrip wholeTexts (fun _ => true) zeroModeStudy = .ok
      ⟨.lhs, some 10, none, false, [modelessVariable]⟩ := rfl
  obtain rfl := Except.ok.inj (hback.symm.trans hi)
  cases hpreserved.variableDefs with
  | cons hsame _ => exact absurd hsame.parameters (by decide)

end OSimFlow.Osa
