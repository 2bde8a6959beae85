import OSimFlow.Osa.Converters

/-!
# The measure that a variable is for

The exporter splits a `measure_argument` at its first dot. The importer puts the two together
again, with the measure's name replaced by the one that references its step, if the steps that
go by it have one such name. A variable without a reference gets one if its own name begins
with a step's.

> `referenceBack_eq_iff`: a reference comes back exactly if it survives.
-/

namespace OSimFlow.Osa

open OSimFlow.Lib OSimFlow.Algorithms.Sampling
open OSimFlow.Apply (truthy dotted)

variable {t : Texts}

/-- One of the steps goes by the identifier and is referenced by the name `target`. -/
def Identifies (t : Texts) (steps : List OsaStep) (identifier target : List Char) : Prop :=
  ∃ s ∈ steps, (identifier, target) ∈ Importer.stepAliases t steps s

/-- The steps that go by the identifier are all referenced by `target`. -/
def Renames (t : Texts) (steps : List OsaStep) (identifier target : List Char) : Prop :=
  Identifies t steps identifier target ∧
    ∀ target', Identifies t steps identifier target' → target' = target

/-- A reference has a measure and an argument around its first dot, and the measure is not
renamed; without a reference the variable's name does not begin with a step's name. -/
def ReferenceSurvives (t : Texts) (steps : List OsaStep) (v : Variable) : Prop :=
  match v.measureArgument with
  | some ref => ∃ measure argument, splitDot ref = some (measure, argument) ∧ measure ≠ [] ∧
      argument ≠ [] ∧ ∀ target, Renames t steps measure target → target = measure
  | none => ∀ identifier argument, splitDot v.name = some (identifier, argument) →
      argument ≠ [] → ∀ target, ¬ Renames t steps identifier target

/-! ## Aliases -/

theorem stepAlias_eq_some_iff {steps : List OsaStep} {identifier target : List Char} :
    Importer.stepAlias t steps identifier = some target ↔ Renames t steps identifier target := by
  have hmem (target' : List Char) : target' ∈
      (((steps.flatMap (Importer.stepAliases t steps)).filter
        fun a => decide (a.1 = identifier)).map Prod.snd).dedup ↔
      Identifies t steps identifier target' := by
    rw [List.mem_dedup, List.mem_map]
    constructor
    · rintro ⟨⟨a, target''⟩, ha, rfl⟩
      obtain ⟨hflat, heq⟩ := List.mem_filter.mp ha
      obtain ⟨s, hs, halias⟩ := List.mem_flatMap.mp hflat
      obtain rfl : a = identifier := of_decide_eq_true heq
      exact ⟨s, hs, halias⟩
    · rintro ⟨s, hs, halias⟩
      exact ⟨(identifier, target'), List.mem_filter.mpr
        ⟨List.mem_flatMap.mpr ⟨s, hs, halias⟩, decide_eq_true rfl⟩, rfl⟩
  have hnodup := List.nodup_dedup (((steps.flatMap (Importer.stepAliases t steps)).filter
        fun a => decide (a.1 = identifier)).map Prod.snd)
  unfold Importer.stepAlias Renames
  simp only [← hmem]
  generalize (((steps.flatMap (Importer.stepAliases t steps)).filter
    fun a => decide (a.1 = identifier)).map Prod.snd).dedup = targets at hnodup
  match targets with
  | [] => exact iff_of_false nofun fun h => nomatch h.1
  | [target'] =>
    constructor
    · intro h
      obtain rfl := Option.some.inj h
      exact ⟨List.mem_cons_self, fun target'' => List.mem_singleton.mp⟩
    · intro h
      exact congrArg some (List.mem_singleton.mp h.1).symm
  | target₁ :: target₂ :: rest =>
    refine iff_of_false nofun fun h => ?_
    have h₁ := h.2 target₁ List.mem_cons_self
    have h₂ := h.2 target₂ (List.mem_cons_of_mem _ List.mem_cons_self)
    refine (List.nodup_cons.mp hnodup).1 ?_
    rw [h₁, ← h₂]
    exact List.mem_cons_self

/-- Neither an identifier nor a step's reference is empty. -/
theorem ne_nil_of_identifies {steps : List OsaStep} {identifier target : List Char}
    (h : Identifies t steps identifier target) : identifier ≠ [] ∧ target ≠ [] := by
  obtain ⟨s, -, halias⟩ := h
  unfold Importer.stepAliases at halias
  dsimp only at halias
  split at halias
  · exact nomatch halias
  next hne =>
    split at halias
    · exact nomatch halias
    · obtain ⟨cand, -, hcand⟩ := List.mem_filterMap.mp halias
      split at hcand
      · exact nomatch hcand
      next hblank =>
        obtain ⟨rfl, rfl⟩ := Prod.mk.inj (Option.some.inj hcand)
        exact ⟨fun hcand => hblank (.inl hcand), fun htarget => hne (.inr htarget)⟩

/-! ## References -/

theorem splitDot_eq_some {ref measure argument : List Char}
    (h : splitDot ref = some (measure, argument)) : ref = dotted measure argument := by
  unfold splitDot at h
  split at h
  next hdot =>
    obtain ⟨rfl, rfl⟩ := Prod.mk.inj (Option.some.inj h)
    have hne : ref.dropWhile (fun c => decide (c ≠ '.')) ≠ [] := by
      intro hnil
      exact absurd (List.dropWhile_eq_nil_iff.mp hnil '.' hdot) (by decide)
    have hhead : (ref.dropWhile fun c => decide (c ≠ '.')).head hne = '.' := by
      have hnot := List.head_dropWhile_not (fun c => decide (c ≠ '.')) hne
      exact not_not.mp (of_decide_eq_false hnot)
    have hrest := List.cons_head_tail hne
    rw [hhead] at hrest
    unfold dotted
    rw [List.drop_one, hrest, List.takeWhile_append_dropWhile]
  next => exact nomatch h

theorem truthy_some {name : List Char} (h : name ≠ []) : truthy (some name) = some name :=
  Option.filter_eq_some_iff.mpr ⟨rfl, decide_eq_true h⟩

/-- The reference that the importer makes of the exporter's. -/
def referenceBack (t : Texts) (steps : List OsaStep) (name : List Char)
    (measureArgument : Option (List Char)) : Option (List Char) :=
  Importer.resolveMeasureArgument (Importer.normalizeVariableMeasure t steps
    ⟨some name, none, .null, none, none, Exporter.measureOf measureArgument⟩).measure

theorem resolve_eq (measure argument : List Char) (displayName : Option (List Char)) :
    Importer.resolveMeasureArgument (some ⟨some measure, displayName, some argument, none⟩) =
      match (truthy (some measure)).or (truthy displayName), truthy (some argument) with
      | some measureName, some argument => some (dotted measureName argument)
      | _, _ => none := by
  unfold Importer.resolveMeasureArgument
  dsimp only
  rewrite [show truthy none = (none : Option (List Char)) from rfl, Option.or_none]
  rfl

/-- Without a reference a variable gets one if its name begins with an alias. -/
theorem referenceBack_of_measure_none {steps : List OsaStep} {name : List Char}
    {measureArgument : Option (List Char)} (h : Exporter.measureOf measureArgument = none) :
    referenceBack t steps name measureArgument =
      (splitDot name).bind fun parts =>
        (Importer.stepAlias t steps parts.1).bind fun target =>
          if parts.2 = [] then none else some (dotted target parts.2) := by
  unfold referenceBack Importer.normalizeVariableMeasure
  rw [h]
  dsimp only [Option.bind_some]
  cases splitDot name with
  | none => rfl
  | some parts =>
    obtain ⟨identifier, argument⟩ := parts
    dsimp only [Option.bind_some]
    cases halias : Importer.stepAlias t steps identifier with
    | none => rfl
    | some target =>
      have htarget := (ne_nil_of_identifies (stepAlias_eq_some_iff.mp halias).1).2
      dsimp only [Option.bind_some]
      rw [resolve_eq, truthy_some htarget]
      by_cases hargument : argument = []
      · rw [if_pos hargument, hargument]
        rfl
      · rw [if_neg hargument, truthy_some hargument]
        rfl

/-- With one it comes back under the alias's step. -/
theorem referenceBack_of_splitDot {steps : List OsaStep} {name ref measure argument : List Char}
    (h : splitDot ref = some (measure, argument)) :
    referenceBack t steps name (some ref) =
      if measure = [] ∨ argument = [] then none
      else some (dotted ((Importer.stepAlias t steps measure).getD measure) argument) := by
  have hmeasure : Exporter.measureOf (some ref) = some ⟨some measure, some measure, some argument,
      none⟩ := by
    show (splitDot ref).map _ = _
    rw [h]
    rfl
  have hargument : argument = [] → truthy (some argument) = none := by
    rintro rfl
    rfl
  unfold referenceBack Importer.normalizeVariableMeasure
  rw [hmeasure]
  dsimp only [Option.bind_some]
  cases halias : Importer.stepAlias t steps measure with
  | none =>
    show Importer.resolveMeasureArgument
      (some ⟨some measure, some measure, some argument, none⟩) = _
    rw [resolve_eq]
    by_cases hm : measure = []
    · rw [if_pos (.inl hm), hm]
      rfl
    · rw [truthy_some hm]
      by_cases ha : argument = []
      · rw [if_pos (.inr ha), hargument ha]
        rfl
      · rw [if_neg (not_or.mpr ⟨hm, ha⟩), truthy_some ha]
        rfl
  | some target =>
    obtain ⟨hm, htarget⟩ := ne_nil_of_identifies (stepAlias_eq_some_iff.mp halias).1
    dsimp only [Option.some_or]
    rw [resolve_eq, truthy_some htarget]
    by_cases ha : argument = []
    · rw [if_pos (.inr ha), hargument ha]
      rfl
    · rw [if_neg (not_or.mpr ⟨hm, ha⟩), truthy_some ha]
      rfl

theorem dotted_left_inj {q q' a : List Char} (h : dotted q a = dotted q' a) : q = q' :=
  List.append_cancel_right h

/-- A reference comes back exactly if it survives. -/
theorem referenceBack_eq_iff {steps : List OsaStep} {v : Variable} :
    referenceBack t steps v.name v.measureArgument = v.measureArgument ↔
      ReferenceSurvives t steps v := by
  unfold ReferenceSurvives
  cases href : v.measureArgument with
  | none =>
    rw [referenceBack_of_measure_none rfl]
    constructor
    · intro hnone identifier argument hsplit hargument target hrenames
      rw [hsplit, Option.bind_some, stepAlias_eq_some_iff.mpr hrenames, Option.bind_some,
        if_neg hargument] at hnone
      exact nomatch hnone
    · intro h
      refine Option.bind_eq_none_iff.mpr fun parts hsplit => ?_
      refine Option.bind_eq_none_iff.mpr fun target halias => ?_
      by_contra hne
      refine h parts.1 parts.2 hsplit (fun hargument => hne (if_pos hargument)) target ?_
      exact stepAlias_eq_some_iff.mp halias
  | some ref =>
    dsimp only
    cases hsplit : splitDot ref with
    | none =>
      have hmeasure : Exporter.measureOf (some ref) = none := by
        show (splitDot ref).map _ = none
        rw [hsplit]
        rfl
      refine iff_of_false (fun h => ?_) fun h => ?_
      · -- what comes back has a dot
        rw [referenceBack_of_measure_none hmeasure] at h
        obtain ⟨parts, -, h⟩ := Option.bind_eq_some_iff.mp h
        obtain ⟨target, -, h⟩ := Option.bind_eq_some_iff.mp h
        split at h
        · exact nomatch h
        · have hdot : '.' ∈ ref := by
            rw [← Option.some.inj h]
            exact List.mem_append_right target List.mem_cons_self
          unfold splitDot at hsplit
          rw [if_pos hdot] at hsplit
          exact nomatch hsplit
      · obtain ⟨_, _, h, -⟩ := h
        exact nomatch h
    | some parts =>
      obtain ⟨measure, argument⟩ := parts
      have heq := splitDot_eq_some hsplit
      rw [referenceBack_of_splitDot hsplit]
      constructor
      · intro h
        split at h
        · exact nomatch h
        next hne =>
          obtain ⟨hm, ha⟩ := not_or.mp hne
          refine ⟨measure, argument, rfl, hm, ha, fun target hrenames => ?_⟩
          rw [stepAlias_eq_some_iff.mpr hrenames, heq] at h
          exact dotted_left_inj (Option.some.inj h)
      · rintro ⟨measure', argument', hparts, hm, ha, hrenames⟩
        obtain ⟨rfl, rfl⟩ := Prod.mk.inj (Option.some.inj hparts)
        rw [if_neg (not_or.mpr ⟨hm, ha⟩), heq]
        congr 2
        cases halias : Importer.stepAlias t steps measure with
        | none => rfl
        | some target => exact hrenames target (stepAlias_eq_some_iff.mp halias)

end OSimFlow.Osa
