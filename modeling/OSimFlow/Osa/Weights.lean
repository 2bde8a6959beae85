import Mathlib.Algebra.Order.BigOperators.Group.List
import OSimFlow.Osa.Converters

/-!
# Lists of values and their weights

The exporter writes a weight for each value, if each has one; the importer makes a `pmf` of
them unless they are the same. The shares of the values are what they were if nothing but the
values has a weight, and values that are told apart by their weights have different texts.

> `listedBack_iff`: a list comes back with its shares exactly if it survives.

Weights are not negative.
-/

namespace OSimFlow.Osa

open OSimFlow.Lib OSimFlow.Algorithms.Sampling

variable {t : Texts}

/-! ## What is asked of a list -/

/-- What `pmf` has for the value: under itself, or else under its text. -/
def weightOf (t : Texts) (pmf : Dict Key Rat) (v : Value) : Option Rat :=
  v.key?.bind fun k => (pmf.get? k).or (pmf.get? (.text (v.text t)))

/-- The values have the same weight. -/
def Uniform (t : Texts) (values : List Value) (pmf : Dict Key Rat) : Prop :=
  ∀ v ∈ values, ∀ v' ∈ values, weightOf t pmf v = weightOf t pmf v'

/-- Each value has a weight, not all of them zero. If the weights are the same, `pmf` gives what
the bare list gives; else the values have different texts, and nothing else has a weight. -/
structure PmfSurvives (t : Texts) (values : List Value) (pmf : Dict Key Rat) : Prop where
  weighed : ∀ v ∈ values, weightOf t pmf v ≠ none
  positive : ∃ v ∈ values, weightOf t pmf v ≠ some 0
  even : Uniform t values pmf → ∀ k, share pmf k = evenShare values k
  texts : ¬ Uniform t values pmf → (values.map (Value.text t)).Nodup
  only : ¬ Uniform t values pmf → ∀ k, weight pmf k ≠ 0 → ∃ v ∈ values, v.key? = some k

/-- The values and what they map to are the same in JSON. -/
def ValuesSurvive (t : Texts) (v : Variable) : Prop :=
  Value.jsonItems t v.valueList = v.valueList ∧
    v.mapping.nonemptyDict.json t = v.mapping.nonemptyDict

/-- No weight is negative, which the samplers check. -/
def Nonnegative (v : Variable) : Prop := ∀ pmf, v.pmf = some pmf → ∀ k, 0 ≤ weight pmf k

/-! ## Weights -/

theorem pmfWeight_of_key {pmf : Dict Key Rat} {v : Value} {k : Key} (h : v.key? = some k) :
    Exporter.pmfWeight t pmf v = .ok (weightOf t pmf v) := by
  unfold Exporter.pmfWeight weightOf
  rw [h]
  rfl

/-- The weight that is exported, if there is one. -/
def weightAt (t : Texts) (pmf : Dict Key Rat) (v : Value) : Rat := (weightOf t pmf v).getD 0

theorem weightOf_eq {pmf : Dict Key Rat} {v : Value} (h : weightOf t pmf v ≠ none) :
    weightOf t pmf v = some (weightAt t pmf v) := by
  unfold weightAt
  cases hw : weightOf t pmf v with
  | none => exact absurd hw h
  | some w => rfl

/-- The loop gives every value's weight, or stops at one that has none. -/
theorem weightsLoop_cases (pmf : Dict Key Rat) (vs : List Value) :
    (Exporter.weightsLoop t pmf vs = .ok (some (vs.map (weightAt t pmf))) ∧
        ∀ v ∈ vs, weightOf t pmf v ≠ none) ∨
      ((∃ e, Exporter.weightsLoop t pmf vs = .error e) ∧ ∃ v ∈ vs, weightOf t pmf v = none) ∨
      (Exporter.weightsLoop t pmf vs = .ok none ∧
        ∃ v ∈ vs, ∃ k, v.key? = some k ∧ weightOf t pmf v = none) := by
  induction vs with
  | nil => exact .inl ⟨rfl, nofun⟩
  | cons v vs ih =>
    unfold Exporter.weightsLoop
    cases hkey : v.key? with
    | none =>
      have herror : Exporter.pmfWeight t pmf v = .error .unhashable := by
        unfold Exporter.pmfWeight
        rw [hkey]
      have hmissing : weightOf t pmf v = none := by
        unfold weightOf
        rw [hkey]
        rfl
      rw [herror]
      exact .inr (.inl ⟨⟨_, rfl⟩, v, List.mem_cons_self, hmissing⟩)
    | some k =>
      rw [pmfWeight_of_key hkey]
      cases hw : weightOf t pmf v with
      | none => exact .inr (.inr ⟨rfl, v, List.mem_cons_self, k, hkey, hw⟩)
      | some w =>
        dsimp only
        rcases ih with ⟨hloop, hall⟩ | ⟨⟨e, hloop⟩, v', hv', hmissing⟩ | ⟨hloop, v', hv', hmissing⟩
        · refine .inl ⟨?_, List.forall_mem_cons.mpr ⟨by rw [hw]; exact Option.some_ne_none w, hall⟩⟩
          rw [hloop, List.map_cons]
          unfold weightAt
          rw [hw]
          rfl
        · rw [hloop]
          exact .inr (.inl ⟨⟨e, rfl⟩, v', List.mem_cons_of_mem v hv', hmissing⟩)
        · rw [hloop]
          exact .inr (.inr ⟨rfl, v', List.mem_cons_of_mem v hv', hmissing⟩)

theorem numericWeights_some (ws : List Rat) : Importer.numericWeights (ws.map some) = .ok ws := by
  induction ws with
  | nil => rfl
  | cons w ws ih =>
    rw [List.map_cons, Importer.numericWeights, ih]

/-- A value with its weight, as an item of a dictionary. -/
def weightItem (t : Texts) (pmf : Dict Key Rat) (v : Value) : Key × Rat :=
  (v.key?.getD .null, weightAt t pmf v)

theorem key?_of_weightOf {pmf : Dict Key Rat} {v : Value} (h : weightOf t pmf v ≠ none) :
    v.key? = some (weightItem t pmf v).1 := by
  unfold weightItem
  cases hkey : v.key? with
  | none => exact absurd (by unfold weightOf; rw [hkey]; rfl) h
  | some k => rfl

theorem pmfOf_weights {pmf : Dict Key Rat} {vs : List Value}
    (h : ∀ v ∈ vs, weightOf t pmf v ≠ none) :
    Importer.pmfOf vs (vs.map (weightAt t pmf)) = .ok (vs.map (weightItem t pmf)) := by
  induction vs with
  | nil => rfl
  | cons v vs ih =>
    obtain ⟨hv, hrest⟩ := List.forall_mem_cons.mp h
    rw [List.map_cons, Importer.pmfOf, ih hrest, key?_of_weightOf hv]
    rfl

theorem allEqual_iff {pmf : Dict Key Rat} {vs : List Value}
    (h : ∀ v ∈ vs, weightOf t pmf v ≠ none) :
    Importer.AllEqual (vs.map (weightAt t pmf)) ↔ Uniform t vs pmf := by
  unfold Importer.AllEqual Uniform
  rw [List.forall_mem_map]
  refine forall₂_congr fun v hv => ?_
  rw [List.forall_mem_map]
  refine forall₂_congr fun v' hv' => ?_
  rw [weightOf_eq (h v hv), weightOf_eq (h v' hv'), Option.some_inj]

theorem weightAt_nonneg {pmf : Dict Key Rat} (hnonneg : ∀ k, 0 ≤ weight pmf k) (v : Value) :
    0 ≤ weightAt t pmf v := by
  unfold weightAt
  cases hw : weightOf t pmf v with
  | none => exact le_refl _
  | some w =>
    obtain ⟨k, -, hor⟩ := Option.bind_eq_some_iff.mp hw
    show 0 ≤ w
    rcases Option.or_eq_some_iff.mp hor with hget | ⟨-, hget⟩
    · rw [← weight_of_get? hget]
      exact hnonneg k
    · rw [← weight_of_get? hget]
      exact hnonneg _

/-- What the importer makes of the exported weights. -/
theorem buildPmf_weights {pmf : Dict Key Rat} {vs : List Value}
    (hweighed : ∀ v ∈ vs, weightOf t pmf v ≠ none) (hnonneg : ∀ k, 0 ≤ weight pmf k) :
    Importer.buildPmf t vs (some ((vs.map (weightAt t pmf)).map some)) =
      if ¬ ∃ v ∈ vs, weightOf t pmf v ≠ some 0 then .error .osaImportError
      else if Importer.AllEqual (vs.map (weightAt t pmf)) then .ok none
      else if ¬ (vs.map (Value.text t)).Nodup then .error .osaImportError
      else .ok (some (Dict.ofItems (vs.map (weightItem t pmf)))) := by
  have hlength : ((vs.map (weightAt t pmf)).map some).length = vs.length := by
    rw [List.length_map, List.length_map]
  have hsum : ((∃ w ∈ vs.map (weightAt t pmf), w < 0) ∨ (vs.map (weightAt t pmf)).sum ≤ 0) ↔
      ¬ ∃ v ∈ vs, weightOf t pmf v ≠ some 0 := by
    have hall : ∀ w ∈ vs.map (weightAt t pmf), 0 ≤ w :=
      List.forall_mem_map.mpr fun v _ => weightAt_nonneg hnonneg v
    constructor
    · rintro (⟨w, hw, hneg⟩ | hle) ⟨v, hv, hne⟩
      · exact absurd (hall w hw) (not_le.mpr hneg)
      · have hpos : 0 < weightAt t pmf v := by
          refine lt_of_le_of_ne (weightAt_nonneg hnonneg v) fun hzero => hne ?_
          rw [weightOf_eq (hweighed v hv), ← hzero]
        have hle' := List.single_le_sum hall _ (List.mem_map_of_mem hv)
        exact absurd (lt_of_lt_of_le hpos hle') (not_lt.mpr hle)
    · intro hnone
      refine .inr (le_of_eq (List.sum_eq_zero (List.forall_mem_map.mpr fun v hv => ?_)))
      by_contra hne
      refine hnone ⟨v, hv, fun hzero => hne ?_⟩
      unfold weightAt
      rw [hzero]
      rfl
  unfold Importer.buildPmf
  dsimp only
  rw [if_neg (not_not_intro hlength), numericWeights_some]
  dsimp only
  rw [pmfOf_weights hweighed]
  simp only [hsum]

theorem eq_str_of_key? {v : Value} {s : List Char} (h : v.key? = some (.text s)) : v = .str s := by
  cases v with
  | str s' => rw [(Key.text.inj (Option.some.inj h) : s' = s)]
  | _ => exact nomatch h

/-- Weights that differ make the same shares exactly if no other key has a weight. -/
theorem share_ofItems_iff {pmf : Dict Key Rat} {vs : List Value}
    (hweighed : ∀ v ∈ vs, weightOf t pmf v ≠ none) (hnonneg : ∀ k, 0 ≤ weight pmf k)
    (htexts : (vs.map (Value.text t)).Nodup) :
    (∀ k, share (Dict.ofItems (vs.map (weightItem t pmf))) k = share pmf k) ↔
      ∀ k, weight pmf k ≠ 0 → ∃ v ∈ vs, v.key? = some k := by
  have hkeys (k : Key) : k ∈ (Dict.ofItems (vs.map (weightItem t pmf))).keys ↔
      ∃ v ∈ vs, v.key? = some k := by
    rw [Dict.mem_keys_ofItems, List.map_map, List.mem_map]
    refine exists_congr fun v => and_congr_right fun hv => ?_
    rw [key?_of_weightOf (hweighed v hv), Option.some_inj]
    rfl
  constructor
  · intro hshare k hk
    have hne : share (Dict.ofItems (vs.map (weightItem t pmf))) k ≠ 0 := by
      rw [hshare]
      exact share_ne_zero hnonneg hk
    exact (hkeys k).mp (mem_keys_of_weight (weight_ne_zero_of_share hne))
  · intro honly
    refine share_congr fun k => ?_
    by_cases hk : k ∈ (Dict.ofItems (vs.map (weightItem t pmf))).keys
    · obtain ⟨w, hw⟩ := Dict.mem_keys_iff.mp hk
      obtain ⟨v, hv, hitem⟩ := List.mem_map.mp (Dict.mem_of_get?_ofItems hw)
      obtain rfl : weightAt t pmf v = w := congrArg Prod.snd hitem
      rw [weight_of_get? hw]
      have hkey : v.key? = some k := by
        rw [key?_of_weightOf (hweighed v hv), hitem]
      obtain ⟨k', hk', hor⟩ := Option.bind_eq_some_iff.mp (weightOf_eq (hweighed v hv))
      obtain rfl : k' = k := Option.some.inj (hk'.symm.trans hkey)
      rcases Option.or_eq_some_iff.mp hor with hget | ⟨hnone, hget⟩
      · exact (weight_of_get? hget).symm
      · -- a weight under the text is zero, or the text is a value of its own
        have hzero : weight pmf k' = 0 := by
          unfold weight
          rw [hnone]
          rfl
        rw [hzero]
        by_contra hne
        rw [← weight_of_get? hget] at hne
        obtain ⟨v', hv', hkey'⟩ := honly _ hne
        have hstr := eq_str_of_key? hkey'
        have htext : v'.text t = v.text t := by
          rw [hstr]
          rfl
        obtain rfl := List.inj_on_of_nodup_map htexts hv' hv htext
        rw [Option.some.inj (hkey.symm.trans hkey')] at hnone
        exact nomatch hnone.symm.trans hget
    · rw [weight_of_notMem hk]
      by_contra hne
      exact hk ((hkeys k).mpr (honly k (Ne.symm hne)))

theorem evenShare_ne_zero {vs : List Value} {v : Value} (hv : v ∈ vs) {k : Key}
    (hk : v.key? = some k) : evenShare vs k ≠ 0 := by
  have hcount : 0 < vs.countP fun v => decide (v.key? = some k) :=
    List.countP_pos_iff.mpr ⟨v, hv, decide_eq_true hk⟩
  have hlength := List.length_pos_of_mem hv
  unfold evenShare
  refine div_ne_zero ?_ ?_ <;> exact_mod_cast Nat.pos_iff_ne_zero.mp ‹_›

/-! ## Values in JSON -/

theorem nonemptyDict_cases (m : Value) :
    m.nonemptyDict = .null ∨ ∃ e entries, m.nonemptyDict = .dict (e :: entries) := by
  unfold Value.nonemptyDict
  split
  next e entries => exact .inr ⟨e, entries, rfl⟩
  next => exact .inl rfl

theorem nonemptyDict_idem (m : Value) : m.nonemptyDict.nonemptyDict = m.nonemptyDict := by
  rcases nonemptyDict_cases m with hnull | ⟨e, entries, hdict⟩
  · rw [hnull]
    rfl
  · rw [hdict]
    rfl

/-- A dictionary that is not empty stays one. -/
theorem nonemptyDict_json (m : Value) :
    (m.nonemptyDict.json t).nonemptyDict = m.nonemptyDict.json t := by
  rcases nonemptyDict_cases m with hnull | ⟨⟨k, v⟩, entries, hdict⟩
  · rw [hnull]
    rfl
  · rw [hdict]
    unfold Value.json
    have hkeys : k.keyText t ∈ (Dict.ofItems (Value.jsonEntries t ((k, v) :: entries))).keys :=
      Dict.mem_keys_ofItems.mpr List.mem_cons_self
    have hne : (Dict.ofItems (Value.jsonEntries t ((k, v) :: entries))).items ≠ [] := by
      intro hnil
      unfold Dict.keys at hkeys
      rw [hnil] at hkeys
      exact nomatch hkeys
    generalize (Dict.ofItems (Value.jsonEntries t ((k, v) :: entries))).items = items at hne
    cases items with
    | nil => exact absurd rfl hne
    | cons item items => rfl

/-! ## Distributions over values -/

/-- What comes back of a list of values. -/
theorem mapListed_eq (dist : Distribution) (type : OsaType) (vs : List Value)
    (weights : Option (List (Option Rat))) (m : Value) :
    Importer.mapDiscreteOrCategorical t dist (OsaDistribution.json t
        { type := type, values := some vs, weights := weights, mapping := m }) =
      if vs = [] then .error .osaImportError
      else
        match Importer.buildPmf t (Value.jsonItems t vs) weights with
        | .error e => .error e
        | .ok pmf =>
          .ok { name := [], distribution := some dist, values := some (Value.jsonItems t vs),
                pmf := pmf, mapping := (m.json t).nonemptyDict } := by
  cases vs with
  | nil => rfl
  | cons v vs => rfl

/-- The variable's values, shares and mapping come back. -/
def ListedBack (t : Texts) (dist : Distribution) (type : OsaType) (v : Variable) : Prop :=
  ∃ d entry, Exporter.convertListed t v type = .ok d ∧
    Importer.mapDiscreteOrCategorical t dist (d.json t) = .ok entry ∧
      entry.valueList = v.valueList ∧ (∀ k, entry.share k = v.share k) ∧
        entry.mapping.nonemptyDict = v.mapping.nonemptyDict

theorem listedBack_of_weights {dist : Distribution} {type : OsaType} {v : Variable}
    {weights : Option (List Rat)}
    (hweights : Exporter.pmfWeights t v.valueList v.pmf = .ok weights) :
    ListedBack t dist type v ↔ v.valueList ≠ [] ∧ ValuesSurvive t v ∧
      ∃ pmf, Importer.buildPmf t v.valueList (weights.map (List.map some)) = .ok pmf ∧
        ∀ k, (match pmf with | none => evenShare v.valueList k | some d => share d k) =
          v.share k := by
  unfold ListedBack Exporter.convertListed
  rw [hweights]
  dsimp only
  constructor
  · rintro ⟨d, entry, hd, hentry, hvalues, hshare, hmapping⟩
    obtain rfl := Except.ok.inj hd
    rw [mapListed_eq] at hentry
    split at hentry
    · exact nomatch hentry
    next hne =>
      split at hentry
      · exact nomatch hentry
      next pmf hpmf =>
        obtain rfl := Except.ok.inj hentry
        have hjson : Value.jsonItems t v.valueList = v.valueList := hvalues
        have hmap : ((v.mapping.nonemptyDict.json t).nonemptyDict).nonemptyDict =
            v.mapping.nonemptyDict := hmapping
        rw [nonemptyDict_idem, nonemptyDict_json] at hmap
        rw [hjson] at hpmf
        refine ⟨hne, ⟨hjson, hmap⟩, pmf, hpmf, fun k => ?_⟩
        rw [← hshare k]
        cases pmf with
        | none =>
          show evenShare v.valueList k = evenShare (Value.jsonItems t v.valueList) k
          rw [hjson]
        | some d => rfl
  · rintro ⟨hne, ⟨hjson, hmap⟩, pmf, hpmf, hshare⟩
    let entry : Variable :=
      { name := [], distribution := some dist, values := some v.valueList, pmf := pmf,
        mapping := v.mapping.nonemptyDict }
    refine ⟨_, entry, rfl, ?_, ?_, ?_, ?_⟩
    · rw [mapListed_eq, if_neg hne, hjson, hpmf, hmap, nonemptyDict_idem]
    · rfl
    · intro k
      rw [← hshare k]
      cases pmf <;> rfl
    · exact nonemptyDict_idem _

/-- A distribution over values comes back exactly if its values and weights survive. -/
theorem listedBack_iff {dist : Distribution} {type : OsaType} {v : Variable}
    (hnonneg : Nonnegative v) :
    ListedBack t dist type v ↔ v.valueList ≠ [] ∧ ValuesSurvive t v ∧
      ∀ pmf, v.pmf = some pmf → PmfSurvives t v.valueList pmf := by
  by_cases hne : v.valueList = []
  · refine iff_of_false ?_ fun h => h.1 hne
    rintro ⟨d, entry, hd, hentry, -⟩
    unfold Exporter.convertListed at hd
    split at hd
    · exact nomatch hd
    · obtain rfl := Except.ok.inj hd
      rw [mapListed_eq, if_pos hne] at hentry
      exact nomatch hentry
  cases hpmf : v.pmf with
  | none =>
    have hweights : Exporter.pmfWeights t v.valueList v.pmf = .ok none := by
      rw [hpmf]
      rfl
    rw [listedBack_of_weights hweights]
    refine and_congr_right fun _ => and_congr_right fun _ => iff_of_true ?_ nofun
    refine ⟨none, rfl, fun k => ?_⟩
    unfold Variable.share
    rw [hpmf]
  | some pmf =>
    have hshare (k : Key) : v.share k = share pmf k := by
      unfold Variable.share
      rw [hpmf]
    have hloop : Exporter.pmfWeights t v.valueList v.pmf =
        Exporter.weightsLoop t pmf v.valueList := by
      rw [hpmf]
      exact if_neg hne
    have hsurvive : (∀ pmf', some pmf = some pmf' → PmfSurvives t v.valueList pmf') ↔
        PmfSurvives t v.valueList pmf :=
      ⟨fun h => h pmf rfl, fun h pmf' heq => Option.some.inj heq ▸ h⟩
    rw [hsurvive]
    rcases weightsLoop_cases (t := t) pmf v.valueList with
      ⟨hall, hweighed⟩ | ⟨⟨e, herror⟩, u, hu, hmissing⟩ | ⟨hnone, u, hu, k, hkey, hmissing⟩
    · rw [listedBack_of_weights (hloop.trans hall)]
      refine and_congr_right fun _ => and_congr_right fun _ => ?_
      rw [Option.map_some, buildPmf_weights hweighed (hnonneg pmf hpmf)]
      simp only [hshare]
      by_cases hpositive : ∃ u ∈ v.valueList, weightOf t pmf u ≠ some 0
      swap
      · rw [if_pos hpositive]
        exact iff_of_false (fun h => nomatch h) fun h => hpositive h.positive
      rw [if_neg (not_not_intro hpositive)]
      by_cases huniform : Uniform t v.valueList pmf
      · rw [if_pos ((allEqual_iff hweighed).mpr huniform)]
        constructor
        · rintro ⟨pmf', hpmf', heven⟩
          obtain rfl := Except.ok.inj hpmf'
          exact ⟨hweighed, hpositive, fun _ k => (heven k).symm, absurd huniform,
            absurd huniform⟩
        · intro h
          exact ⟨none, rfl, fun k => (h.even huniform k).symm⟩
      rw [if_neg fun h => huniform ((allEqual_iff hweighed).mp h)]
      by_cases htexts : (v.valueList.map (Value.text t)).Nodup
      · rw [if_neg (not_not_intro htexts)]
        constructor
        · rintro ⟨pmf', hpmf', hsame⟩
          obtain rfl := Except.ok.inj hpmf'
          have honly := (share_ofItems_iff hweighed (hnonneg pmf hpmf) htexts).mp hsame
          exact ⟨hweighed, hpositive, fun h => absurd h huniform, fun _ => htexts,
            fun _ => honly⟩
        · intro h
          have hsame := (share_ofItems_iff hweighed (hnonneg pmf hpmf) htexts).mpr
            (h.only huniform)
          exact ⟨_, rfl, hsame⟩
      · rw [if_pos htexts]
        exact iff_of_false (fun h => nomatch h) fun h => htexts (h.texts huniform)
    · refine iff_of_false ?_ fun h => h.2.2.weighed u hu hmissing
      rintro ⟨d, entry, hd, -⟩
      unfold Exporter.convertListed at hd
      rw [hloop, herror] at hd
      exact nomatch hd
    · -- the weights are left out, so that the value without one gets a share
      rw [listedBack_of_weights (hloop.trans hnone)]
      refine iff_of_false ?_ fun h => h.2.2.weighed u hu hmissing
      rintro ⟨-, -, pmf', hpmf', heven⟩
      obtain rfl := Except.ok.inj hpmf'
      have hzero : share pmf k = 0 := by
        have hnotMem : pmf.get? k = none := by
          unfold weightOf at hmissing
          rw [hkey] at hmissing
          exact (Option.or_eq_none_iff.mp hmissing).1
        unfold share weight
        rw [hnotMem]
        exact zero_div _
      refine evenShare_ne_zero hu hkey ((heven k).trans ?_)
      rw [hshare, hzero]

end OSimFlow.Osa
