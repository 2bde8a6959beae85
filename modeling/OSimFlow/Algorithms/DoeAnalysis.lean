import Mathlib.Algebra.BigOperators.Ring.List
import Mathlib.Algebra.Order.BigOperators.Group.List
import Mathlib.Algebra.Order.Field.Basic
import Mathlib.Data.List.Dedup
import Mathlib.Data.Rat.Defs
import Mathlib.Tactic.FieldSimp
import Mathlib.Tactic.Linarith
import Mathlib.Tactic.Ring
import OSimFlow.Lib.Least

/-!
# The effects of a design of experiments

`DOEAnalysis` groups the results of a campaign by the levels of each factor, takes the mean
of the response at each level that has enough samples, and makes one number of the means:
their own mean, less the mean of the response. Its square, in percent of the sum over all
factors and interactions, ranks the factors.

> `Measures`: a factor whose level means are all equal has no effect, one whose design is
> balanced and whose level means differ has one, the contributions are percents, and they
> rank the factors without interactions by the variance their level means explain.

The mean of the level means says nothing about how far they are apart. It differs from the
mean of the response only by how unevenly the samples are spread over the levels
(`effectSize_eq_unevenness`), so in a balanced design every factor has the effect zero.
`measures_iff` says when `Measures` holds all the same (`Lucky`).

Cells are exact numbers or missing. The tests and the error estimates of the effects are
left out: the ranking does not read them.
-/

namespace OSimFlow.Algorithms.DoeAnalysis

open OSimFlow.Lib (pairwise_insertionSort_iff)

/-- The results, with their numeric columns. -/
structure Table (K : Type) where
  columns : List String
  rows : List (String → Option K)
  responseCol : String
  minSamplesPerLevel : Nat

/-- The fields of `MainEffect` that the ranking reads, and the levels. -/
structure MainEffect (K : Type) where
  factor : String
  effectSize : K
  levels : List K
  means : List K
  counts : List Nat

/-- An interaction of two factors; a sum of squares is not negative. -/
structure InteractionEffect (K : Type) [Zero K] [LE K] where
  factorA : String
  factorB : String
  sseInteraction : K
  sse_nonneg : 0 ≤ sseInteraction

structure FactorSensitivity (K : Type) where
  factor : String
  mainEffect : K
  interactionEffect : K
  totalEffect : K
  percentContribution : K

section

variable {K : Type} [Field K] [LinearOrder K]

/-- `np.mean`. -/
def mean (values : List K) : K := values.sum / values.length

/-- `_factors`. -/
def Table.factors (t : Table K) : List String :=
  t.columns.filter fun c => c ≠ "sample_id" ∧ c ≠ t.responseCol

/-- `df.dropna(subset=[factor, response_col])`, as level and response. -/
def Table.samples (t : Table K) (factor : String) : List (K × K) :=
  t.rows.filterMap fun row =>
    match row factor, row t.responseCol with
    | some level, some response => some (level, response)
    | _, _ => none

/-- The responses at a level. -/
def group (samples : List (K × K)) (level : K) : List K :=
  (samples.filter fun s => s.1 = level).map Prod.snd

/-- `groupby(factor, sort=True)`. -/
def levelsOf (samples : List (K × K)) : List K :=
  (samples.map Prod.fst).dedup.insertionSort (· ≤ ·)

/-- The levels with enough samples. -/
def Table.kept (t : Table K) (factor : String) : List K :=
  (levelsOf (t.samples factor)).filter fun level =>
    t.minSamplesPerLevel ≤ (group (t.samples factor) level).length

def Table.levelMeans (t : Table K) (factor : String) : List K :=
  (t.kept factor).map fun level => mean (group (t.samples factor) level)

/-- The mean of the response, over all levels. -/
def Table.grandMean (t : Table K) (factor : String) : K :=
  mean ((t.samples factor).map Prod.snd)

/-- `_compute_single_main_effect`. -/
def Table.mainEffect (t : Table K) (factor : String) : Option (MainEffect K) :=
  if (t.samples factor).length < t.minSamplesPerLevel then none
  else if (t.kept factor).length < 2 then none
  else some
    { factor
      effectSize :=
        if t.grandMean factor = 0 then 0 else mean (t.levelMeans factor) - t.grandMean factor
      levels := t.kept factor
      means := t.levelMeans factor
      counts := (t.kept factor).map fun level => (group (t.samples factor) level).length }

/-- `compute_main_effects`. -/
def Table.mainEffects (t : Table K) : List (MainEffect K) := t.factors.filterMap t.mainEffect

/-- The sum of the squares of the interactions of a factor. -/
def interactionSse (interactions : List (InteractionEffect K)) (factor : String) : K :=
  ((interactions.filter fun ie => factor = ie.factorA ∨ factor = ie.factorB).map
    (·.sseInteraction)).sum

def totalSse (effects : List (MainEffect K)) (interactions : List (InteractionEffect K)) : K :=
  let total := (effects.map fun me => me.effectSize ^ 2).sum +
    (interactions.map (·.sseInteraction)).sum
  if total = 0 then 1 else total

/-- The entry of a factor; `sqrt` is `** 0.5`. -/
def sensitivityOf (sqrt : K → K) (effects : List (MainEffect K))
    (interactions : List (InteractionEffect K)) (me : MainEffect K) : FactorSensitivity K :=
  let sse := interactionSse interactions me.factor
  let total := me.effectSize ^ 2 + sse
  { factor := me.factor
    mainEffect := me.effectSize
    interactionEffect := sqrt sse
    totalEffect := sqrt total
    percentContribution := 100 * total / totalSse effects interactions }

/-- `compute_factor_sensitivity`; the sort is stable. -/
def Table.factorSensitivity (t : Table K) (sqrt : K → K)
    (interactions : List (InteractionEffect K)) : List (FactorSensitivity K) :=
  (t.mainEffects.map (sensitivityOf sqrt t.mainEffects interactions)).insertionSort
    fun a b => b.percentContribution ≤ a.percentContribution

/-! ## What the numbers should say -/

/-- No interaction names the factor. -/
def Alone (interactions : List (InteractionEffect K)) (factor : String) : Prop :=
  ∀ ie ∈ interactions, factor ≠ ie.factorA ∧ factor ≠ ie.factorB

/-- All level means are the same. -/
def Table.Flat (t : Table K) (factor : String) : Prop :=
  ∀ m ∈ t.levelMeans factor, ∀ m' ∈ t.levelMeans factor, m = m'

/-- All levels have equally many samples, and enough. -/
def Table.Balanced (t : Table K) (factor : String) : Prop :=
  ∃ c, t.minSamplesPerLevel ≤ c ∧
    ∀ level ∈ levelsOf (t.samples factor), (group (t.samples factor) level).length = c

/-- The responses at the levels with enough samples. -/
def Table.counted (t : Table K) (factor : String) : List K :=
  (t.kept factor).flatMap (group (t.samples factor))

/-- The variance that the level means explain: that of the level means, each as often as
its level has samples. -/
def Table.explained (t : Table K) (factor : String) : K :=
  ((t.kept factor).map fun level =>
    ((group (t.samples factor) level).length : K) *
      (mean (group (t.samples factor) level) - mean (t.counted factor)) ^ 2).sum /
    (t.counted factor).length

structure Table.Measures (t : Table K) (sqrt : K → K)
    (interactions : List (InteractionEffect K)) : Prop where
  flat : ∀ me ∈ t.mainEffects, t.Flat me.factor → me.effectSize = 0
  sees : ∀ me ∈ t.mainEffects, t.Balanced me.factor → ¬ t.Flat me.factor → me.effectSize ≠ 0
  percent : ∀ s ∈ t.factorSensitivity sqrt interactions,
    0 ≤ s.percentContribution ∧ s.percentContribution ≤ 100
  ranked : (t.factorSensitivity sqrt interactions).Pairwise fun a b =>
    Alone interactions a.factor → Alone interactions b.factor →
      t.explained b.factor ≤ t.explained a.factor

/-! ## When they say it -/

/-- The responses at the levels with too few samples. -/
def Table.sparse (t : Table K) (factor : String) : List K :=
  ((levelsOf (t.samples factor)).filter fun level =>
    ¬ t.minSamplesPerLevel ≤ (group (t.samples factor) level).length).flatMap
      (group (t.samples factor))

/-- What an uneven spread of the samples over the levels makes: each level mean counts by
how much the share of its level falls short of an equal share, and the levels with too few
samples count against it. Where the mean of the response is zero, nothing counts. -/
def Table.unevenness (t : Table K) (factor : String) : K :=
  if t.grandMean factor = 0 then 0
  else
    ((t.kept factor).map fun level =>
      (1 / ((t.kept factor).length : K) -
        ((group (t.samples factor) level).length : K) / ((t.samples factor).length : K)) *
        mean (group (t.samples factor) level)).sum -
      (t.sparse factor).sum / ((t.samples factor).length : K)

/-- A factor with equal level means has no sparse levels that differ from them, no balanced
factor has level means that differ, and of two factors without interactions the one with the
more uneven samples, or the earlier one, explains no less. -/
structure Table.Lucky (t : Table K) (interactions : List (InteractionEffect K)) : Prop where
  flat : ∀ me ∈ t.mainEffects, t.Flat me.factor → t.grandMean me.factor = 0 ∨
    ∀ m ∈ t.levelMeans me.factor,
      (t.sparse me.factor).sum = ((t.sparse me.factor).length : K) * m
  unbalanced : ∀ me ∈ t.mainEffects, t.Balanced me.factor → t.Flat me.factor
  ordered : t.mainEffects.Pairwise fun a b =>
    Alone interactions a.factor → Alone interactions b.factor →
      (t.unevenness b.factor ^ 2 ≤ t.unevenness a.factor ^ 2 →
        t.explained b.factor ≤ t.explained a.factor) ∧
      (¬ t.unevenness b.factor ^ 2 ≤ t.unevenness a.factor ^ 2 →
        t.explained a.factor ≤ t.explained b.factor)

end

/-! ## Groups -/

section

variable {K : Type} [Field K] [LinearOrder K]

omit [Field K] in
/-- Every sample is in the group of its level. -/
theorem perm_flatMap_group :
    ∀ (levels : List K) (samples : List (K × K)), levels.Nodup →
      (∀ s ∈ samples, s.1 ∈ levels) →
      (levels.flatMap (group samples)).Perm (samples.map Prod.snd) := by
  intro levels
  induction levels with
  | nil =>
    intro samples _ hall
    have hnil : samples = [] :=
      List.eq_nil_iff_forall_not_mem.mpr fun s hs => List.not_mem_nil (hall s hs)
    rw [hnil]
    exact List.Perm.nil
  | cons level levels ih =>
    intro samples hnodup hall
    obtain ⟨hnot, hnodup⟩ := List.nodup_cons.mp hnodup
    -- the other groups are those of the other samples
    have hothers : levels.flatMap (group samples) =
        levels.flatMap (group (samples.filter fun s => ¬ s.1 = level)) := by
      refine List.flatMap_congr fun other hother => ?_
      unfold group
      rw [List.filter_filter]
      refine congrArg (List.map Prod.snd) (List.filter_congr fun s _ => ?_)
      by_cases hs : s.1 = other
      · have hne : ¬ other = level := fun h => hnot (h ▸ hother)
        simp [hs, hne]
      · simp [hs]
    have hrest := ih (samples.filter fun s => ¬ s.1 = level) hnodup fun s hs => by
      obtain ⟨hmem, hne⟩ := List.mem_filter.mp hs
      exact (List.mem_cons.mp (hall s hmem)).resolve_left (of_decide_eq_true hne)
    rw [List.flatMap_cons, hothers]
    refine (List.Perm.append_left _ hrest).trans ?_
    unfold group
    rw [← List.map_append]
    have hsplit := List.filter_append_perm (fun s : K × K => decide (s.1 = level)) samples
    simp only [← decide_not] at hsplit
    exact hsplit.map Prod.snd

omit [Field K] in
theorem mem_levelsOf {samples : List (K × K)} {level : K} :
    level ∈ levelsOf samples ↔ ∃ s ∈ samples, s.1 = level := by
  rw [levelsOf, List.mem_insertionSort, List.mem_dedup, List.mem_map]

omit [Field K] in
theorem nodup_levelsOf (samples : List (K × K)) : (levelsOf samples).Nodup :=
  (List.perm_insertionSort _ _).nodup_iff.mpr (List.nodup_dedup _)

omit [Field K] in
theorem length_group_pos {samples : List (K × K)} {level : K} (h : level ∈ levelsOf samples) :
    0 < (group samples level).length := by
  obtain ⟨s, hs, heq⟩ := mem_levelsOf.mp h
  have hmem : s.2 ∈ group samples level :=
    List.mem_map_of_mem (List.mem_filter.mpr ⟨hs, decide_eq_true heq⟩)
  exact List.length_pos_of_mem hmem

omit [Field K] in
theorem levels_of_kept {t : Table K} {factor : String} {level : K}
    (h : level ∈ t.kept factor) : level ∈ levelsOf (t.samples factor) :=
  List.mem_of_mem_filter h

omit [Field K] in
/-- The responses are those at the levels with enough samples and those at the others. -/
theorem counted_append_sparse (t : Table K) (factor : String) :
    (t.counted factor ++ t.sparse factor).Perm ((t.samples factor).map Prod.snd) := by
  have hall := perm_flatMap_group (levelsOf (t.samples factor)) (t.samples factor)
    (nodup_levelsOf _) fun s hs => mem_levelsOf.mpr ⟨s, hs, rfl⟩
  have hsplit := List.filter_append_perm (fun level => decide
    (t.minSamplesPerLevel ≤ (group (t.samples factor) level).length))
    (levelsOf (t.samples factor))
  simp only [← decide_not] at hsplit
  have := hsplit.flatMap_right (group (t.samples factor))
  rw [List.flatMap_append] at this
  exact this.trans hall

variable [IsStrictOrderedRing K]

/-- A sum is a mean as often as it has terms. -/
theorem length_mul_mean {values : List K} (h : 0 < values.length) :
    (values.length : K) * mean values = values.sum := by
  have hne : (values.length : K) ≠ 0 := Nat.cast_ne_zero.mpr (by omega)
  rw [mean]
  exact mul_div_cancel₀ _ hne

theorem sum_counted (t : Table K) (factor : String) :
    (t.counted factor).sum = ((t.kept factor).map fun level =>
      ((group (t.samples factor) level).length : K) *
        mean (group (t.samples factor) level)).sum := by
  have hsum : (t.counted factor).sum =
      ((t.kept factor).map fun level => (group (t.samples factor) level).sum).sum := by
    rw [Table.counted, List.flatMap, List.sum_flatten, List.map_map]
    rfl
  rw [hsum]
  refine congrArg List.sum (List.map_congr_left fun level hlevel => ?_)
  exact (length_mul_mean (length_group_pos (levels_of_kept hlevel))).symm

omit [IsStrictOrderedRing K] in
theorem sum_responses (t : Table K) (factor : String) :
    ((t.samples factor).map Prod.snd).sum =
      (t.counted factor).sum + (t.sparse factor).sum := by
  rw [← (counted_append_sparse t factor).sum_eq, List.sum_append]

omit [Field K] [IsStrictOrderedRing K] in
theorem length_samples (t : Table K) (factor : String) :
    (t.samples factor).length = (t.counted factor).length + (t.sparse factor).length := by
  have := (counted_append_sparse t factor).length_eq
  rw [List.length_append, List.length_map] at this
  exact this.symm

/-! ## The effect size -/

omit [IsStrictOrderedRing K] in
theorem mainEffect_eq {t : Table K} {factor : String} {me : MainEffect K}
    (h : t.mainEffect factor = some me) :
    2 ≤ (t.kept factor).length ∧ me.factor = factor ∧
      me.effectSize =
        if t.grandMean factor = 0 then 0
        else mean (t.levelMeans factor) - t.grandMean factor := by
  unfold Table.mainEffect at h
  split at h
  next => exact nomatch h
  next =>
    split at h
    next => exact nomatch h
    next hkept =>
      obtain rfl := Option.some.inj h
      exact ⟨by omega, rfl, rfl⟩

omit [IsStrictOrderedRing K] in
theorem mainEffects_spec {t : Table K} {me : MainEffect K} (h : me ∈ t.mainEffects) :
    2 ≤ (t.kept me.factor).length ∧
      me.effectSize =
        if t.grandMean me.factor = 0 then 0
        else mean (t.levelMeans me.factor) - t.grandMean me.factor := by
  obtain ⟨factor, _, hfactor⟩ := List.mem_filterMap.mp h
  obtain ⟨htwo, hname, heffect⟩ := mainEffect_eq hfactor
  rw [hname]
  exact ⟨htwo, heffect⟩

omit [Field K] [IsStrictOrderedRing K] in
theorem length_samples_pos {t : Table K} {factor : String} (h : 1 ≤ (t.kept factor).length) :
    0 < (t.samples factor).length := by
  obtain ⟨level, hlevel⟩ := List.exists_mem_of_length_pos h
  obtain ⟨s, hs, _⟩ := mem_levelsOf.mp (levels_of_kept hlevel)
  exact List.length_pos_of_mem hs

omit [LinearOrder K] [IsStrictOrderedRing K] in
theorem cast_sum_eq {β : Type} (l : List β) (count : β → Nat) :
    (((l.map count).sum : Nat) : K) = (l.map fun x => (count x : K)).sum := by
  induction l with
  | nil => exact Nat.cast_zero
  | cons x l ih => rw [List.map_cons, List.map_cons, List.sum_cons, List.sum_cons, Nat.cast_add, ih]

omit [LinearOrder K] [IsStrictOrderedRing K] in
theorem sum_weights {β : Type} (a b : K) (share value : β → K) (l : List β) :
    (l.map fun x => (a - share x / b) * value x).sum =
      a * (l.map value).sum - (l.map fun x => share x * value x).sum / b := by
  induction l with
  | nil => simp
  | cons x l ih =>
    rw [List.map_cons, List.map_cons, List.map_cons, List.sum_cons, List.sum_cons,
      List.sum_cons, ih]
    ring

/-- The effect size is all unevenness. -/
theorem effectSize_eq_unevenness {t : Table K} {me : MainEffect K} (h : me ∈ t.mainEffects) :
    me.effectSize = t.unevenness me.factor := by
  obtain ⟨htwo, heffect⟩ := mainEffects_spec h
  rw [heffect, Table.unevenness]
  split
  · rfl
  · have hmean : mean (t.levelMeans me.factor) =
        1 / ((t.kept me.factor).length : K) * (t.levelMeans me.factor).sum := by
      rw [mean, Table.levelMeans, List.length_map, div_eq_mul_one_div, mul_comm]
    have hgrand : t.grandMean me.factor =
        ((t.counted me.factor).sum + (t.sparse me.factor).sum) /
          ((t.samples me.factor).length : K) := by
      rw [Table.grandMean, mean, List.length_map, sum_responses]
    have hweights := sum_weights (1 / ((t.kept me.factor).length : K))
      ((t.samples me.factor).length : K)
      (fun level => ((group (t.samples me.factor) level).length : K))
      (fun level => mean (group (t.samples me.factor) level)) (t.kept me.factor)
    rw [hweights, ← sum_counted, hmean, hgrand, add_div]
    exact sub_add_eq_sub_sub _ _ _

/-- In a balanced design nothing is uneven. -/
theorem unevenness_of_balanced {t : Table K} {factor : String} (h : t.Balanced factor)
    (htwo : 2 ≤ (t.kept factor).length) : t.unevenness factor = 0 := by
  obtain ⟨c, hmin, hc⟩ := h
  have hkept : t.kept factor = levelsOf (t.samples factor) := by
    refine List.filter_eq_self.mpr fun level hlevel => decide_eq_true ?_
    rw [hc level hlevel]
    exact hmin
  have hsparse : t.sparse factor = [] := by
    have hnone : ((levelsOf (t.samples factor)).filter fun level => decide
        ¬ t.minSamplesPerLevel ≤ (group (t.samples factor) level).length) = [] := by
      refine List.filter_eq_nil_iff.mpr fun level hlevel => ?_
      rw [hc level hlevel, decide_eq_true_eq]
      exact fun hn => hn hmin
    rw [Table.sparse, hnone, List.flatMap_nil]
  have hlength : (t.samples factor).length = (t.kept factor).length * c := by
    rw [length_samples, hsparse, List.length_nil, Nat.add_zero, Table.counted,
      List.length_flatMap]
    have hsame : (t.kept factor).map (fun level => (group (t.samples factor) level).length) =
        (t.kept factor).map fun _ => c :=
      List.map_congr_left fun level hlevel => hc level (levels_of_kept hlevel)
    rw [hsame, List.map_const', List.sum_replicate_nat]
  have hpos := length_samples_pos (Nat.le_of_succ_le htwo)
  have hkeptK : ((t.kept factor).length : K) ≠ 0 := Nat.cast_ne_zero.mpr (by omega)
  have hcK : (c : K) ≠ 0 := by
    refine Nat.cast_ne_zero.mpr fun hzero => ?_
    rw [hzero, Nat.mul_zero] at hlength
    omega
  rw [Table.unevenness]
  split
  · rfl
  · rw [hsparse, List.sum_nil, zero_div, sub_zero]
    refine List.sum_eq_zero fun x hx => ?_
    obtain ⟨level, hlevel, rfl⟩ := List.mem_map.mp hx
    have hshare : 1 / ((t.kept factor).length : K) -
        ((group (t.samples factor) level).length : K) / ((t.samples factor).length : K) = 0 := by
      rw [hc level (levels_of_kept hlevel), hlength, Nat.cast_mul]
      field_simp
      ring
    rw [hshare, zero_mul]

/-- Equal level means are the mean of the response just when the sparse levels agree. -/
theorem flat_iff {t : Table K} {me : MainEffect K} (h : me ∈ t.mainEffects)
    (hflat : t.Flat me.factor) :
    me.effectSize = 0 ↔ t.grandMean me.factor = 0 ∨ ∀ m ∈ t.levelMeans me.factor,
      (t.sparse me.factor).sum = ((t.sparse me.factor).length : K) * m := by
  obtain ⟨htwo, heffect⟩ := mainEffects_spec h
  have hlen : (t.levelMeans me.factor).length = (t.kept me.factor).length := List.length_map _
  obtain ⟨m, hm⟩ := List.exists_mem_of_length_pos (by omega : 0 < (t.levelMeans me.factor).length)
  have hmean : mean (t.levelMeans me.factor) = m := by
    have hall : t.levelMeans me.factor = List.replicate (t.levelMeans me.factor).length m :=
      List.eq_replicate_of_mem fun m' hm' => hflat m' hm' m hm
    have hne : ((t.levelMeans me.factor).length : K) ≠ 0 := Nat.cast_ne_zero.mpr (by omega)
    rw [mean]
    nth_rewrite 1 [hall]
    rw [List.sum_replicate, nsmul_eq_mul, mul_div_cancel_left₀ m hne]
  -- the counted responses add up to their common mean as often as there are some
  have hcounted : (t.counted me.factor).sum = ((t.counted me.factor).length : K) * m := by
    rw [sum_counted, Table.counted, List.length_flatMap]
    have hterm : ((t.kept me.factor).map fun level =>
        ((group (t.samples me.factor) level).length : K) *
          mean (group (t.samples me.factor) level)) =
        (t.kept me.factor).map fun level =>
          ((group (t.samples me.factor) level).length : K) * m := by
      refine List.map_congr_left fun level hlevel => ?_
      rw [hflat _ (List.mem_map_of_mem hlevel) m hm]
    rw [hterm, List.sum_map_mul_right, cast_sum_eq]
  have hN : ((t.samples me.factor).length : K) ≠ 0 :=
    Nat.cast_ne_zero.mpr (Nat.ne_of_gt (length_samples_pos (Nat.le_of_succ_le htwo)))
  have hsamples : ((t.samples me.factor).length : K) =
      ((t.counted me.factor).length : K) + ((t.sparse me.factor).length : K) := by
    rw [length_samples, Nat.cast_add]
  have hgrand : t.grandMean me.factor = m ↔
      (t.sparse me.factor).sum = ((t.sparse me.factor).length : K) * m := by
    rw [Table.grandMean, mean, List.length_map, sum_responses, hcounted, div_eq_iff hN, hsamples]
    constructor
    · intro heq
      linarith
    · intro heq
      linarith
  have hall : (∀ m' ∈ t.levelMeans me.factor,
      (t.sparse me.factor).sum = ((t.sparse me.factor).length : K) * m') ↔
      (t.sparse me.factor).sum = ((t.sparse me.factor).length : K) * m :=
    ⟨fun hs => hs m hm, fun hs m' hm' => hflat m hm m' hm' ▸ hs⟩
  rw [heffect, hmean, hall, ← hgrand]
  split
  next hzero => exact iff_of_true rfl (.inl hzero)
  next hzero => rw [sub_eq_zero, or_iff_right hzero, eq_comm]

/-! ## Contributions and ranking -/

theorem sum_sse_nonneg (interactions : List (InteractionEffect K)) :
    0 ≤ (interactions.map (·.sseInteraction)).sum :=
  List.sum_nonneg fun x hx => by
    obtain ⟨ie, _, rfl⟩ := List.mem_map.mp hx
    exact ie.sse_nonneg

theorem sum_sq_nonneg (effects : List (MainEffect K)) :
    0 ≤ (effects.map fun me => me.effectSize ^ 2).sum :=
  List.sum_nonneg fun x hx => by
    obtain ⟨me, _, rfl⟩ := List.mem_map.mp hx
    exact sq_nonneg _

theorem totalSse_pos (effects : List (MainEffect K))
    (interactions : List (InteractionEffect K)) : 0 < totalSse effects interactions := by
  have hnonneg := add_nonneg (sum_sq_nonneg effects) (sum_sse_nonneg interactions)
  unfold totalSse
  dsimp only
  split
  · exact one_pos
  next hne => exact lt_of_le_of_ne hnonneg (Ne.symm hne)

theorem interactionSse_le (interactions : List (InteractionEffect K)) (factor : String) :
    0 ≤ interactionSse interactions factor ∧
      interactionSse interactions factor ≤ (interactions.map (·.sseInteraction)).sum := by
  refine ⟨sum_sse_nonneg _, ?_⟩
  refine (List.filter_sublist.map _).sum_le_sum fun x hx => ?_
  obtain ⟨ie, _, rfl⟩ := List.mem_map.mp hx
  exact ie.sse_nonneg

/-- The part of a factor is a part of the whole. -/
theorem part_le_total {effects : List (MainEffect K)}
    (interactions : List (InteractionEffect K)) {me : MainEffect K} (h : me ∈ effects) :
    me.effectSize ^ 2 + interactionSse interactions me.factor ≤
      totalSse effects interactions := by
  have hsquare : me.effectSize ^ 2 ≤ (effects.map fun me => me.effectSize ^ 2).sum :=
    List.single_le_sum (fun x hx => by
      obtain ⟨other, _, rfl⟩ := List.mem_map.mp hx
      exact sq_nonneg _) _ (List.mem_map_of_mem h)
  have hle := add_le_add hsquare (interactionSse_le interactions me.factor).2
  unfold totalSse
  dsimp only
  split
  next hzero => exact (hzero ▸ hle).trans zero_le_one
  next => exact hle

theorem percent_bounds {effects : List (MainEffect K)}
    (interactions : List (InteractionEffect K)) (sqrt : K → K) {me : MainEffect K}
    (h : me ∈ effects) :
    0 ≤ (sensitivityOf sqrt effects interactions me).percentContribution ∧
      (sensitivityOf sqrt effects interactions me).percentContribution ≤ 100 := by
  have hpos := totalSse_pos effects interactions
  have hpart := part_le_total interactions h
  have hnonneg : 0 ≤ me.effectSize ^ 2 + interactionSse interactions me.factor :=
    add_nonneg (sq_nonneg _) (interactionSse_le interactions me.factor).1
  show 0 ≤ 100 * (me.effectSize ^ 2 + interactionSse interactions me.factor) /
      totalSse effects interactions ∧
    100 * (me.effectSize ^ 2 + interactionSse interactions me.factor) /
      totalSse effects interactions ≤ 100
  constructor
  · exact div_nonneg (mul_nonneg (by norm_num) hnonneg) (le_of_lt hpos)
  · rw [div_le_iff₀ hpos]
    exact mul_le_mul_of_nonneg_left hpart (by norm_num)

omit [IsStrictOrderedRing K] in
theorem interactionSse_of_alone {interactions : List (InteractionEffect K)} {factor : String}
    (h : Alone interactions factor) : interactionSse interactions factor = 0 := by
  have hnone : interactions.filter (fun ie => decide
      (factor = ie.factorA ∨ factor = ie.factorB)) = [] := by
    refine List.filter_eq_nil_iff.mpr fun ie hie => ?_
    rw [decide_eq_true_eq]
    exact not_or.mpr (h ie hie)
  rw [interactionSse, hnone]
  rfl

/-- Of two factors without interactions the larger effect contributes more. -/
theorem percent_le_iff {effects : List (MainEffect K)}
    {interactions : List (InteractionEffect K)} (sqrt : K → K) {a b : MainEffect K}
    (ha : Alone interactions a.factor) (hb : Alone interactions b.factor) :
    (sensitivityOf sqrt effects interactions b).percentContribution ≤
        (sensitivityOf sqrt effects interactions a).percentContribution ↔
      b.effectSize ^ 2 ≤ a.effectSize ^ 2 := by
  have hpos := totalSse_pos effects interactions
  show 100 * (b.effectSize ^ 2 + interactionSse interactions b.factor) /
      totalSse effects interactions ≤
    100 * (a.effectSize ^ 2 + interactionSse interactions a.factor) /
      totalSse effects interactions ↔ _
  rw [interactionSse_of_alone ha, interactionSse_of_alone hb, add_zero, add_zero,
    div_le_div_iff_of_pos_right hpos, mul_le_mul_iff_right₀ (by norm_num)]

/-- For every table, and interactions of any size. -/
theorem measures_iff (t : Table K) (sqrt : K → K) (interactions : List (InteractionEffect K)) :
    t.Measures sqrt interactions ↔ t.Lucky interactions := by
  -- what the stable sort does to two factors
  have hranked : ((t.factorSensitivity sqrt interactions).Pairwise fun a b =>
      Alone interactions a.factor → Alone interactions b.factor →
        t.explained b.factor ≤ t.explained a.factor) ↔
      t.mainEffects.Pairwise fun a b =>
        Alone interactions a.factor → Alone interactions b.factor →
          (t.unevenness b.factor ^ 2 ≤ t.unevenness a.factor ^ 2 →
            t.explained b.factor ≤ t.explained a.factor) ∧
          (¬ t.unevenness b.factor ^ 2 ≤ t.unevenness a.factor ^ 2 →
            t.explained a.factor ≤ t.explained b.factor) := by
    unfold Table.factorSensitivity
    rw [pairwise_insertionSort_iff, List.pairwise_map]
    refine List.Pairwise.iff_of_mem fun {a b} ha hb => ?_
    show (_ → Alone interactions a.factor → Alone interactions b.factor → _) ∧
      (_ → Alone interactions b.factor → Alone interactions a.factor → _) ↔ _
    constructor
    · intro h haa hab
      rw [← effectSize_eq_unevenness ha, ← effectSize_eq_unevenness hb,
        ← percent_le_iff sqrt haa hab]
      exact ⟨fun hle => h.1 hle haa hab, fun hlt => h.2 hlt hab haa⟩
    · intro h
      refine ⟨fun hle haa hab => ?_, fun hlt hab haa => ?_⟩
      · refine (h haa hab).1 ?_
        rw [← effectSize_eq_unevenness ha, ← effectSize_eq_unevenness hb]
        exact (percent_le_iff sqrt haa hab).mp hle
      · refine (h haa hab).2 ?_
        rw [← effectSize_eq_unevenness ha, ← effectSize_eq_unevenness hb]
        exact fun hle => hlt ((percent_le_iff sqrt haa hab).mpr hle)
  constructor
  · intro h
    refine ⟨fun me hme hflat => (flat_iff hme hflat).mp (h.flat me hme hflat), ?_,
      hranked.mp h.ranked⟩
    intro me hme hbalanced
    by_contra hflat
    refine h.sees me hme hbalanced hflat ?_
    rw [effectSize_eq_unevenness hme]
    exact unevenness_of_balanced hbalanced (mainEffects_spec hme).1
  · intro h
    refine ⟨fun me hme hflat => (flat_iff hme hflat).mpr (h.flat me hme hflat), ?_, ?_,
      hranked.mpr h.ordered⟩
    · intro me hme hbalanced hflat
      exact absurd (h.unbalanced me hme hbalanced) hflat
    · intro s hs
      obtain ⟨me, hme, rfl⟩ := List.mem_map.mp ((List.mem_insertionSort _).mp hs)
      exact percent_bounds interactions sqrt hme

end

/-- A column of levels and one of responses. -/
def twoColumns (cells : List (ℚ × ℚ)) : Table ℚ where
  columns := ["insulation"]
  rows := cells.map fun cell column =>
    if column = "insulation" then some cell.1
    else if column = "eui" then some cell.2
    else none
  responseCol := "eui"
  minSamplesPerLevel := 3

/-- Three samples at each of two levels: 10 at one, 20 at the other. -/
def halves : Table ℚ := twoColumns [(0, 10), (0, 10), (0, 10), (1, 20), (1, 20), (1, 20)]

/-- The factor that makes all the difference has no effect. -/
theorem halves_sees_nothing : ¬ halves.Measures id [] := by
  intro h
  have heffects : (halves.mainEffects.map fun me => (me.factor, me.effectSize)) =
      [("insulation", 0)] := by
    decide +kernel
  obtain ⟨me, hme, heq⟩ := List.mem_map.mp
    (heffects ▸ List.mem_singleton.mpr rfl : ("insulation", (0 : ℚ)) ∈ halves.mainEffects.map
      fun me => (me.factor, me.effectSize))
  obtain ⟨hfactor, hzero⟩ := Prod.mk.inj heq
  refine h.sees me hme ?_ ?_ hzero
  · rw [hfactor]
    exact ⟨3, by decide, by decide +kernel⟩
  · rw [hfactor]
    intro hflat
    have hmeans : halves.levelMeans "insulation" = [10, 20] := by decide +kernel
    unfold Table.Flat at hflat
    rw [hmeans] at hflat
    exact absurd (hflat 10 List.mem_cons_self 20
      (List.mem_cons_of_mem _ List.mem_cons_self)) (by decide)

/-- With one sample more at the second level the factor shows. -/
def uneven : Table ℚ :=
  twoColumns [(0, 10), (0, 10), (0, 10), (1, 20), (1, 20), (1, 20), (1, 20)]

theorem uneven_measures : uneven.Measures id [] := by
  have heffects : uneven.mainEffects.map (·.factor) = ["insulation"] := by decide +kernel
  have hfactor (me : MainEffect ℚ) (hme : me ∈ uneven.mainEffects) :
      me.factor = "insulation" := by
    have hmem := List.mem_map_of_mem (f := (·.factor)) hme
    rw [heffects] at hmem
    exact List.mem_singleton.mp hmem
  have hmeans : uneven.levelMeans "insulation" = [10, 20] := by decide +kernel
  have hflat : ¬ uneven.Flat "insulation" := by
    intro hflat
    unfold Table.Flat at hflat
    rw [hmeans] at hflat
    exact absurd (hflat 10 List.mem_cons_self 20
      (List.mem_cons_of_mem _ List.mem_cons_self)) (by decide)
  refine (measures_iff uneven id []).mpr ⟨fun me hme h => ?_, fun me hme h => ?_, ?_⟩
  · rw [hfactor me hme] at h
    exact absurd h hflat
  · -- three samples at one level, four at the other
    rw [hfactor me hme] at h
    obtain ⟨c, _, hc⟩ := h
    have hlevels : levelsOf (uneven.samples "insulation") = [0, 1] := by decide +kernel
    rw [hlevels] at hc
    have hthree : (group (uneven.samples "insulation") 0).length = 3 := by decide +kernel
    have hfour : (group (uneven.samples "insulation") 1).length = 4 := by decide +kernel
    have hzero := hc 0 List.mem_cons_self
    have hone := hc 1 (List.mem_cons_of_mem _ List.mem_cons_self)
    omega
  · have hlength : uneven.mainEffects.length = 1 := by decide +kernel
    obtain ⟨me, hme⟩ := List.length_eq_one_iff.mp hlength
    rw [hme]
    exact List.pairwise_singleton _ me

end OSimFlow.Algorithms.DoeAnalysis
