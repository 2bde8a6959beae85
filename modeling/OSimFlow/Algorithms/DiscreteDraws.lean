import OSimFlow.Algorithms.QDiscrete
import OSimFlow.Lib.Cells

/-!
# What the draws of a discrete variable realise

`applyDiscrete` and `Pmf.draw` map a coordinate of the unit interval to a
value. With a mass function both realise it: the coordinates of a value are as
many as its normalised probability, and `qdiscrete` gives no value of
probability zero. There are two exceptions.

* Without a mass function the coordinate is multiplied by the last index and
  rounded, so that the two ends of the list get half of what the others get.
  The shares are right for a list of one or two values, and for no longer list
  of distinct ones (`balanced_iff`).
* `_check_pmf` lets a mass function pass whose entries are all zero.
  `qdiscrete` then gives the last value, whatever the generator says.

> `realised_iff`: these two are the only ways in which it goes wrong.
-/

namespace OSimFlow.Algorithms.DiscreteDraws

open MeasureTheory Set
open OSimFlow.Lib (Dict)
open OSimFlow.Lib.Cells (Between volume_cells partial_sums_cells)
open OSimFlow.Algorithms.Sampling
open OSimFlow.Algorithms.QDiscrete

noncomputable section

/-! ## The index of a mass function -/

/-- The cells of the first sum above the coordinate. -/
theorem cells_bisectRight {w : List ℝ} (hw : ∀ x ∈ w, 0 ≤ x) (hsum : w.sum = 1) :
    Between (Ico 0 1) (bisectRight (cumsum 0 w)) w.length (fun i => (w.take i).sum)
      fun i => (w.take (i + 1)).sum := by
  have hspec := bisectRight_spec (pairwise_cumsum hw 0).1
  simp only [length_cumsum] at hspec
  apply partial_sums_cells hw hsum
  · intro u i hi
    obtain ⟨hlen, hbelow, -⟩ := hspec u
    have hle := hbelow i hi
    rw [getD_cumsum 0 (by omega), zero_add] at hle
    exact hle
  · intro u i hi hge
    obtain ⟨-, -, habove⟩ := hspec u
    have hlt := habove i hge hi
    rw [getD_cumsum 0 hi, zero_add] at hlt
    exact hlt
  · exact fun u => (hspec u).1

/-- The chance of an index is the term of the sum. -/
theorem volume_bisectRight {w : List ℝ} (hw : ∀ x ∈ w, 0 ≤ x) (hsum : w.sum = 1) {i : ℕ} {x : ℝ}
    (hget : w[i]? = some x) :
    volume {u | u ∈ Ico (0 : ℝ) 1 ∧ bisectRight (cumsum 0 w) u = i} = ENNReal.ofReal x := by
  obtain ⟨hi, rfl⟩ := List.getElem?_eq_some_iff.mp hget
  have hcells := volume_cells (cells_bisectRight hw hsum) (· = i)
  rw [Finset.filter_eq', if_pos (Finset.mem_range.mpr hi), Finset.sum_singleton,
    List.take_add_one, List.sum_append, List.getElem?_eq_getElem hi] at hcells
  rw [hcells]
  congr 1
  simp

/-- An index that is drawn has a term above zero. -/
theorem pos_of_bisectRight {w : List ℝ} (hw : ∀ x ∈ w, 0 ≤ x) (hsum : w.sum = 1) {u : ℝ}
    (hu : u ∈ Ico (0 : ℝ) 1) :
    ∃ x, w[bisectRight (cumsum 0 w) u]? = some x ∧ 0 < x := by
  have hlt := (cells_bisectRight hw hsum).lt u hu
  refine ⟨_, List.getElem?_eq_getElem hlt, ?_⟩
  have hspec := bisectRight_spec (pairwise_cumsum hw 0).1 u
  simp only [length_cumsum] at hspec
  obtain ⟨-, hbelow, habove⟩ := hspec
  have hnext := habove _ le_rfl hlt
  rw [getD_cumsum 0 hlt, zero_add, List.take_add_one, List.sum_append,
    List.getElem?_eq_getElem hlt] at hnext
  have hprev : (w.take (bisectRight (cumsum 0 w) u)).sum ≤ u := by
    cases hk : bisectRight (cumsum 0 w) u with
    | zero => exact hu.1
    | succ k =>
      have hle := hbelow k (by omega)
      rw [getD_cumsum 0 (by omega), zero_add] at hle
      exact hle
  simp only [Option.toList_some, List.sum_singleton] at hnext
  linarith

/-! ## The draws of a mass function -/

section

variable {α : Type} (pmf : Pmf α ℝ)

theorem probs_nonneg (htotal : 0 < pmf.total) : ∀ x ∈ pmf.probs, 0 ≤ x := by
  intro x hx
  obtain ⟨p, hp, rfl⟩ := List.mem_map.mp hx
  exact div_nonneg (pmf.nonneg p hp) (le_of_lt htotal)

theorem sum_probs (htotal : 0 < pmf.total) : pmf.probs.sum = 1 := by
  unfold Pmf.probs
  rw [sum_map_div]
  exact div_self (ne_of_gt htotal)

theorem getElem?_probs (i : ℕ) :
    pmf.probs[i]? = (pmf.weights.items[i]?).map fun item => item.2 / pmf.total := by
  unfold Pmf.probs Dict.values
  rw [List.map_map, List.getElem?_map]
  rfl

theorem getLastD_cumsum {w : List ℝ} (hne : w ≠ []) : (cumsum 0 w).getLastD 0 = w.sum := by
  have hpos := List.length_pos_iff.mpr hne
  have hlast := getD_cumsum 0 (l := w) (i := w.length - 1) (by omega)
  rw [Nat.sub_add_cancel hpos, List.take_length, zero_add] at hlast
  rw [List.getLastD_eq_getLast?, List.getLast?_eq_getElem?, length_cumsum,
    ← List.getD_eq_getElem?_getD]
  exact hlast

theorem probs_ne_nil : pmf.probs ≠ [] := by
  intro h
  apply pmf.nonempty
  unfold Pmf.probs Dict.values at h
  unfold Dict.keys
  rw [List.map_map, List.map_eq_nil_iff] at h
  rw [h, List.map_nil]

/-- The last sum is 1, so that nothing is divided out. -/
theorem cdf_eq (htotal : 0 < pmf.total) : pmf.cdf = cumsum 0 pmf.probs := by
  unfold Pmf.cdf
  simp only [getLastD_cumsum (probs_ne_nil pmf), sum_probs pmf htotal]
  exact if_neg (not_not.mpr rfl)

/-- What is drawn: the entry whose cell the coordinate is in. -/
theorem draw_entry (htotal : 0 < pmf.total) {u : ℝ} (hu : u ∈ Ico (0 : ℝ) 1) :
    ∃ item, pmf.weights.items[bisectRight (cumsum 0 pmf.probs) u]? = some item ∧
      pmf.draw u = item.1 ∧ 0 < item.2 := by
  obtain ⟨x, hx, hpos⟩ := pos_of_bisectRight (probs_nonneg pmf htotal) (sum_probs pmf htotal) hu
  rw [getElem?_probs] at hx
  obtain ⟨item, hitem, rfl⟩ := Option.map_eq_some_iff.mp hx
  refine ⟨item, hitem, ?_, (div_pos_iff_of_pos_right htotal).mp hpos⟩
  unfold Pmf.draw
  rw [cdf_eq pmf htotal, List.getD_eq_getElem?_getD]
  unfold Dict.keys
  rw [List.getElem?_map, hitem]
  rfl

/-- The coordinates of a value are as many as its normalised probability. -/
theorem volume_draw (htotal : 0 < pmf.total) {v : α} {p : ℝ} (hv : (v, p) ∈ pmf.weights.items) :
    volume {u | u ∈ Ico (0 : ℝ) 1 ∧ pmf.draw u = v} = ENNReal.ofReal (p / pmf.total) := by
  obtain ⟨i, hi⟩ := List.mem_iff_getElem?.mp hv
  have hprob : pmf.probs[i]? = some (p / pmf.total) := by
    rw [getElem?_probs, hi]
    rfl
  rw [← volume_bisectRight (probs_nonneg pmf htotal) (sum_probs pmf htotal) hprob]
  congr 1
  ext u
  refine and_congr_right fun hu => ?_
  obtain ⟨item, hitem, hdraw, -⟩ := draw_entry pmf htotal hu
  rw [hdraw]
  constructor
  · intro h
    -- the value stands at one place only
    have hlen : bisectRight (cumsum 0 pmf.probs) u < (pmf.weights.items.map Prod.fst).length := by
      rw [List.length_map]
      exact (List.getElem?_eq_some_iff.mp hitem).1
    refine (List.getElem?_inj hlen pmf.weights.nodup).mp ?_
    rw [List.getElem?_map, List.getElem?_map, hitem, hi, Option.map_some, Option.map_some, h]
  · intro h
    rw [h, hi] at hitem
    rw [← Option.some.inj hitem]

end

/-! ## The branch for a list with a mass function -/

theorem applyDiscrete_pmf (pmf : Pmf (Scalar ℝ) ℝ) (htotal : 0 < pmf.total) {u : ℝ}
    (hu : u ∈ Ico (0 : ℝ) 1) (values : List (Scalar ℝ)) :
    applyDiscrete u { values := some values, pmf := some pmf.weights.items } =
      .ok (pmf.draw u) := by
  obtain ⟨item, hitem, hdraw, -⟩ := draw_entry pmf htotal hu
  have hlt := (List.getElem?_eq_some_iff.mp hitem).1
  have hcdf : Sampling.cdf pmf.weights.items = cumsum 0 pmf.probs := rfl
  rw [hdraw]
  show pyIndex (pmf.weights.items.map Prod.fst) (min (bisectRight (Sampling.cdf _) u : Int)
    ((pmf.weights.items.length : Int) - 1)) = _
  rw [hcdf, min_eq_left (by omega)]
  unfold pyIndex
  rw [if_neg (by omega), Int.toNat_natCast, List.getElem?_map, hitem, Option.map_some]
  exact if_neg (by omega)

theorem volume_applyDiscrete (pmf : Pmf (Scalar ℝ) ℝ) (htotal : 0 < pmf.total) {v : Scalar ℝ}
    {p : ℝ} (hv : pmf.weights.get? v = some p) (values : List (Scalar ℝ)) :
    volume {u | u ∈ Ico (0 : ℝ) 1 ∧
      applyDiscrete u { values := some values, pmf := some pmf.weights.items } = .ok v} =
      ENNReal.ofReal (p / pmf.total) := by
  rw [← volume_draw pmf htotal (Dict.mem_items.mpr hv)]
  congr 1
  ext u
  refine and_congr_right fun hu => ?_
  rw [applyDiscrete_pmf pmf htotal hu values, Except.ok.injEq]

/-! ## The branch for a list alone -/

theorem abs_sub_pyRound_le (x : ℝ) : |x - pyRound x| ≤ 1 / 2 := by
  have hlow := Int.floor_le x
  have hhigh := Int.lt_floor_add_one x
  unfold pyRound
  dsimp only
  rw [abs_le]
  split_ifs with h₁ h₂ h₃
  · constructor <;> linarith
  · rw [Int.cast_add, Int.cast_one]
    constructor <;> linarith
  · constructor <;> linarith
  · rw [Int.cast_add, Int.cast_one]
    constructor <;> linarith

theorem pyRound_eq_of_abs_lt {x : ℝ} {i : Int} (h : |x - i| < 1 / 2) : pyRound x = i := by
  have hround := abs_le.mp (abs_sub_pyRound_le x)
  have hnear := abs_lt.mp h
  have hlow : ((i - 1 : Int) : ℝ) < pyRound x := by
    rw [Int.cast_sub, Int.cast_one]
    linarith
  have hhigh : (pyRound x : ℝ) < ((i + 1 : Int) : ℝ) := by
    rw [Int.cast_add, Int.cast_one]
    linarith
  have hlow' := Int.cast_lt.mp hlow
  have hhigh' := Int.cast_lt.mp hhigh
  omega

/-- The index that is picked from a list whose last index is `m`. -/
def roundedIndex (m : ℕ) (u : ℝ) : ℕ := (pyRound (u * m)).toNat

theorem pyRound_eq_roundedIndex {m : ℕ} {u : ℝ} (hu : 0 ≤ u) :
    pyRound (u * m) = roundedIndex m u := by
  have hround := abs_le.mp (abs_sub_pyRound_le (u * m))
  have hnonneg : (0 : ℝ) ≤ u * m := mul_nonneg hu (Nat.cast_nonneg m)
  have hlow : ((-1 : Int) : ℝ) < pyRound (u * m) := by
    rw [Int.cast_neg, Int.cast_one]
    linarith
  have := Int.cast_lt.mp hlow
  unfold roundedIndex
  omega

/-- The cells of rounding: one half of an index to either side, cut off at the ends. -/
theorem cells_roundedIndex {m : ℕ} (hm : 0 < m) :
    Between (Ico 0 1) (roundedIndex m) (m + 1) (fun i => max 0 ((i - 1 / 2) / m))
      fun i => min 1 ((i + 1 / 2) / m) := by
  have hpos : (0 : ℝ) < m := Nat.cast_pos.mpr hm
  have hnear : ∀ u : ℝ, 0 ≤ u →
      u * m - roundedIndex m u ≤ 1 / 2 ∧ -(1 / 2) ≤ u * m - roundedIndex m u := by
    intro u hu
    have hround := abs_le.mp (abs_sub_pyRound_le (u * m))
    rw [pyRound_eq_roundedIndex hu, Int.cast_natCast] at hround
    exact ⟨hround.2, hround.1⟩
  refine ⟨fun u hu => ?_, fun i _ u hlow hhigh => ?_, fun u hu => ⟨?_, ?_⟩⟩
  · have hlt : u * m < m := by
      have := mul_lt_mul_of_pos_right hu.2 hpos
      rwa [one_mul] at this
    have hcast : (roundedIndex m u : ℝ) < ((m + 1 : ℕ) : ℝ) := by
      have := (hnear u hu.1).2
      rw [Nat.cast_add, Nat.cast_one]
      linarith
    exact Nat.cast_lt.mp hcast
  · obtain ⟨h0, hlow⟩ := max_lt_iff.mp hlow
    obtain ⟨h1, hhigh⟩ := lt_min_iff.mp hhigh
    rw [div_lt_iff₀ hpos] at hlow
    rw [lt_div_iff₀ hpos] at hhigh
    refine ⟨⟨le_of_lt h0, h1⟩, ?_⟩
    have habs : |u * m - ((i : Int) : ℝ)| < 1 / 2 := by
      rw [Int.cast_natCast, abs_lt]
      constructor <;> linarith
    unfold roundedIndex
    rw [pyRound_eq_of_abs_lt habs, Int.toNat_natCast]
  · refine max_le hu.1 ?_
    rw [div_le_iff₀ hpos]
    linarith [(hnear u hu.1).2]
  · refine le_min (le_of_lt hu.2) ?_
    rw [le_div_iff₀ hpos]
    linarith [(hnear u hu.1).1]

/-- All cells are as long as the list is fine, but for the halves that are cut off. -/
theorem roundedCell_length {m i : ℕ} (hm : 0 < m) (hi : i ≤ m) :
    min 1 (((i : ℝ) + 1 / 2) / m) - max 0 (((i : ℝ) - 1 / 2) / m) =
      (2 - (if i = 0 then 1 else 0) - if i = m then 1 else 0) / (2 * m) := by
  have hpos : (0 : ℝ) < m := Nat.cast_pos.mpr hm
  have hone : (1 : ℝ) ≤ m := Nat.one_le_cast.mpr hm
  have hupper : min 1 (((i : ℝ) + 1 / 2) / m) =
      ((i : ℝ) + (if i = m then 0 else 1 / 2)) / m := by
    split
    next h =>
      rw [h, add_zero, div_self (ne_of_gt hpos)]
      refine min_eq_left ?_
      rw [le_div_iff₀ hpos]
      linarith
    next h =>
      have hlt : ((i + 1 : ℕ) : ℝ) ≤ m := Nat.cast_le.mpr (by omega)
      rw [Nat.cast_add, Nat.cast_one] at hlt
      refine min_eq_right ?_
      rw [div_le_one hpos]
      linarith
  have hlower : max 0 (((i : ℝ) - 1 / 2) / m) =
      ((i : ℝ) - (if i = 0 then 0 else 1 / 2)) / m := by
    split
    next h =>
      rw [h, Nat.cast_zero, sub_zero, zero_div]
      exact max_eq_left (div_nonpos_of_nonpos_of_nonneg (by norm_num) (le_of_lt hpos))
    next h =>
      have hge : (1 : ℝ) ≤ i := Nat.one_le_cast.mpr (Nat.pos_of_ne_zero h)
      exact max_eq_right (div_nonneg (by linarith) (le_of_lt hpos))
  rw [hupper, hlower, ← sub_div, div_eq_div_iff (ne_of_gt hpos) (by linarith)]
  split_ifs <;> ring

/-- The places of a value. -/
theorem card_places {α : Type} [DecidableEq α] (l : List α) (v : α) :
    ((Finset.range l.length).filter fun i => l[i]? = some v).card = l.count v := by
  induction l using List.reverseRecOn with
  | nil => rfl
  | append_singleton l a ih =>
    have hfront : (Finset.range l.length).filter (fun i => (l ++ [a])[i]? = some v) =
        (Finset.range l.length).filter fun i => l[i]? = some v := by
      refine Finset.filter_congr fun i hi => ?_
      rw [List.getElem?_append_left (Finset.mem_range.mp hi)]
    rw [List.length_append, List.length_singleton, Finset.range_add_one, Finset.filter_insert,
      List.getElem?_concat_length, hfront, List.count_append, List.count_singleton, ← ih]
    by_cases hv : a = v
    · rw [if_pos (congrArg some hv), Finset.card_insert_of_notMem, if_pos (beq_iff_eq.mpr hv)]
      intro hmem
      exact absurd (Finset.mem_range.mp (Finset.mem_filter.mp hmem).1) (lt_irrefl _)
    · rw [if_neg fun h => hv (Option.some.inj h), if_neg fun h => hv (beq_iff_eq.mp h), add_zero]

/-- How many of the two ends of the list are the value. -/
def ends (values : List (Scalar ℝ)) (v : Scalar ℝ) : ℕ :=
  (if values.head? = some v then 1 else 0) + if values.getLast? = some v then 1 else 0

/-- Every value makes up the same share of the ends as of the list. -/
def Balanced (values : List (Scalar ℝ)) : Prop :=
  ∀ v ∈ values, 2 * values.count v = values.length * ends values v

theorem ends_le {values : List (Scalar ℝ)} {v : Scalar ℝ} (hv : v ∈ values) :
    ends values v ≤ 2 * values.count v := by
  have hpos := List.count_pos_iff.mpr hv
  unfold ends
  split_ifs <;> omega

theorem applyDiscrete_list {values : List (Scalar ℝ)} {m : ℕ} (hlen : values.length = m + 1)
    {u : ℝ} (hu : 0 ≤ u) (v : Scalar ℝ) :
    applyDiscrete u { values := some values } = .ok v ↔
      values[roundedIndex m u]? = some v := by
  have hindex : u * ((values.length : ℝ) - 1) = u * m := by
    rw [hlen, Nat.cast_add, Nat.cast_one, add_sub_cancel_right]
  show pyIndex values (pyRound (u * ((values.length : ℝ) - 1))) = .ok v ↔ _
  rw [hindex, pyRound_eq_roundedIndex hu]
  unfold pyIndex
  rw [if_neg (by omega), Int.toNat_natCast]
  cases values[roundedIndex m u]? with
  | none => exact iff_of_false (fun h => nomatch h) fun h => nomatch h
  | some w =>
    simp only
    rw [if_neg (by omega), Except.ok.injEq, Option.some.injEq]

/-- The coordinates of a value of a list of two or more. -/
theorem volume_list {values : List (Scalar ℝ)} {m : ℕ} (hlen : values.length = m + 1)
    (hm : 0 < m) (v : Scalar ℝ) :
    volume {u | u ∈ Ico (0 : ℝ) 1 ∧ applyDiscrete u { values := some values } = .ok v} =
      ENNReal.ofReal ((2 * (values.count v : ℝ) - ends values v) / (2 * m)) := by
  have hset : {u | u ∈ Ico (0 : ℝ) 1 ∧ applyDiscrete u { values := some values } = .ok v} =
      {u | u ∈ Ico (0 : ℝ) 1 ∧ values[roundedIndex m u]? = some v} := by
    ext u
    exact and_congr_right fun hu => applyDiscrete_list hlen hu.1 v
  have hlength : ∀ i ∈ (Finset.range (m + 1)).filter fun i => values[i]? = some v,
      min 1 (((i : ℝ) + 1 / 2) / m) - max 0 (((i : ℝ) - 1 / 2) / m) =
        (2 - (if i = 0 then 1 else 0) - if i = m then 1 else 0) / (2 * m) := by
    intro i hi
    have := Finset.mem_range.mp (Finset.mem_filter.mp hi).1
    exact roundedCell_length hm (by omega)
  have hcount : ((Finset.range (m + 1)).filter fun i => values[i]? = some v).card =
      values.count v := by
    rw [← hlen]
    exact card_places values v
  have hends : ∀ k ≤ m, (∑ i ∈ (Finset.range (m + 1)).filter (fun i => values[i]? = some v),
      if i = k then (1 : ℝ) else 0) = if values[k]? = some v then 1 else 0 := by
    intro k hk
    rw [Finset.sum_ite_eq']
    refine if_congr ?_ rfl rfl
    rw [Finset.mem_filter, Finset.mem_range]
    exact and_iff_right (by omega)
  rw [hset, volume_cells (cells_roundedIndex hm) (fun i => values[i]? = some v),
    Finset.sum_congr rfl fun i hi => by rw [hlength i hi],
    ← ENNReal.ofReal_sum_of_nonneg]
  · congr 1
    rw [← Finset.sum_div, Finset.sum_sub_distrib, Finset.sum_sub_distrib, Finset.sum_const,
      hcount, hends 0 (by omega), hends m le_rfl, nsmul_eq_mul]
    congr 1
    unfold ends
    rw [List.head?_eq_getElem?, List.getLast?_eq_getElem?, hlen, Nat.add_sub_cancel]
    push_cast
    ring
  · intro i _
    refine div_nonneg ?_ (by positivity)
    split_ifs
    all_goals norm_num

/-- A list realises equal shares if and only if it is balanced. -/
theorem volume_list_eq_iff {values : List (Scalar ℝ)} (hne : values ≠ []) {v : Scalar ℝ}
    (hv : v ∈ values) :
    volume {u | u ∈ Ico (0 : ℝ) 1 ∧ applyDiscrete u { values := some values } = .ok v} =
      ENNReal.ofReal (values.count v / values.length) ↔
    2 * values.count v = values.length * ends values v := by
  obtain ⟨m, hlen⟩ : ∃ m, values.length = m + 1 :=
    ⟨values.length - 1, by have := List.length_pos_iff.mpr hne; omega⟩
  rcases Nat.eq_zero_or_pos m with rfl | hm
  · -- one value, for every coordinate
    obtain ⟨a, rfl⟩ := List.length_eq_one_iff.mp hlen
    obtain rfl := List.mem_singleton.mp hv
    refine iff_of_true ?_ ?_
    · have hset : {u | u ∈ Ico (0 : ℝ) 1 ∧ applyDiscrete u { values := some [v] } = .ok v} =
          Ico 0 1 := by
        ext u
        refine and_iff_left_of_imp fun hu => (applyDiscrete_list hlen hu.1 v).mpr ?_
        have hzero : roundedIndex 0 u = 0 := by
          unfold roundedIndex
          rw [Nat.cast_zero, mul_zero]
          rw [pyRound_eq_of_abs_lt (i := 0) (by norm_num)]
          rfl
        rw [hzero]
        rfl
      rw [hset, Real.volume_Ico, hlen, List.count_singleton_self]
      norm_num
    · rw [hlen, List.count_singleton_self]
      unfold ends
      rw [List.head?_cons, List.getLast?_singleton, if_pos rfl]
  · have hpos : (0 : ℝ) < m := Nat.cast_pos.mpr hm
    have hle : (ends values v : ℝ) ≤ 2 * values.count v := by
      exact_mod_cast ends_le hv
    rw [volume_list hlen hm, hlen, ENNReal.ofReal_eq_ofReal_iff
      (div_nonneg (by linarith) (by linarith)) (by positivity),
      div_eq_div_iff (by positivity) (by positivity)]
    constructor
    · intro h
      have hreal : (2 : ℝ) * values.count v = (m + 1 : ℕ) * ends values v := by
        push_cast at h ⊢
        linarith
      exact_mod_cast hreal
    · intro h
      have hreal : (2 : ℝ) * values.count v = (m + 1 : ℕ) * ends values v := by
        exact_mod_cast h
      push_cast at hreal ⊢
      linear_combination hreal

/-- Of a list of distinct values: it has one or two. -/
theorem balanced_iff {values : List (Scalar ℝ)} (hnodup : values.Nodup) :
    Balanced values ↔ values.length ≤ 2 := by
  constructor
  · intro h
    cases values with
    | nil => exact Nat.zero_le 2
    | cons a values =>
      have hhead := h a List.mem_cons_self
      rw [List.count_eq_one_of_mem hnodup List.mem_cons_self] at hhead
      have hends : 1 ≤ ends (a :: values) a := by
        unfold ends
        rw [List.head?_cons, if_pos rfl]
        omega
      nlinarith
  · intro hlen v hv
    rw [List.count_eq_one_of_mem hnodup hv]
    match values, hlen with
    | [a], _ =>
      obtain rfl := List.mem_singleton.mp hv
      unfold ends
      rw [List.head?_cons, List.getLast?_singleton, if_pos rfl]
      rfl
    | [a, b], _ =>
      have hab : a ≠ b := by
        intro h
        rw [h] at hnodup
        exact absurd List.mem_cons_self (List.nodup_cons.mp hnodup).1
      unfold ends
      rw [List.head?_cons, List.getLast?_cons_cons, List.getLast?_singleton]
      rcases List.mem_cons.mp hv with rfl | hv
      · rw [if_pos rfl, if_neg fun h => hab (Option.some.inj h).symm]
        rfl
      · obtain rfl := List.mem_singleton.mp hv
        rw [if_pos rfl, if_neg fun h => hab (Option.some.inj h)]
        rfl

/-! ## Both samplers -/

/-- The distribution of a variable with these values and this mass function is realised. -/
structure Realised (values : List (Scalar ℝ)) (pmf : Option (Dict (Scalar ℝ) ℝ)) : Prop where
  /-- Without a mass function each entry of the list has the same share. -/
  plain : pmf = none → ∀ v ∈ values,
    volume {u | u ∈ Ico (0 : ℝ) 1 ∧ applyDiscrete u { values := some values } = .ok v} =
      ENNReal.ofReal (values.count v / values.length)
  /-- With one each value has its normalised probability. -/
  weighted : ∀ d, pmf = some d → 0 < d.values.sum → ∀ v p, d.get? v = some p →
    volume {u | u ∈ Ico (0 : ℝ) 1 ∧
      applyDiscrete u { values := some values, pmf := some d.items } = .ok v} =
      ENNReal.ofReal (p / d.values.sum)
  /-- So it is for every draw of `qdiscrete`, of the numbers its generator may give there. -/
  drawn : ∀ d, pmf = some d → 0 < d.values.sum → ∀ v p, d.get? v = some p → ∀ n i : ℕ, i < n →
    volume {u | u ∈ Ico (0 : ℝ) 1 ∧ ∀ rng : Rng ℝ, rng.stream i = u →
      ∃ result, qdiscrete rng d n = .ok result ∧ result[i]? = some v} =
      ENNReal.ofReal (p / d.values.sum)
  /-- No value of probability zero is drawn. -/
  positive : ∀ d, pmf = some d → ∀ (rng : Rng ℝ) (n : Int) result, qdiscrete rng d n = .ok result →
    ∀ v ∈ result, ∃ p, d.get? v = some p ∧ 0 < p
  /-- A mass function of zeros is refused. -/
  refused : ∀ d, pmf = some d → d.values.sum = 0 → ∀ (rng : Rng ℝ) (n : Int),
    ∃ e, qdiscrete rng d n = .error e

/-- A generator that gives one number all the time. -/
def Rng.const {u : ℝ} (hu : u ∈ Ico (0 : ℝ) 1) : Rng ℝ := ⟨fun _ => u, fun _ => hu⟩

theorem volume_qdiscrete (pmf : Pmf (Scalar ℝ) ℝ) (htotal : 0 < pmf.total) {v : Scalar ℝ} {p : ℝ}
    (hv : pmf.weights.get? v = some p) {n i : ℕ} (hi : i < n) :
    volume {u | u ∈ Ico (0 : ℝ) 1 ∧ ∀ rng : Rng ℝ, rng.stream i = u →
      ∃ result, qdiscrete rng pmf.weights n = .ok result ∧ result[i]? = some v} =
      ENNReal.ofReal (p / pmf.total) := by
  rw [← volume_draw pmf htotal (Dict.mem_items.mpr hv)]
  congr 1
  ext u
  refine and_congr_right fun hu => ?_
  have hresult : ∀ rng : Rng ℝ, rng.stream i = u →
      ((List.range n).map fun i => pmf.draw (rng.stream i))[i]? = some (pmf.draw u) := by
    intro rng hrng
    rw [List.getElem?_map, List.getElem?_range hi, Option.map_some, hrng]
  have hok : ∀ rng : Rng ℝ, qdiscrete rng pmf.weights n =
      .ok ((List.range n).map fun i => pmf.draw (rng.stream i)) := by
    intro rng
    exact qdiscrete_weights rng pmf (by omega)
  constructor
  · intro h
    obtain ⟨result, hdraws, hget⟩ := h (Rng.const hu) rfl
    rw [hok] at hdraws
    rw [← Except.ok.inj hdraws, hresult _ rfl] at hget
    exact Option.some.inj hget
  · intro h rng hrng
    refine ⟨_, hok rng, ?_⟩
    rw [hresult rng hrng, h]

theorem pos_of_qdiscrete (pmf : Pmf (Scalar ℝ) ℝ) (htotal : 0 < pmf.total) {rng : Rng ℝ} {n : Int}
    {result : List (Scalar ℝ)} (h : qdiscrete rng pmf.weights n = .ok result) :
    ∀ v ∈ result, ∃ p, pmf.weights.get? v = some p ∧ 0 < p := by
  intro v hv
  rcases lt_or_ge n 1 with hn | hn
  · unfold qdiscrete at h
    rw [if_pos hn] at h
    exact nomatch h
  · rw [qdiscrete_weights rng pmf hn] at h
    rw [← Except.ok.inj h] at hv
    obtain ⟨i, -, rfl⟩ := List.mem_map.mp hv
    obtain ⟨item, hitem, hdraw, hpos⟩ := draw_entry pmf htotal (rng.unit i)
    refine ⟨item.2, ?_, hpos⟩
    rw [hdraw]
    exact Dict.mem_items.mp (List.mem_of_getElem? hitem)

/-- Of no entries, `qdiscrete` draws nothing. -/
theorem qdiscrete_of_keys_eq_nil {d : Dict (Scalar ℝ) ℝ} (h : d.keys = []) (rng : Rng ℝ)
    (n : Int) : ∃ e, qdiscrete rng d n = .error e := by
  unfold qdiscrete
  split
  next => exact ⟨_, rfl⟩
  next =>
    unfold checkPmf
    rw [dif_pos h]
    exact ⟨_, rfl⟩

/-- Both samplers realise the distribution of a variable with some values, and with a mass
function of entries that are not negative, in exactly these cases: there is no mass function
and the list is balanced, or there is one that is empty or has a positive entry. -/
theorem realised_iff {values : List (Scalar ℝ)} {pmf : Option (Dict (Scalar ℝ) ℝ)}
    (hne : values ≠ []) (hnonneg : ∀ d, pmf = some d → ∀ p ∈ d.values, 0 ≤ p) :
    Realised values pmf ↔ (pmf = none → Balanced values) ∧
      ∀ d, pmf = some d → d.keys ≠ [] → ∃ p ∈ d.values, 0 < p := by
  constructor
  · intro h
    refine ⟨fun hnone v hv => (volume_list_eq_iff hne hv).mp (h.plain hnone v hv), ?_⟩
    intro d hd hkeys
    by_contra hzero
    have hsum : d.values.sum = 0 := by
      refine List.sum_eq_zero fun p hp => le_antisymm (not_lt.mp fun hpos => ?_) (hnonneg d hd p hp)
      exact hzero ⟨p, hp, hpos⟩
    let checked : Pmf (Scalar ℝ) ℝ := ⟨d, hkeys, hnonneg d hd⟩
    have hzero' : (0 : ℝ) ∈ Ico (0 : ℝ) 1 := ⟨le_rfl, zero_lt_one⟩
    obtain ⟨e, he⟩ := h.refused d hd hsum (Rng.const hzero') 1
    exact nomatch he.symm.trans (qdiscrete_weights (Rng.const hzero') checked le_rfl)
  · intro ⟨hbalanced, hpositive⟩
    have htotal : ∀ d, pmf = some d → d.keys ≠ [] → 0 < d.values.sum := by
      intro d hd hkeys
      obtain ⟨p, hp, hpos⟩ := hpositive d hd hkeys
      exact lt_of_lt_of_le hpos (List.single_le_sum (hnonneg d hd) p hp)
    have hkeys : ∀ d : Dict (Scalar ℝ) ℝ, 0 < d.values.sum → d.keys ≠ [] := by
      intro d hsum hnil
      have hitems : d.items = [] := List.map_eq_nil_iff.mp hnil
      unfold Dict.values at hsum
      rw [hitems] at hsum
      exact lt_irrefl _ hsum
    refine ⟨fun hnone v hv => (volume_list_eq_iff hne hv).mpr (hbalanced hnone v hv), ?_, ?_, ?_, ?_⟩
    · intro d hd hsum v p hv
      exact volume_applyDiscrete ⟨d, hkeys d hsum, hnonneg d hd⟩ hsum hv values
    · intro d hd hsum v p hv n i hi
      exact volume_qdiscrete ⟨d, hkeys d hsum, hnonneg d hd⟩ hsum hv hi
    · intro d hd rng n result h
      by_cases hnil : d.keys = []
      · obtain ⟨e, he⟩ := qdiscrete_of_keys_eq_nil hnil rng n
        exact nomatch he.symm.trans h
      · exact pos_of_qdiscrete ⟨d, hnil, hnonneg d hd⟩ (htotal d hd hnil) h
    · intro d hd hsum rng n
      by_cases hnil : d.keys = []
      · exact qdiscrete_of_keys_eq_nil hnil rng n
      · exact absurd hsum (ne_of_gt (htotal d hd hnil))

/-- Two values have one half each. -/
theorem realised_two : Realised [.text "low", .text "high"] none := by
  refine (realised_iff (by simp) (by simp)).mpr ⟨fun _ => ?_, by simp⟩
  exact (balanced_iff (by simp)).mpr (by simp)

/-- Of three values the first has one quarter. -/
theorem first_of_three_one_quarter :
    ¬ Realised [.text "low", .text "medium", .text "high"] none := by
  intro h
  have hshare := h.plain rfl (.text "low") (by simp)
  rw [volume_list_eq_iff (by simp) (by simp)] at hshare
  revert hshare
  unfold ends
  simp

end

end OSimFlow.Algorithms.DiscreteDraws
