import Mathlib.Algebra.BigOperators.Intervals
import Mathlib.MeasureTheory.Measure.Lebesgue.Basic

/-!
# Choosing among finitely many by a coordinate

A sampler maps a coordinate to the number of a cell. Where cell `i` lies
between two bounds, whichever of the bounds belong to it, the chance that the
number of the cell has a property is the length of the cells that have it.

> `volume_cells`: the measure of the coordinates whose cell has the property.

The cells of an inverse distribution function lie between its partial sums
(`partial_sums_cells`).
-/

namespace OSimFlow.Lib.Cells

open MeasureTheory Set

/-- The coordinates of `S` are mapped to the cells below `n`, and cell `i` is the interval
between `a i` and `b i`, with or without its ends. -/
structure Between (S : Set ℝ) (f : ℝ → ℕ) (n : ℕ) (a b : ℕ → ℝ) : Prop where
  lt : ∀ u ∈ S, f u < n
  inside : ∀ i < n, ∀ u, a i < u → u < b i → u ∈ S ∧ f u = i
  bounds : ∀ u ∈ S, a (f u) ≤ u ∧ u ≤ b (f u)

variable {S : Set ℝ} {f : ℝ → ℕ} {n : ℕ} {a b : ℕ → ℝ}

theorem Between.volume_le (h : Between S f n a b) (p : ℕ → Prop) [DecidablePred p] :
    volume {u | u ∈ S ∧ p (f u)} ≤
      ∑ i ∈ (Finset.range n).filter p, ENNReal.ofReal (b i - a i) := by
  have hcover : {u | u ∈ S ∧ p (f u)} ⊆
      ⋃ i ∈ (Finset.range n).filter p, Icc (a i) (b i) := by
    intro u hu
    obtain ⟨hS, hp⟩ := hu
    have hmem : f u ∈ (Finset.range n).filter p :=
      Finset.mem_filter.mpr ⟨Finset.mem_range.mpr (h.lt u hS), hp⟩
    exact mem_biUnion hmem (h.bounds u hS)
  calc volume {u | u ∈ S ∧ p (f u)}
      ≤ volume (⋃ i ∈ (Finset.range n).filter p, Icc (a i) (b i)) := measure_mono hcover
    _ ≤ ∑ i ∈ (Finset.range n).filter p, volume (Icc (a i) (b i)) :=
        measure_biUnion_finset_le _ _
    _ = ∑ i ∈ (Finset.range n).filter p, ENNReal.ofReal (b i - a i) :=
        Finset.sum_congr rfl fun i _ => Real.volume_Icc

theorem Between.le_volume (h : Between S f n a b) (p : ℕ → Prop) [DecidablePred p] :
    ∑ i ∈ (Finset.range n).filter p, ENNReal.ofReal (b i - a i) ≤
      volume {u | u ∈ S ∧ p (f u)} := by
  have hlt : ∀ i ∈ (Finset.range n).filter p, i < n :=
    fun i hi => Finset.mem_range.mp (Finset.mem_filter.mp hi).1
  have hdisjoint : ((Finset.range n).filter p : Set ℕ).PairwiseDisjoint
      fun i => Ioo (a i) (b i) := by
    intro i hi j hj hij
    refine Set.disjoint_left.mpr fun u hui huj => hij ?_
    rw [← (h.inside i (hlt i hi) u hui.1 hui.2).2, (h.inside j (hlt j hj) u huj.1 huj.2).2]
  have hsub : (⋃ i ∈ (Finset.range n).filter p, Ioo (a i) (b i)) ⊆ {u | u ∈ S ∧ p (f u)} := by
    intro u hu
    obtain ⟨i, hi, hiu⟩ := mem_iUnion₂.mp hu
    obtain ⟨hS, hf⟩ := h.inside i (hlt i hi) u hiu.1 hiu.2
    refine ⟨hS, ?_⟩
    rw [hf]
    exact (Finset.mem_filter.mp hi).2
  calc ∑ i ∈ (Finset.range n).filter p, ENNReal.ofReal (b i - a i)
      = ∑ i ∈ (Finset.range n).filter p, volume (Ioo (a i) (b i)) :=
        Finset.sum_congr rfl fun i _ => Real.volume_Ioo.symm
    _ = volume (⋃ i ∈ (Finset.range n).filter p, Ioo (a i) (b i)) :=
        (measure_biUnion_finset hdisjoint fun i _ => measurableSet_Ioo).symm
    _ ≤ volume {u | u ∈ S ∧ p (f u)} := measure_mono hsub

/-- The ends of the cells do not count. -/
theorem volume_cells (h : Between S f n a b) (p : ℕ → Prop) [DecidablePred p] :
    volume {u | u ∈ S ∧ p (f u)} =
      ∑ i ∈ (Finset.range n).filter p, ENNReal.ofReal (b i - a i) :=
  le_antisymm (h.volume_le p) (h.le_volume p)

/-! ## Partial sums -/

/-- The least partial sum above the coordinate names its cell: the cells are as long as the
terms of a sum that is one. -/
theorem partial_sums_cells {w : List ℝ} (hw : ∀ x ∈ w, 0 ≤ x) (hsum : w.sum = 1)
    (hbelow : ∀ u, ∀ i < f u, (w.take (i + 1)).sum ≤ u)
    (habove : ∀ u, ∀ i < w.length, f u ≤ i → u < (w.take (i + 1)).sum)
    (hlen : ∀ u, f u ≤ w.length) :
    Between (Ico 0 1) f w.length (fun i => (w.take i).sum) fun i => (w.take (i + 1)).sum := by
  have hmono : ∀ i j, i ≤ j → (w.take i).sum ≤ (w.take j).sum := by
    intro i j hij
    obtain ⟨k, rfl⟩ := Nat.exists_eq_add_of_le hij
    rw [List.take_add, List.sum_append]
    have hrest : 0 ≤ ((w.drop i).take k).sum :=
      List.sum_nonneg fun x hx => hw x (List.mem_of_mem_drop (List.mem_of_mem_take hx))
    linarith
  have hfull : ∀ i, w.length ≤ i → (w.take i).sum = 1 := by
    intro i hi
    rw [List.take_of_length_le hi, hsum]
  have hlt : ∀ u ∈ Ico (0 : ℝ) 1, f u < w.length := by
    intro u hu
    by_contra hge
    have hne : w ≠ [] := by
      rintro rfl
      exact absurd hsum (by simp)
    have hpos := List.length_pos_iff.mpr hne
    have hle := hbelow u (w.length - 1) (by omega)
    rw [hfull _ (by omega)] at hle
    exact absurd hu.2 (not_lt.mpr hle)
  refine ⟨hlt, fun i hi u hlow hhigh => ?_, fun u hu => ⟨?_, ?_⟩⟩
  · have hzero : (0 : ℝ) ≤ (w.take i).sum := hmono 0 i (Nat.zero_le i)
    have hone := hmono (i + 1) w.length hi
    rw [hfull w.length le_rfl] at hone
    refine ⟨⟨le_trans hzero (le_of_lt hlow), lt_of_lt_of_le hhigh hone⟩, ?_⟩
    rcases Nat.lt_trichotomy (f u) i with hlt' | heq | hgt
    · -- the sum up to `i` would be above the coordinate
      have habove' := habove u (i - 1) (by omega) (by omega)
      rw [Nat.sub_add_cancel (by omega)] at habove'
      exact absurd hlow (not_lt.mpr (le_of_lt habove'))
    · exact heq
    · exact absurd hhigh (not_lt.mpr (hbelow u i hgt))
  · cases hf : f u with
    | zero => exact hu.1
    | succ i => exact hbelow u i (by omega)
  · exact le_of_lt (habove u (f u) (hlt u hu) le_rfl)

end OSimFlow.Lib.Cells
