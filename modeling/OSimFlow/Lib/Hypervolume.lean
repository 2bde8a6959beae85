import Mathlib

/-!
# The hypervolume of a set of points

Each coordinate is minimised or maximised. A set of points dominates, up to a reference
point, whatever lies between one of them and the reference point (`dominatedRegion`); the
hypervolume is the measure of that region.

To turn the sign of a maximised coordinate makes it a minimised one, and does not change
the measure (`volume_dominatedRegion_flip`). In the plane the measure is the area under a
staircase, a rectangle for each step (`volume_staircase`).
-/

namespace OSimFlow.Lib

open MeasureTheory Set

variable {n : Nat}

/-- `x` is at least as good as `y`. -/
def AsGood (maximize : Bool) (x y : ℝ) : Prop :=
  if maximize then y ≤ x else x ≤ y

/-- What the points dominate up to the reference point. -/
def dominatedRegion (maximize : Fin n → Bool) (points : List (Fin n → ℝ)) (ref : Fin n → ℝ) :
    Set (Fin n → ℝ) :=
  {x | ∃ p ∈ points, ∀ j, AsGood (maximize j) (p j) (x j) ∧ AsGood (maximize j) (x j) (ref j)}

/-- Its measure. -/
noncomputable def hypervolume (maximize : Fin n → Bool) (points : List (Fin n → ℝ))
    (ref : Fin n → ℝ) : ℝ :=
  (volume (dominatedRegion maximize points ref)).toReal

/-- To turn the sign of what is maximised. -/
def flipSign (maximize : Bool) (x : ℝ) : ℝ := if maximize then -x else x

theorem flipSign_le_iff {maximize : Bool} {x y : ℝ} :
    flipSign maximize x ≤ flipSign maximize y ↔ AsGood maximize x y := by
  cases maximize with
  | false => exact Iff.rfl
  | true => exact neg_le_neg_iff

/-- All coordinates are minimised. -/
def minimise : Fin n → Bool := fun _ => false

theorem mem_dominatedRegion_minimise {points : List (Fin n → ℝ)} {ref x : Fin n → ℝ} :
    x ∈ dominatedRegion minimise points ref ↔ ∃ p ∈ points, x ∈ Icc p ref :=
  exists_congr fun _ => and_congr_right fun _ => forall_and

theorem dominatedRegion_minimise_cons (p : Fin n → ℝ) (points : List (Fin n → ℝ))
    (ref : Fin n → ℝ) :
    dominatedRegion minimise (p :: points) ref =
      Icc p ref ∪ dominatedRegion minimise points ref := by
  ext x
  rw [mem_union, mem_dominatedRegion_minimise, mem_dominatedRegion_minimise,
    List.exists_mem_cons_iff]

theorem dominatedRegion_minimise_nil (ref : Fin n → ℝ) :
    dominatedRegion minimise [] ref = ∅ :=
  eq_empty_of_forall_notMem fun _ ⟨_, hp, _⟩ => nomatch hp

theorem measurableSet_dominatedRegion (points : List (Fin n → ℝ)) (ref : Fin n → ℝ) :
    MeasurableSet (dominatedRegion minimise points ref) := by
  induction points with
  | nil =>
    rw [dominatedRegion_minimise_nil]
    exact MeasurableSet.empty
  | cons p points ih =>
    rw [dominatedRegion_minimise_cons]
    exact measurableSet_Icc.union ih

/-- A region with turned signs has the same measure. -/
theorem volume_dominatedRegion_flip (maximize : Fin n → Bool) (points : List (Fin n → ℝ))
    (ref : Fin n → ℝ) :
    volume (dominatedRegion maximize points ref) =
      volume (dominatedRegion minimise
        (points.map fun p j => flipSign (maximize j) (p j))
        fun j => flipSign (maximize j) (ref j)) := by
  have hflip : MeasurePreserving (fun (x : Fin n → ℝ) j => flipSign (maximize j) (x j)) :=
    volume_preserving_pi fun j => by
      cases maximize j with
      | false => exact MeasurePreserving.id volume
      | true => exact Measure.measurePreserving_neg volume
  have hpreimage : dominatedRegion maximize points ref =
      Set.preimage (fun x j => flipSign (maximize j) (x j))
        (dominatedRegion minimise (points.map fun p j => flipSign (maximize j) (p j))
          fun j => flipSign (maximize j) (ref j)) := by
    have hmem : ∀ p x : Fin n → ℝ,
        ((fun j => flipSign (maximize j) (x j)) ∈ Icc (fun j => flipSign (maximize j) (p j))
          fun j => flipSign (maximize j) (ref j)) ↔
        ∀ j, AsGood (maximize j) (p j) (x j) ∧ AsGood (maximize j) (x j) (ref j) := by
      intro p x
      rw [mem_Icc, Pi.le_def, Pi.le_def, forall_and]
      simp only [flipSign_le_iff]
    ext x
    rw [mem_preimage, mem_dominatedRegion_minimise]
    constructor
    · intro ⟨p, hp, h⟩
      exact ⟨_, List.mem_map_of_mem hp, (hmem p x).mpr h⟩
    · intro ⟨_, hq, h⟩
      obtain ⟨p, hp, rfl⟩ := List.mem_map.mp hq
      exact ⟨p, hp, (hmem p x).mp h⟩
  rw [hpreimage]
  exact hflip.measure_preimage (measurableSet_dominatedRegion _ _).nullMeasurableSet

/-- Points that others are as good as add nothing. -/
theorem dominatedRegion_eq {maximize : Fin n → Bool} {points front : List (Fin n → ℝ)}
    (ref : Fin n → ℝ) (hsub : ∀ p ∈ front, p ∈ points)
    (hcover : ∀ p ∈ points, ∃ q ∈ front, ∀ j, AsGood (maximize j) (q j) (p j)) :
    dominatedRegion maximize front ref = dominatedRegion maximize points ref := by
  ext x
  constructor
  · intro ⟨p, hp, h⟩
    exact ⟨p, hsub p hp, h⟩
  · intro ⟨p, hp, h⟩
    obtain ⟨q, hq, hgood⟩ := hcover p hp
    refine ⟨q, hq, fun j => ⟨?_, (h j).2⟩⟩
    exact flipSign_le_iff.mp (le_trans (flipSign_le_iff.mpr (hgood j))
      (flipSign_le_iff.mpr (h j).1))

/-! ## The plane -/

/-- The area under the staircase of the points, from the left to the right. -/
def staircase (ref : Fin 2 → ℝ) : List (Fin 2 → ℝ) → ℝ
  | [] => 0
  | [p] => (ref 0 - p 0) * (ref 1 - p 1)
  | p :: q :: rest => (q 0 - p 0) * (ref 1 - p 1) + staircase ref (q :: rest)

/-- To the right and not up. -/
def Stepped (points : List (Fin 2 → ℝ)) : Prop :=
  points.Pairwise fun p q => p 0 ≤ q 0 ∧ q 1 ≤ p 1

theorem staircase_nonneg {points : List (Fin 2 → ℝ)} {ref : Fin 2 → ℝ} (h : Stepped points)
    (href : ∀ p ∈ points, p ≤ ref) : 0 ≤ staircase ref points := by
  induction points with
  | nil => exact le_refl 0
  | cons p rest ih =>
    obtain ⟨hfirst, hrest⟩ := List.pairwise_cons.mp h
    have hp := href p List.mem_cons_self
    cases rest with
    | nil => exact mul_nonneg (sub_nonneg.mpr (hp 0)) (sub_nonneg.mpr (hp 1))
    | cons q rest =>
      have hstep := hfirst q List.mem_cons_self
      have htail := ih hrest fun q hq => href q (List.mem_cons_of_mem p hq)
      exact add_nonneg (mul_nonneg (sub_nonneg.mpr hstep.1) (sub_nonneg.mpr (hp 1))) htail

theorem volume_Icc_two {p ref : Fin 2 → ℝ} (h : p ≤ ref) :
    volume (Icc p ref) = ENNReal.ofReal ((ref 0 - p 0) * (ref 1 - p 1)) := by
  rw [Real.volume_Icc_pi, Fin.prod_univ_two, ENNReal.ofReal_mul (sub_nonneg.mpr (h 0))]

/-- The part of a step that the next one does not cover. -/
def tread (p q ref : Fin 2 → ℝ) : Set (Fin 2 → ℝ) :=
  univ.pi ![Ico (p 0) (q 0), Icc (p 1) (ref 1)]

theorem mem_tread {p q ref x : Fin 2 → ℝ} :
    x ∈ tread p q ref ↔ (p 0 ≤ x 0 ∧ x 0 < q 0) ∧ p 1 ≤ x 1 ∧ x 1 ≤ ref 1 := by
  rw [tread, mem_univ_pi, Fin.forall_fin_two]
  rfl

theorem volume_tread {p q ref : Fin 2 → ℝ} (h : p 0 ≤ q 0) :
    volume (tread p q ref) = ENNReal.ofReal ((q 0 - p 0) * (ref 1 - p 1)) := by
  rw [tread, volume_pi_pi, Fin.prod_univ_two, ENNReal.ofReal_mul (sub_nonneg.mpr h)]
  show volume (Ico (p 0) (q 0)) * volume (Icc (p 1) (ref 1)) = _
  rw [Real.volume_Ico, Real.volume_Icc]

/-- A step and the steps behind it. -/
theorem dominatedRegion_step {p q ref : Fin 2 → ℝ} {rest : List (Fin 2 → ℝ)}
    (h : Stepped (p :: q :: rest)) (href : ∀ r ∈ p :: q :: rest, r ≤ ref) :
    dominatedRegion minimise (p :: q :: rest) ref =
      tread p q ref ∪ dominatedRegion minimise (q :: rest) ref := by
  obtain ⟨hfirst, _⟩ := List.pairwise_cons.mp h
  have hstep := hfirst q List.mem_cons_self
  have hq := href q (List.mem_cons_of_mem p List.mem_cons_self)
  ext x
  rw [dominatedRegion_minimise_cons, mem_union, mem_union, mem_tread, mem_Icc, Pi.le_def,
    Pi.le_def, Fin.forall_fin_two, Fin.forall_fin_two]
  constructor
  · rintro (⟨⟨hx0, hx1⟩, hr0, hr1⟩ | hrest)
    · rcases lt_or_ge (x 0) (q 0) with hlt | hge
      · exact Or.inl ⟨⟨hx0, hlt⟩, hx1, hr1⟩
      · refine Or.inr (mem_dominatedRegion_minimise.mpr ⟨q, List.mem_cons_self, ?_⟩)
        rw [mem_Icc, Pi.le_def, Pi.le_def, Fin.forall_fin_two, Fin.forall_fin_two]
        exact ⟨⟨hge, le_trans hstep.2 hx1⟩, hr0, hr1⟩
    · exact Or.inr hrest
  · rintro (⟨⟨hx0, hlt⟩, hx1, hr1⟩ | hrest)
    · exact Or.inl ⟨⟨hx0, hx1⟩, le_trans hlt.le (hq 0), hr1⟩
    · exact Or.inr hrest

/-- The steps behind it are to the right. -/
theorem disjoint_tread {p q ref : Fin 2 → ℝ} {rest : List (Fin 2 → ℝ)}
    (h : Stepped (q :: rest)) :
    Disjoint (tread p q ref) (dominatedRegion minimise (q :: rest) ref) := by
  obtain ⟨hfirst, _⟩ := List.pairwise_cons.mp h
  rw [Set.disjoint_left]
  intro x hx hrest
  obtain ⟨r, hr, hle⟩ := mem_dominatedRegion_minimise.mp hrest
  have hqr : q 0 ≤ r 0 := by
    rcases List.mem_cons.mp hr with rfl | hr
    · exact le_refl _
    · exact (hfirst r hr).1
  exact absurd (le_trans hqr ((mem_Icc.mp hle).1 0)) (not_le.mpr (mem_tread.mp hx).1.2)

/-- The measure of what stepped points dominate is the area under the staircase. -/
theorem volume_staircase {points : List (Fin 2 → ℝ)} {ref : Fin 2 → ℝ} (h : Stepped points)
    (href : ∀ p ∈ points, p ≤ ref) :
    volume (dominatedRegion minimise points ref) = ENNReal.ofReal (staircase ref points) := by
  induction points with
  | nil =>
    rw [dominatedRegion_minimise_nil, measure_empty, staircase, ENNReal.ofReal_zero]
  | cons p rest ih =>
    obtain ⟨hfirst, hrest⟩ := List.pairwise_cons.mp h
    have hp := href p List.mem_cons_self
    have htail : ∀ q ∈ rest, q ≤ ref := fun q hq => href q (List.mem_cons_of_mem p hq)
    cases rest with
    | nil =>
      rw [dominatedRegion_minimise_cons, dominatedRegion_minimise_nil, union_empty, staircase,
        volume_Icc_two hp]
    | cons q rest =>
      have hstep := hfirst q List.mem_cons_self
      rw [dominatedRegion_step h href,
        measure_union (disjoint_tread hrest) (measurableSet_dominatedRegion _ _), ih hrest htail,
        volume_tread hstep.1, staircase, ENNReal.ofReal_add]
      · exact mul_nonneg (sub_nonneg.mpr hstep.1) (sub_nonneg.mpr (hp 1))
      · exact staircase_nonneg hrest htail

end OSimFlow.Lib
