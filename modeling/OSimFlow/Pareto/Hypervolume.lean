import OSimFlow.Lib.Hypervolume
import OSimFlow.Lib.Instances
import OSimFlow.Lib.Succeeds
import OSimFlow.Pareto.ParetoFront

/-!
# The hypervolume of the front

With two objectives `hypervolume` sweeps over the points itself, with the signs of the
maximised objectives turned. With more it hands the points to the indicator of the
library, which minimises, as they are.

> `Faithful`: what is computed for a front is the measure of what all the solutions ever
> added dominate, up to the reference point and in the directions of the objectives.
>
> `volume_faithful_iff`: this holds with two objectives, and with more if none is maximised.
-/

namespace OSimFlow.Pareto

open OSimFlow.Lib (Dict AsGood flipSign flipSign_le_iff minimise dominatedRegion staircase
  Stepped volume_staircase staircase_nonneg volume_dominatedRegion_flip dominatedRegion_eq
  undominated mem_undominated exists_undominated foldl_undominated mapM_ok_of_forall
  mem_dominatedRegion_minimise)

inductive HypervolumeError where
  | valueError (message : String)
  | keyError (name : String)
  | importError (message : String)

section

variable {R : Type} [Field R] [LinearOrder R]

/-- `pts[np.argsort(pts[:, 0])]`, in whatever order points with the same first coordinate
come. -/
structure ArgSort (R : Type) [LinearOrder R] where
  sort : List (Fin 2 → R) → List (Fin 2 → R)
  perm : ∀ points, (sort points).Perm points
  sorted : ∀ points, (sort points).Pairwise fun p q => p 0 ≤ q 0

/-- The indicator of pymoo: `HV(ref_point)(points)`. -/
structure Pymoo (R : Type) where
  hv : {n : Nat} → (Fin n → R) → List (Fin n → R) → R

attribute [local instance] Lib.neZero_two in
/-- The loop over the sorted points. -/
def sweepLoop (ref : Fin 2 → R) (hv : R) : List (Fin 2 → R) → R
  | [] => hv
  | [p] => hv + max 0 (ref 0 - p 0) * max 0 (ref 1 - p 1)
  | p :: q :: rest =>
    sweepLoop ref (hv + max 0 (q 0 - p 0) * max 0 (ref 1 - p 1)) (q :: rest)

/-- Flip maximisation axes. -/
def flipAxes {n : Nat} (maximize : Fin n → Bool) (p : Fin n → R) (j : Fin n) : R :=
  if maximize j then -p j else p j

/-- `_hypervolume_2d`. -/
def hypervolume2d (argsort : ArgSort R) (points : List (Fin 2 → R)) (refPoint : Fin 2 → R)
    (maximize : Fin 2 → Bool) : R :=
  let ref := flipAxes maximize refPoint
  -- points that are worse than the reference on any axis are discarded
  let pts := (points.map (flipAxes maximize)).filter fun p => decide (∀ j, p j ≤ ref j)
  if pts.isEmpty then 0 else sweepLoop ref 0 (argsort.sort pts)

/-- The row of a solution. -/
def Objectives.point (o : Objectives) (s : ParetoSolution R) (j : Fin o.objectiveNames.length) :
    R :=
  (s.objectives.get? (o.objectiveNames.get j)).getD 0

/-- `[s.objectives[name] for name in self._objective_names]`. -/
def Objectives.row (o : Objectives) (s : ParetoSolution R) :
    Except HypervolumeError (Fin o.objectiveNames.length → R) :=
  match o.objectiveNames.find? fun name => (s.objectives.get? name).isNone with
  | some name => .error (.keyError name)
  | none => .ok (o.point s)

/-- The directions by the places of the objectives. -/
def Objectives.flags (o : Objectives) (j : Fin o.objectiveNames.length) : Bool :=
  o.maximize.get (j.cast o.length_eq.symm)

/-- `hypervolume`, on the solutions of the front; `pymoo` may not be installed. -/
def hypervolume (argsort : ArgSort R) (pymoo : Option (Pymoo R)) (o : Objectives)
    (solutions : List (ParetoSolution R)) (refPoint : List R) : Except HypervolumeError R :=
  if o.objectiveNames.length < 2 then
    .error (.valueError "Hypervolume requires at least 2 objectives")
  else if hlen : refPoint.length = o.objectiveNames.length then
    if solutions.isEmpty then .ok 0
    else
      match solutions.mapM o.row with
      | .error e => .error e
      | .ok points =>
        let ref := fun j : Fin o.objectiveNames.length => refPoint.get (j.cast hlen.symm)
        if h : o.objectiveNames.length = 2 then
          .ok (hypervolume2d argsort (points.map fun p j => p (j.cast h.symm))
            (fun j => ref (j.cast h.symm)) fun j => o.flags (j.cast h.symm))
        else
          match pymoo with
          | some pymoo => .ok (pymoo.hv ref points)
          | none => .error (.importError
            "Hypervolume for 3+ objectives requires pymoo. Install with: pip install osimflow[optimization]")
  else
    .error (.valueError
      s!"ref_point length ({refPoint.length}) must match objective count ({o.objectiveNames.length})")

end

/-! ## What it should be -/

/-- The indicator minimises. -/
def Pymoo.Minimises (pymoo : Pymoo ℝ) : Prop :=
  ∀ {n : Nat} (ref : Fin n → ℝ) (points : List (Fin n → ℝ)),
    pymoo.hv ref points = Lib.hypervolume minimise points ref

/-- A solution has all objectives. -/
def Measured (o : Objectives) (s : ParetoSolution ℝ) : Prop :=
  ∀ name ∈ o.objectiveNames, (s.objectives.get? name).isSome = true

/-- What is computed for the front is the measure of what the solutions dominate. -/
def Faithful (o : Objectives) : Prop :=
  ∀ (argsort : ArgSort ℝ) (pymoo : Pymoo ℝ), pymoo.Minimises →
    ∀ generations : List (List (ParetoSolution ℝ)), (∀ s ∈ generations.flatten, Measured o s) →
      ∀ (refPoint : List ℝ) (hlen : refPoint.length = o.objectiveNames.length),
        2 ≤ o.objectiveNames.length →
          hypervolume argsort (some pymoo) o (generations.foldl (addGeneration o) []) refPoint =
            .ok (Lib.hypervolume o.flags (generations.flatten.map o.point)
              fun j => refPoint.get (j.cast hlen.symm))

/-! ## The front covers what was added -/

variable {o : Objectives} {a b : ParetoSolution ℝ}

theorem mem_zip_iff {objective : String × Bool} :
    objective ∈ o.objectiveNames.zip o.maximize ↔
      ∃ j : Fin o.objectiveNames.length, objective = (o.objectiveNames.get j, o.flags j) := by
  rw [List.mem_iff_get]
  have hlen : (o.objectiveNames.zip o.maximize).length = o.objectiveNames.length := by
    rw [List.length_zip, o.length_eq, Nat.min_self]
  constructor
  · intro ⟨j, hj⟩
    refine ⟨j.cast hlen, hj.symm.trans ?_⟩
    rw [List.get_eq_getElem, List.getElem_zip]
    rfl
  · intro ⟨j, hj⟩
    refine ⟨j.cast hlen.symm, ?_⟩
    rw [hj, List.get_eq_getElem, List.getElem_zip]
    rfl

theorem not_better_iff {maximize : Bool} {x y : ℝ} : ¬ Better maximize y x ↔ AsGood maximize x y := by
  cases maximize with
  | true => exact not_lt
  | false => exact not_lt

/-- A solution dominates another if its point is as good everywhere and the other's is not. -/
theorem dominates_iff_point (ha : Measured o a) (hb : Measured o b) :
    Dominates o a b ↔ (∀ j, AsGood (o.flags j) (o.point a j) (o.point b j)) ∧
      ∃ j, ¬ AsGood (o.flags j) (o.point b j) (o.point a j) := by
  have hget : ∀ {s : ParetoSolution ℝ}, Measured o s → ∀ j,
      s.objectives.get? (o.objectiveNames.get j) = some (o.point s j) := by
    intro s hs j
    obtain ⟨x, hx⟩ := Option.isSome_iff_exists.mp (hs _ (List.get_mem _ j))
    rw [hx, Objectives.point, hx]
    rfl
  have hatLeast : ∀ j, AtLeast a b (o.objectiveNames.get j, o.flags j) ↔
      AsGood (o.flags j) (o.point a j) (o.point b j) := by
    intro j
    rw [← not_better_iff]
    constructor
    · intro ⟨x, y, hx, hy, h⟩
      rw [← Option.some.inj (hx.symm.trans (hget ha j)), ← Option.some.inj (hy.symm.trans (hget hb j))]
      exact h
    · intro h
      exact ⟨_, _, hget ha j, hget hb j, h⟩
  have hstrictly : ∀ j, Strictly a b (o.objectiveNames.get j, o.flags j) ↔
      ¬ AsGood (o.flags j) (o.point b j) (o.point a j) := by
    intro j
    rw [← not_better_iff, not_not]
    constructor
    · intro ⟨x, y, hx, hy, h⟩
      rw [← Option.some.inj (hx.symm.trans (hget ha j)), ← Option.some.inj (hy.symm.trans (hget hb j))]
      exact h
    · intro h
      exact ⟨_, _, hget ha j, hget hb j, h⟩
  rw [Dominates, dominates_iff]
  constructor
  · intro ⟨hall, objective, hmem, h⟩
    obtain ⟨j, rfl⟩ := mem_zip_iff.mp hmem
    exact ⟨fun j => (hatLeast j).mp (hall _ (mem_zip_iff.mpr ⟨j, rfl⟩)), j, (hstrictly j).mp h⟩
  · intro ⟨hall, j, h⟩
    refine ⟨fun objective hmem => ?_, _, mem_zip_iff.mpr ⟨j, rfl⟩, (hstrictly j).mpr h⟩
    obtain ⟨j, rfl⟩ := mem_zip_iff.mp hmem
    exact (hatLeast j).mpr (hall j)

theorem foldl_addGeneration (o : Objectives) (generations : List (List (ParetoSolution ℝ))) :
    generations.foldl (addGeneration o) [] = undominated (Dominates o) generations.flatten := by
  have hpass : addGeneration o =
      fun front gen => undominated (Dominates (R := ℝ) o) (front ++ gen) := by
    funext front gen
    exact getNondominated_eq o (front ++ gen)
  rw [hpass]
  exact foldl_undominated generations

variable {solutions : List (ParetoSolution ℝ)}

/-- Some solution of the front is as good. -/
theorem exists_front (hall : ∀ s ∈ solutions, Measured o s) (ha : a ∈ solutions) :
    ∃ b ∈ undominated (Dominates o) solutions,
      ∀ j, AsGood (o.flags j) (o.point b j) (o.point a j) := by
  by_cases hdominated : ∃ c ∈ solutions, Dominates o c a
  · obtain ⟨c, hc, hca⟩ := hdominated
    obtain ⟨b, hb, hba⟩ := exists_undominated hc hca
    exact ⟨b, hb, ((dominates_iff_point (hall b (mem_undominated.mp hb).1) (hall a ha)).mp hba).1⟩
  · refine ⟨a, mem_undominated.mpr ⟨ha, fun c hc hca => hdominated ⟨c, hc, hca⟩⟩, fun j => ?_⟩
    exact flipSign_le_iff.mp (le_refl _)

/-- The front dominates what all the solutions do. -/
theorem dominatedRegion_front (hall : ∀ s ∈ solutions, Measured o s)
    (ref : Fin o.objectiveNames.length → ℝ) :
    dominatedRegion o.flags ((undominated (Dominates o) solutions).map o.point) ref =
      dominatedRegion o.flags (solutions.map o.point) ref := by
  refine dominatedRegion_eq ref (fun p hp => ?_) fun p hp => ?_
  · obtain ⟨a, ha, rfl⟩ := List.mem_map.mp hp
    exact List.mem_map_of_mem (mem_undominated.mp ha).1
  · obtain ⟨a, ha, rfl⟩ := List.mem_map.mp hp
    obtain ⟨b, hb, hgood⟩ := exists_front hall ha
    exact ⟨o.point b, List.mem_map_of_mem hb, hgood⟩

/-- No point of a front is better than another. -/
def Level {n : Nat} (maximize : Fin n → Bool) (points : List (Fin n → ℝ)) : Prop :=
  ∀ p ∈ points, ∀ q ∈ points, (∀ j, AsGood (maximize j) (p j) (q j)) →
    ∀ j, AsGood (maximize j) (q j) (p j)

theorem level_front (hall : ∀ s ∈ solutions, Measured o s) :
    Level o.flags ((undominated (Dominates o) solutions).map o.point) := by
  intro p hp q hq hgood
  obtain ⟨a, ha, rfl⟩ := List.mem_map.mp hp
  obtain ⟨b, hb, rfl⟩ := List.mem_map.mp hq
  obtain ⟨ha, _⟩ := mem_undominated.mp ha
  obtain ⟨hb, hnone⟩ := mem_undominated.mp hb
  by_contra hbetter
  exact hnone a ha ((dominates_iff_point (hall a ha) (hall b hb)).mpr
    ⟨hgood, not_forall.mp hbetter⟩)

/-! ## Two objectives -/

variable {points : List (Fin 2 → ℝ)} {ref : Fin 2 → ℝ}

/-- Where the points go down the stairs, no side of a rectangle is negative. -/
theorem sweepLoop_eq (hv : ℝ) (h : Stepped points) (href : ∀ p ∈ points, p ≤ ref) :
    sweepLoop ref hv points = hv + staircase ref points := by
  induction points generalizing hv with
  | nil => exact (add_zero hv).symm
  | cons p rest ih =>
    obtain ⟨hfirst, hrest⟩ := List.pairwise_cons.mp h
    have hp := href p List.mem_cons_self
    cases rest with
    | nil =>
      rw [sweepLoop, staircase, max_eq_right (sub_nonneg.mpr (hp 0)),
        max_eq_right (sub_nonneg.mpr (hp 1))]
    | cons q rest =>
      have hstep := hfirst q List.mem_cons_self
      rw [sweepLoop, ih _ hrest fun r hr => href r (List.mem_cons_of_mem p hr), staircase,
        max_eq_right (sub_nonneg.mpr hstep.1), max_eq_right (sub_nonneg.mpr (hp 1)), add_assoc]

/-- A point that is not as good as the reference point dominates nothing up to it. -/
theorem dominatedRegion_filter (points : List (Fin 2 → ℝ)) (ref : Fin 2 → ℝ) :
    dominatedRegion minimise (points.filter fun p => decide (∀ j, p j ≤ ref j)) ref =
      dominatedRegion minimise points ref := by
  ext x
  rw [mem_dominatedRegion_minimise, mem_dominatedRegion_minimise]
  constructor
  · intro ⟨p, hp, hx⟩
    exact ⟨p, (List.mem_filter.mp hp).1, hx⟩
  · intro ⟨p, hp, hx⟩
    obtain ⟨hlow, hhigh⟩ := Set.mem_Icc.mp hx
    exact ⟨p, List.mem_filter.mpr ⟨hp, decide_eq_true (le_trans hlow hhigh)⟩, hx⟩

theorem dominatedRegion_perm {points points' : List (Fin 2 → ℝ)} (h : points.Perm points')
    (ref : Fin 2 → ℝ) :
    dominatedRegion minimise points ref = dominatedRegion minimise points' ref := by
  ext x
  rw [mem_dominatedRegion_minimise, mem_dominatedRegion_minimise]
  exact exists_congr fun p => and_congr_left fun _ => h.mem_iff

/-- Sorted by the first coordinate, points none of which is better than another go down in
the second. -/
theorem stepped_of_sorted (hsorted : points.Pairwise fun p q => p 0 ≤ q 0)
    (h : ∀ p ∈ points, ∀ q ∈ points, p ≤ q → q ≤ p) : Stepped points := by
  refine hsorted.imp_of_mem fun {p q} hp hq hle => ⟨hle, ?_⟩
  by_contra hup
  have hpq : p ≤ q := Fin.forall_fin_two.mpr ⟨hle, (not_le.mp hup).le⟩
  exact hup (h p hp q hq hpq 1)

/-- The sweep computes the measure for points none of which is better than another. -/
theorem hypervolume2d_eq (argsort : ArgSort ℝ) {maximize : Fin 2 → Bool}
    (h : Level maximize points) :
    hypervolume2d argsort points ref maximize = Lib.hypervolume maximize points ref := by
  have hflip : Lib.hypervolume maximize points ref =
      Lib.hypervolume minimise (points.map (flipAxes maximize)) (flipAxes maximize ref) :=
    congrArg ENNReal.toReal (volume_dominatedRegion_flip maximize points ref)
  rw [hypervolume2d, hflip, Lib.hypervolume, ← dominatedRegion_filter]
  generalize hkept : ((points.map (flipAxes maximize)).filter fun p =>
    decide (∀ j, p j ≤ flipAxes maximize ref j)) = kept
  have hmem : ∀ p ∈ kept, p ∈ points.map (flipAxes maximize) ∧ p ≤ flipAxes maximize ref := by
    intro p hp
    rw [← hkept] at hp
    obtain ⟨hp, hle⟩ := List.mem_filter.mp hp
    have hbelow : ∀ j, p j ≤ flipAxes maximize ref j := of_decide_eq_true hle
    exact ⟨hp, hbelow⟩
  have hlevel : ∀ p ∈ kept, ∀ q ∈ kept, p ≤ q → q ≤ p := by
    intro p hp q hq hle j
    obtain ⟨a, ha, rfl⟩ := List.mem_map.mp (hmem p hp).1
    obtain ⟨b, hb, rfl⟩ := List.mem_map.mp (hmem q hq).1
    exact flipSign_le_iff.mpr (h a ha b hb (fun i => flipSign_le_iff.mp (hle i)) j)
  have hsort : ∀ p ∈ argsort.sort kept, p ∈ kept := fun p hp => (argsort.perm kept).mem_iff.mp hp
  have hstepped : Stepped (argsort.sort kept) :=
    stepped_of_sorted (argsort.sorted kept) fun p hp q hq =>
      hlevel p (hsort p hp) q (hsort q hq)
  have href : ∀ p ∈ argsort.sort kept, p ≤ flipAxes maximize ref :=
    fun p hp => (hmem p (hsort p hp)).2
  rw [← dominatedRegion_perm (argsort.perm kept), volume_staircase hstepped href,
    ENNReal.toReal_ofReal (staircase_nonneg hstepped href), sweepLoop_eq 0 hstepped href, zero_add]
  split
  next hempty =>
    -- nothing is left to sort
    have hnil : argsort.sort kept = [] := by
      have hperm := argsort.perm kept
      rw [List.isEmpty_iff.mp hempty] at hperm
      rw [List.isEmpty_iff.mp hempty]
      exact hperm.eq_nil
    rw [hnil]
    rfl
  next => rfl

/-! ## The front -/

theorem mapM_row (hall : ∀ s ∈ solutions, Measured o s) :
    solutions.mapM o.row = .ok (solutions.map o.point) := by
  have hrow : ∀ s ∈ solutions, o.row s = .ok (o.point s) := by
    intro s hs
    have hnone : (o.objectiveNames.find? fun name => (s.objectives.get? name).isNone) = none :=
      List.find?_eq_none.mpr fun name hname => by
        rw [Option.isNone_iff_eq_none]
        exact Option.isSome_iff_ne_none.mp (hall s hs name hname)
    rw [Objectives.row, hnone]
  exact mapM_ok_of_forall hrow

/-- With two objectives, in whatever order they are numbered. -/
theorem hypervolume2d_cast (argsort : ArgSort ℝ) {n : Nat} (hn : n = 2) {maximize : Fin n → Bool}
    {points : List (Fin n → ℝ)} (ref : Fin n → ℝ) (h : Level maximize points) :
    hypervolume2d argsort (points.map fun p j => p (j.cast hn.symm))
      (fun j => ref (j.cast hn.symm)) (fun j => maximize (j.cast hn.symm)) =
        Lib.hypervolume maximize points ref := by
  subst hn
  have hsame : (points.map fun p (j : Fin 2) => p (j.cast rfl)) = points := List.map_id points
  rw [hsame]
  exact hypervolume2d_eq argsort h

/-- The measure for an empty front. -/
theorem hypervolume_nil {n : Nat} (maximize : Fin n → Bool) (ref : Fin n → ℝ) :
    Lib.hypervolume maximize [] ref = 0 := by
  have hempty : dominatedRegion maximize [] ref = ∅ :=
    Set.eq_empty_of_forall_notMem fun _ ⟨_, hp, _⟩ => nomatch hp
  rw [Lib.hypervolume, hempty, MeasureTheory.measure_empty, ENNReal.toReal_zero]

/-- What `hypervolume` returns for a front: the measure with two objectives, and with more
what the indicator makes of the points. -/
theorem hypervolume_ok (argsort : ArgSort ℝ) {pymoo : Pymoo ℝ} (hpymoo : pymoo.Minimises)
    (hall : ∀ s ∈ solutions, Measured o s) (hlevel : Level o.flags (solutions.map o.point))
    {refPoint : List ℝ} (hlen : refPoint.length = o.objectiveNames.length)
    (htwo : 2 ≤ o.objectiveNames.length) :
    hypervolume argsort (some pymoo) o solutions refPoint =
      .ok (Lib.hypervolume (if o.objectiveNames.length = 2 then o.flags else minimise)
        (solutions.map o.point) fun j => refPoint.get (j.cast hlen.symm)) := by
  rw [hypervolume, if_neg (Nat.not_lt.mpr htwo), dif_pos hlen]
  split
  next hempty =>
    rw [List.isEmpty_iff.mp hempty, List.map_nil, hypervolume_nil]
  next =>
    rw [mapM_row hall]
    dsimp only
    split
    next hn =>
      exact congrArg Except.ok (hypervolume2d_cast argsort hn
        (fun j => refPoint.get (j.cast hlen.symm)) hlevel)
    next => rw [hpymoo]

attribute [local instance] Lib.neZero_two in
/-- A sort by the first coordinate. -/
noncomputable def byFirst : ArgSort ℝ where
  sort := List.insertionSort fun p q => p 0 ≤ q 0
  perm := List.perm_insertionSort _
  sorted := @List.pairwise_insertionSort _ (fun p q : Fin 2 → ℝ => p 0 ≤ q 0) _
    ⟨fun p q => le_total (p 0) (q 0)⟩ ⟨fun _ _ _ => le_trans⟩

/-- The indicator as it is documented. -/
noncomputable def documented : Pymoo ℝ where
  hv ref points := Lib.hypervolume minimise points ref

/-- A solution that is zero in every objective. -/
noncomputable def zeroSolution (o : Objectives) : ParetoSolution ℝ where
  sampleId := "0001"
  objectives := Dict.setAll ∅ (o.objectiveNames.map fun name => (name, 0))
  parameters := ∅
  generation := 0

/-- A reference point that is worse than it by one in every objective. -/
noncomputable def unitRef (o : Objectives) : List ℝ :=
  List.ofFn fun j => if o.flags j then -1 else 1

theorem zeroSolution_get? {name : String} (h : name ∈ o.objectiveNames) :
    (zeroSolution o).objectives.get? name = some 0 := by
  have hlast : Dict.lastOf name (o.objectiveNames.map fun name => (name, (0 : ℝ))) = some 0 := by
    refine Dict.lastOf_eq_some (List.mem_map_of_mem h) fun x hx => ?_
    obtain ⟨_, _, heq⟩ := List.mem_map.mp hx
    exact (Prod.mk.inj heq).2.symm
  rw [zeroSolution, Dict.get?_setAll, hlast]
  rfl

theorem point_zeroSolution (o : Objectives) : o.point (zeroSolution o) = fun _ => 0 := by
  funext j
  rw [Objectives.point, zeroSolution_get? (List.get_mem _ j)]
  rfl

/-- The zero solution dominates a cube. -/
theorem hypervolume_cube {n : Nat} (maximize : Fin n → Bool) :
    Lib.hypervolume maximize [fun _ => 0] (fun j => if maximize j then -1 else 1) = 1 := by
  have hzero : (fun j : Fin n => flipSign (maximize j) 0) = fun _ => 0 := by
    funext j
    unfold flipSign
    split
    next => exact neg_zero
    next => rfl
  have hone : (fun j : Fin n => flipSign (maximize j) (if maximize j then -1 else 1)) =
      fun _ => 1 := by
    funext j
    unfold flipSign
    split
    next => exact neg_neg 1
    next => rfl
  have hcube : dominatedRegion minimise [fun _ : Fin n => (0 : ℝ)] (fun _ => 1) =
      Set.Icc (fun _ => 0) fun _ => 1 := by
    ext x
    rw [mem_dominatedRegion_minimise]
    simp
  rw [Lib.hypervolume, volume_dominatedRegion_flip, List.map_singleton, hzero, hone, hcube,
    Real.volume_Icc_pi]
  simp

/-- The indicator sees nothing of it if an objective is maximised. -/
theorem hypervolume_outside {n : Nat} {maximize : Fin n → Bool} {j : Fin n}
    (hj : maximize j = true) :
    Lib.hypervolume minimise [fun _ => 0] (fun j => if maximize j then -1 else 1) = 0 := by
  have hempty : dominatedRegion minimise [fun _ => (0 : ℝ)]
      (fun j => if maximize j then -1 else 1) = ∅ := by
    refine Set.eq_empty_of_forall_notMem fun x hx => ?_
    obtain ⟨p, hp, hx⟩ := mem_dominatedRegion_minimise.mp hx
    obtain ⟨hlow, hhigh⟩ := Set.mem_Icc.mp hx
    cases List.mem_singleton.mp hp
    have hbelow : (0 : ℝ) ≤ if maximize j = true then -1 else 1 := le_trans (hlow j) (hhigh j)
    rw [if_pos hj] at hbelow
    linarith
  rw [Lib.hypervolume, hempty, MeasureTheory.measure_empty, ENNReal.toReal_zero]

/-- The front of the zero solution. -/
theorem front_zeroSolution (o : Objectives) :
    [[zeroSolution o]].foldl (addGeneration o) [] = [zeroSolution o] := by
  show getNondominated o [zeroSolution o] = _
  rw [getNondominated, if_pos (show [zeroSolution o].length ≤ 1 from Nat.le_refl 1)]

theorem measured_zeroSolution (o : Objectives) : ∀ s ∈ [zeroSolution o], Measured o s := by
  intro s hs name hname
  rw [List.mem_singleton.mp hs, zeroSolution_get? hname]
  rfl

/-- With more than two objectives a maximised one is read with the wrong sign. -/
theorem not_faithful (hmany : 2 < o.objectiveNames.length) (hmax : true ∈ o.maximize) :
    ¬ Faithful o := by
  intro h
  obtain ⟨i, hi⟩ := List.mem_iff_get.mp hmax
  have hj : o.flags (i.cast o.length_eq) = true := hi
  have hlen : (unitRef o).length = o.objectiveNames.length := List.length_ofFn
  have href : (fun j => (unitRef o).get (j.cast hlen.symm)) =
      fun j => if o.flags j then -1 else 1 := by
    funext j
    rw [List.get_eq_getElem]
    exact List.getElem_ofFn _
  have hlevel : Level o.flags ([zeroSolution o].map o.point) := by
    intro p hp q hq _ j
    rw [List.mem_singleton.mp hp, List.mem_singleton.mp hq]
    exact flipSign_le_iff.mp (le_refl _)
  have hresult := h byFirst documented (fun _ _ => rfl) [[zeroSolution o]]
    (measured_zeroSolution o) (unitRef o) hlen (by omega)
  rw [front_zeroSolution, hypervolume_ok byFirst (fun _ _ => rfl) (measured_zeroSolution o) hlevel
    hlen (by omega), if_neg (by omega)] at hresult
  have hsame := Except.ok.inj hresult
  rw [List.flatten_singleton, List.map_singleton, point_zeroSolution, href,
    hypervolume_outside hj, hypervolume_cube] at hsame
  exact zero_ne_one hsame

/-- The hypervolume of the front is the measure of what the solutions dominate, for every
list of generations and every reference point, if there are two objectives or none of them
is maximised, and only then. -/
theorem volume_faithful_iff (o : Objectives) :
    Faithful o ↔ o.objectiveNames.length ≤ 2 ∨ ∀ maximize ∈ o.maximize, maximize = false := by
  constructor
  · intro h
    by_contra hother
    obtain ⟨hmany, hmax⟩ := not_or.mp hother
    refine not_faithful (Nat.not_le.mp hmany) ?_ h
    by_contra hnone
    exact hmax fun flag hflag => eq_false_of_ne_true fun htrue => hnone (htrue ▸ hflag)
  · intro hcondition argsort pymoo hpymoo generations hall refPoint hlen htwo
    rw [foldl_addGeneration]
    have hmeasured : ∀ s ∈ undominated (Dominates o) generations.flatten, Measured o s :=
      fun s hs => hall s (mem_undominated.mp hs).1
    rw [hypervolume_ok argsort hpymoo hmeasured (level_front hall) hlen htwo]
    have hflags : (if o.objectiveNames.length = 2 then o.flags else minimise) = o.flags := by
      split
      next => rfl
      next hn =>
        funext j
        exact (hcondition.resolve_left (by omega) _ (List.get_mem _ _)).symm
    rw [hflags, Lib.hypervolume, dominatedRegion_front hall]
    rfl

/-- Cost and energy use are minimised, comfort is maximised. -/
theorem comfort_not_faithful :
    ¬ Faithful ⟨["cost", "eui", "comfort"], [false, false, true], rfl⟩ :=
  not_faithful (by decide) (by decide)

end OSimFlow.Pareto
