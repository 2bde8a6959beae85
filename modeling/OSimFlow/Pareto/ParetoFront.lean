import Mathlib.Order.Defs.LinearOrder
import OSimFlow.Errors
import OSimFlow.Lib.Dict
import OSimFlow.Lib.Undominated

/-!
# The Pareto front, generation by generation

`add_generation` puts the solutions of a generation behind the front so far and
keeps what is not dominated; what it drops never comes back. Within one pass the
double loop of `_get_nondominated` does not compare with what it has already
found to be dominated.

Both are sound because `_dominates` is a strict order, also where objectives are
missing: a missing one breaks every domination, so a chain of dominations has
them all. The front is then the naive one, `undominated`, of all the solutions
ever added (`front_eq_batch`).
-/

namespace OSimFlow.Pareto

open OSimFlow.Lib

/-- A single point on the front. -/
structure ParetoSolution (R : Type) where
  sampleId : String
  objectives : Dict String R
  parameters : Dict String R
  generation : Nat

/-- The objectives of a front and their directions: `True` means higher is better. -/
structure Objectives where
  objectiveNames : List String
  maximize : List Bool
  length_eq : maximize.length = objectiveNames.length

section

variable {R : Type} [LT R] [DecidableLT R]

/-- The loop of `_dominates`. -/
def dominatesLoop (a b : ParetoSolution R) : List (String × Bool) → (strictlyBetter : Bool) → Bool
  | [], strictlyBetter => strictlyBetter
  | (name, shouldMax) :: rest, strictlyBetter =>
    match a.objectives.get? name, b.objectives.get? name with
    | some aVal, some bVal =>
      if shouldMax then
        if aVal < bVal then false
        else dominatesLoop a b rest (strictlyBetter || decide (bVal < aVal))
      else
        if bVal < aVal then false
        else dominatesLoop a b rest (strictlyBetter || decide (aVal < bVal))
    -- missing objectives break domination
    | _, _ => false

/-- `_dominates`. -/
def dominates (o : Objectives) (a b : ParetoSolution R) : Bool :=
  dominatesLoop a b (o.objectiveNames.zip o.maximize) false

/-- Does a solution that is not known to be dominated dominate the `i`-th? -/
def dominatedBy (o : Objectives) (solutions : List (ParetoSolution R)) (dominated : Finset Nat)
    (i : Nat) : Bool :=
  (List.range solutions.length).any fun j =>
    if i = j ∨ j ∈ dominated then false
    else
      match solutions[j]?, solutions[i]? with
      | some b, some a => dominates o b a
      | _, _ => false

/-- One turn of the outer loop. -/
def sweep (o : Objectives) (solutions : List (ParetoSolution R)) (dominated : Finset Nat)
    (i : Nat) : Finset Nat :=
  if i ∈ dominated then dominated
  else if dominatedBy o solutions dominated i then insert i dominated else dominated

/-- `_get_nondominated`. -/
def getNondominated (o : Objectives) (solutions : List (ParetoSolution R)) :
    List (ParetoSolution R) :=
  if solutions.length ≤ 1 then solutions
  else
    let dominated := (List.range solutions.length).foldl (sweep o solutions) ∅
    (solutions.zipIdx.filter fun s => decide (s.2 ∉ dominated)).map Prod.fst

/-- `add_generation`. -/
def addGeneration (o : Objectives) (front solutions : List (ParetoSolution R)) :
    List (ParetoSolution R) :=
  getNondominated o (front ++ solutions)

end

/-! ## Domination is a strict order -/

section

variable {R : Type} [LinearOrder R] {o : Objectives} {a b c : ParetoSolution R}
  {objectives : List (String × Bool)}

/-- `x` is better than `y` in the given direction. -/
def Better (shouldMax : Bool) (x y : R) : Prop :=
  if shouldMax then y < x else x < y

theorem better_trans {shouldMax : Bool} {x y z : R} (hxy : ¬ Better shouldMax y x)
    (hyz : ¬ Better shouldMax z y) : ¬ Better shouldMax z x := by
  cases shouldMax with
  | true => exact not_lt.mpr (le_trans (not_lt.mp hyz) (not_lt.mp hxy))
  | false => exact not_lt.mpr (le_trans (not_lt.mp hxy) (not_lt.mp hyz))

theorem better_of_better {shouldMax : Bool} {x y z : R} (hxy : Better shouldMax x y)
    (hyz : ¬ Better shouldMax z y) : Better shouldMax x z := by
  cases shouldMax with
  | true => exact lt_of_le_of_lt (not_lt.mp hyz) hxy
  | false => exact lt_of_lt_of_le hxy (not_lt.mp hyz)

/-- `a` is at least as good as `b` on an objective that both have. -/
def AtLeast (a b : ParetoSolution R) (objective : String × Bool) : Prop :=
  ∃ x y, a.objectives.get? objective.1 = some x ∧ b.objectives.get? objective.1 = some y ∧
    ¬ Better objective.2 y x

/-- And better. -/
def Strictly (a b : ParetoSolution R) (objective : String × Bool) : Prop :=
  ∃ x y, a.objectives.get? objective.1 = some x ∧ b.objectives.get? objective.1 = some y ∧
    Better objective.2 x y

theorem dominatesLoop_iff (strictly : Bool) : dominatesLoop a b objectives strictly = true ↔
    (∀ objective ∈ objectives, AtLeast a b objective) ∧
      (strictly = true ∨ ∃ objective ∈ objectives, Strictly a b objective) := by
  induction objectives generalizing strictly with
  | nil => simp [dominatesLoop]
  | cons objective rest ih =>
    obtain ⟨name, shouldMax⟩ := objective
    rw [dominatesLoop]
    cases ha : a.objectives.get? name with
    | none =>
      refine ⟨fun h => absurd h Bool.false_ne_true, fun h => ?_⟩
      obtain ⟨x, y, hx, -⟩ := h.1 _ List.mem_cons_self
      exact absurd (ha.symm.trans hx) nofun
    | some x =>
      cases hb : b.objectives.get? name with
      | none =>
        refine ⟨fun h => absurd h Bool.false_ne_true, fun h => ?_⟩
        obtain ⟨x', y, -, hy, -⟩ := h.1 _ List.mem_cons_self
        exact absurd (hb.symm.trans hy) nofun
      | some y =>
        have hleast : AtLeast a b (name, shouldMax) ↔ ¬ Better shouldMax y x := by
          constructor
          · rintro ⟨x', y', hx, hy, h⟩
            rw [Option.some.inj (ha.symm.trans hx), Option.some.inj (hb.symm.trans hy)]
            exact h
          · intro h
            exact ⟨x, y, ha, hb, h⟩
        have hstrictly : Strictly a b (name, shouldMax) ↔ Better shouldMax x y := by
          constructor
          · rintro ⟨x', y', hx, hy, h⟩
            rw [Option.some.inj (ha.symm.trans hx), Option.some.inj (hb.symm.trans hy)]
            exact h
          · intro h
            exact ⟨x, y, ha, hb, h⟩
        simp only [List.forall_mem_cons, List.exists_mem_cons_iff, hleast, hstrictly]
        cases shouldMax with
        | true =>
          simp only [if_true, Better]
          by_cases h : x < y
          · simp [h]
          · rw [if_neg h, ih, Bool.or_eq_true, decide_eq_true_iff, or_assoc]
            simp only [h, not_false_iff, true_and]
        | false =>
          simp only [Bool.false_eq_true, if_false, Better]
          by_cases h : y < x
          · simp [h]
          · rw [if_neg h, ih, Bool.or_eq_true, decide_eq_true_iff, or_assoc]
            simp only [h, not_false_iff, true_and]

theorem dominates_iff : dominates o a b = true ↔
    (∀ objective ∈ o.objectiveNames.zip o.maximize, AtLeast a b objective) ∧
      ∃ objective ∈ o.objectiveNames.zip o.maximize, Strictly a b objective := by
  rw [dominates, dominatesLoop_iff]
  simp only [Bool.false_eq_true, false_or]

/-- `a` dominates `b`. -/
def Dominates (o : Objectives) (a b : ParetoSolution R) : Prop :=
  dominates o a b = true

instance : DecidableRel (Dominates o : ParetoSolution R → ParetoSolution R → Prop) :=
  fun _ _ => inferInstanceAs (Decidable (_ = true))

instance : Std.Irrefl (Dominates o : ParetoSolution R → ParetoSolution R → Prop) := by
  refine ⟨fun a h => ?_⟩
  obtain ⟨hall, objective, hmem, x, y, hx, hy, hbetter⟩ := dominates_iff.mp h
  obtain ⟨x', y', hx', hy', hleast⟩ := hall objective hmem
  have hxy : x = y := Option.some.inj (hx.symm.trans hy)
  rw [Option.some.inj (hx'.symm.trans hx), Option.some.inj (hy'.symm.trans hy)] at hleast
  rw [hxy] at hbetter hleast
  exact hleast hbetter

instance : IsTrans (ParetoSolution R) (Dominates o) := by
  refine ⟨fun a b c hab hbc => ?_⟩
  obtain ⟨hall, objective, hmem, x, y, hx, hy, hbetter⟩ := dominates_iff.mp hab
  obtain ⟨hall', -⟩ := dominates_iff.mp hbc
  refine dominates_iff.mpr ⟨fun q hq => ?_, objective, hmem, ?_⟩
  · obtain ⟨x₁, y₁, hx₁, hy₁, h₁⟩ := hall q hq
    obtain ⟨y₂, z₂, hy₂, hz₂, h₂⟩ := hall' q hq
    rw [Option.some.inj (hy₂.symm.trans hy₁)] at h₂
    exact ⟨x₁, z₂, hx₁, hz₂, better_trans h₁ h₂⟩
  · obtain ⟨y₂, z₂, hy₂, hz₂, h₂⟩ := hall' objective hmem
    rw [Option.some.inj (hy₂.symm.trans hy)] at h₂
    exact ⟨x, z₂, hx, hz₂, better_of_better hbetter h₂⟩

/-! ## The double loop -/

variable {solutions : List (ParetoSolution R)} {dominated : Finset Nat} {i : Nat}

/-- The `i`-th solution is dominated. -/
def DominatedAt (o : Objectives) (solutions : List (ParetoSolution R)) (i : Nat) : Prop :=
  ∃ a, solutions[i]? = some a ∧ ∃ b ∈ solutions, Dominates o b a

/-- Skipping what is known to be dominated misses nothing: an undominated solution is never
skipped, and one of them dominates. -/
theorem dominatedBy_iff (hknown : ∀ j ∈ dominated, DominatedAt o solutions j) :
    dominatedBy o solutions dominated i = true ↔ DominatedAt o solutions i := by
  rw [dominatedBy, List.any_eq_true]
  constructor
  · rintro ⟨j, -, hj⟩
    split at hj
    · exact absurd hj Bool.false_ne_true
    · split at hj
      · next b a hb ha => exact ⟨a, ha, b, List.mem_of_getElem? hb, hj⟩
      · exact absurd hj Bool.false_ne_true
  · rintro ⟨a, ha, b, hb, hba⟩
    obtain ⟨z, hz, hza⟩ := exists_undominated (r := Dominates o) hb hba
    obtain ⟨hmem, hmin⟩ := mem_undominated.mp hz
    obtain ⟨j, hj⟩ := List.mem_iff_getElem?.mp hmem
    have hlt : j < solutions.length := (List.getElem?_eq_some_iff.mp hj).1
    have hskip : ¬ (i = j ∨ j ∈ dominated) := by
      rintro (hij | hin)
      · rw [hij, hj] at ha
        rw [Option.some.inj ha] at hza
        exact Std.Irrefl.irrefl a hza
      · obtain ⟨z', hz', c, hc, hcz⟩ := hknown j hin
        rw [← Option.some.inj (hj.symm.trans hz')] at hcz
        exact hmin c hc hcz
    refine ⟨j, List.mem_range.mpr hlt, ?_⟩
    rw [if_neg hskip, hj, ha]
    exact hza

theorem mem_sweep (hknown : ∀ j ∈ dominated, DominatedAt o solutions j) {j : Nat} :
    j ∈ sweep o solutions dominated i ↔ j ∈ dominated ∨ (j = i ∧ DominatedAt o solutions j) := by
  rw [sweep]
  by_cases hi : i ∈ dominated
  · rw [if_pos hi]
    refine ⟨Or.inl, ?_⟩
    rintro (h | ⟨rfl, -⟩)
    · exact h
    · exact hi
  · rw [if_neg hi]
    by_cases hd : DominatedAt o solutions i
    · rw [if_pos ((dominatedBy_iff hknown).mpr hd), Finset.mem_insert, or_comm]
      refine or_congr Iff.rfl ⟨fun h => ⟨h, h ▸ hd⟩, fun h => h.1⟩
    · rw [if_neg (fun h => hd ((dominatedBy_iff hknown).mp h))]
      refine ⟨Or.inl, ?_⟩
      rintro (h | ⟨rfl, h⟩)
      · exact h
      · exact absurd h hd

/-- What the outer loop has found. -/
theorem mem_foldl_sweep (turns : List Nat)
    (hknown : ∀ j ∈ dominated, DominatedAt o solutions j) {j : Nat} :
    j ∈ turns.foldl (sweep o solutions) dominated ↔
      j ∈ dominated ∨ (j ∈ turns ∧ DominatedAt o solutions j) := by
  induction turns generalizing dominated with
  | nil => exact ⟨Or.inl, fun h => h.resolve_right fun h => List.not_mem_nil h.1⟩
  | cons i turns ih =>
    have hstep : ∀ k ∈ sweep o solutions dominated i, DominatedAt o solutions k := by
      intro k hk
      rcases (mem_sweep hknown).mp hk with hk | ⟨-, hk⟩
      · exact hknown k hk
      · exact hk
    rw [List.foldl_cons, ih hstep, mem_sweep hknown, List.mem_cons, or_assoc, ← or_and_right]

/-- The early skips change nothing. -/
theorem getNondominated_eq (o : Objectives) (solutions : List (ParetoSolution R)) :
    getNondominated o solutions = undominated (Dominates o) solutions := by
  rw [getNondominated]
  split
  · next hlen =>
    -- nothing dominates itself
    refine (List.filter_eq_self.mpr fun a ha => ?_).symm
    rw [decide_eq_true_iff]
    intro b hb hba
    have hab : b = a := by
      rcases solutions with _ | ⟨c, _ | ⟨d, rest⟩⟩
      · exact absurd ha List.not_mem_nil
      · rw [List.mem_singleton.mp ha, List.mem_singleton.mp hb]
      · simp only [List.length_cons] at hlen
        omega
    rw [hab] at hba
    exact Std.Irrefl.irrefl a hba
  · have hkept : ∀ s ∈ solutions.zipIdx,
        decide (s.2 ∉ (List.range solutions.length).foldl (sweep o solutions) ∅) =
          decide (∀ b ∈ solutions, ¬ Dominates o b s.1) := by
      rintro ⟨a, i⟩ hs
      have ha : solutions[i]? = some a := List.mk_mem_zipIdx_iff_getElem?.mp hs
      have hlt : i < solutions.length := (List.getElem?_eq_some_iff.mp ha).1
      refine decide_eq_decide.mpr ?_
      rw [mem_foldl_sweep _ (fun j hj => absurd hj (Finset.notMem_empty j))]
      constructor
      · intro h b hb hba
        exact h (Or.inr ⟨List.mem_range.mpr hlt, a, ha, b, hb, hba⟩)
      · rintro h (hin | ⟨-, a', ha', b, hb, hba⟩)
        · exact Finset.notMem_empty i hin
        · rw [← Option.some.inj (ha.symm.trans ha')] at hba
          exact h b hb hba
    have hplain : ∀ p : ParetoSolution R → Bool,
        (solutions.zipIdx.filter (p ∘ Prod.fst)).map Prod.fst = solutions.filter p := by
      intro p
      rw [← List.filter_map, List.zipIdx_map_fst]
    show (solutions.zipIdx.filter _).map Prod.fst = _
    rw [List.filter_congr hkept]
    exact hplain fun a => decide (∀ b ∈ solutions, ¬ Dominates o b a)

/-- Generation by generation the front is what is undominated in all of them; and one pass of the
double loop is the naive definition. -/
theorem front_eq_batch (o : Objectives) :
    (∀ generations : List (List (ParetoSolution R)),
      generations.foldl (addGeneration o) [] =
        undominated (Dominates o) generations.flatten) ∧
    ∀ solutions : List (ParetoSolution R),
      getNondominated o solutions = undominated (Dominates o) solutions := by
  have hpass : addGeneration o =
      fun front gen => undominated (Dominates (R := R) o) (front ++ gen) := by
    funext front gen
    exact getNondominated_eq o (front ++ gen)
  refine ⟨fun generations => ?_, getNondominated_eq o⟩
  rw [hpass]
  exact foldl_undominated generations

end

end OSimFlow.Pareto
