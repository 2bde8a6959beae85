import Mathlib.Data.List.GetD
import Mathlib.Tactic.Linarith
import OSimFlow.Algorithms.Sampling

/-!
# Inverse distribution functions of discrete variables

`qdiscrete` draws from a mass function: the probabilities are divided by their
sum, summed up, and `bisect` finds the first sum that is above the number the
generator gives. A probability that is infinite or not a number makes the sum
so, and `_check_pmf` refuses it; the others are elements of an ordered field.

`bisectRight_spec` says what `bisect` finds in a sorted list, and `getD_cumsum`
what it looks at.
-/

namespace OSimFlow.Algorithms.QDiscrete

open OSimFlow.Lib (Dict)
open Sampling (bisectLoop bisectRight cumsum)

/-- What `QDError` is raised for. -/
inductive QDError where
  | draws
  | emptyPmf
  | negative
  | noValues
  | missing (keys : String)
  | sigma
  | notPositive
  | bounds
  | mode
  | unsupported
deriving DecidableEq, Repr

variable {α K : Type} [Field K] [LinearOrder K]

/-- A mass function that `_check_pmf` lets pass. -/
structure Pmf (α K : Type) [Zero K] [LE K] where
  weights : Dict α K
  nonempty : weights.keys ≠ []
  nonneg : ∀ p ∈ weights.values, 0 ≤ p

/-- `_check_pmf`. -/
def checkPmf (pmf : Dict α K) : Except QDError (Pmf α K) :=
  if hne : pmf.keys = [] then .error .emptyPmf
  else if hneg : ∃ p ∈ pmf.values, p < 0 then .error .negative
  else .ok ⟨pmf, hne, fun p hp => not_lt.mp fun h => hneg ⟨p, hp, h⟩⟩

namespace Pmf

variable (pmf : Pmf α K)

def total : K := pmf.weights.values.sum

/-- `probs / probs.sum()`. Where the sum is 0 Python has no numbers here, and the field has
zeros: neither is above any number. -/
def probs : List K := pmf.weights.values.map fun p => p / pmf.total

/-- The distribution function; a last sum other than 1 is divided out. -/
def cdf : List K :=
  let sums := cumsum 0 pmf.probs
  if sums.getLastD 0 ≠ 1 then sums.map fun c => c / sums.getLastD 0 else sums

/-- `values[i] if i < len(values) else values[-1]`. -/
def draw (u : K) : α :=
  pmf.weights.keys.getD (bisectRight pmf.cdf u) (pmf.weights.keys.getLast pmf.nonempty)

end Pmf

/-- `np.random.default_rng`: the numbers that `random` gives one after another. -/
structure Rng (K : Type) [Zero K] [One K] [LE K] [LT K] where
  stream : Nat → K
  unit : ∀ i, 0 ≤ stream i ∧ stream i < 1

/-- `qdiscrete`, with the generator that `default_rng(seed)` is. -/
def qdiscrete (rng : Rng K) (pmf : Dict α K) (n : Int) : Except QDError (List α) := do
  if n < 1 then .error .draws
  let checked ← checkPmf pmf
  return (List.range n.toNat).map fun i => checked.draw (rng.stream i)

/-- A mass function passes the check unchanged. -/
theorem checkPmf_weights (pmf : Pmf α K) : checkPmf pmf.weights = .ok pmf := by
  have hneg : ¬ ∃ p ∈ pmf.weights.values, p < 0 := by
    intro ⟨p, hp, hlt⟩
    exact absurd (pmf.nonneg p hp) (not_le.mpr hlt)
  unfold checkPmf
  rw [dif_neg pmf.nonempty, dif_neg hneg]

theorem qdiscrete_weights (rng : Rng K) (pmf : Pmf α K) {n : Int} (hn : 1 ≤ n) :
    qdiscrete rng pmf.weights n =
      .ok ((List.range n.toNat).map fun i => pmf.draw (rng.stream i)) := by
  unfold qdiscrete
  rw [if_neg (by omega), checkPmf_weights]
  rfl

/-! ## `bisect` -/

/-- The invariant of the loop: what is left of the list stands between the elements that
are not above `x` and those that are. -/
theorem bisectLoop_spec {a : List K} {x : K} (hsorted : a.Pairwise (· ≤ ·)) (fuel lo hi : Nat)
    (hfuel : hi - lo ≤ fuel) (hlo : lo ≤ hi) (hhi : hi ≤ a.length)
    (hbelow : ∀ i < lo, a.getD i 0 ≤ x) (habove : ∀ i, hi ≤ i → i < a.length → x < a.getD i 0) :
    bisectLoop a x fuel lo hi ≤ a.length ∧
      (∀ i < bisectLoop a x fuel lo hi, a.getD i 0 ≤ x) ∧
      ∀ i, bisectLoop a x fuel lo hi ≤ i → i < a.length → x < a.getD i 0 := by
  have hmono : ∀ i j, i ≤ j → j < a.length → a.getD i 0 ≤ a.getD j 0 := by
    intro i j hij hj
    rcases Nat.lt_or_eq_of_le hij with hlt | rfl
    · rw [List.getD_eq_getElem _ _ (by omega), List.getD_eq_getElem _ _ hj]
      exact List.pairwise_iff_getElem.mp hsorted i j (by omega) hj hlt
    · exact le_rfl
  induction fuel generalizing lo hi with
  | zero =>
    have heq : lo = hi := by omega
    subst heq
    exact ⟨hhi, hbelow, habove⟩
  | succ fuel ih =>
    unfold bisectLoop
    split
    next hlt =>
      have hmid : (lo + hi) / 2 < hi := by omega
      split
      next hx =>
        refine ih lo ((lo + hi) / 2) (by omega) (by omega) (by omega) hbelow fun i hi' hlen => ?_
        exact lt_of_lt_of_le hx (hmono _ i hi' hlen)
      next hx =>
        refine ih ((lo + hi) / 2 + 1) hi (by omega) (by omega) hhi (fun i hi' => ?_) habove
        exact le_trans (hmono i _ (by omega) (by omega)) (not_lt.mp hx)
    next hge =>
      have heq : lo = hi := by omega
      subst heq
      exact ⟨hhi, hbelow, habove⟩

/-- `bisect_right` of a sorted list: the elements before it are not above `x`, the others
are. -/
theorem bisectRight_spec {a : List K} (hsorted : a.Pairwise (· ≤ ·)) (x : K) :
    bisectRight a x ≤ a.length ∧ (∀ i < bisectRight a x, a.getD i 0 ≤ x) ∧
      ∀ i, bisectRight a x ≤ i → i < a.length → x < a.getD i 0 := by
  refine bisectLoop_spec hsorted a.length 0 a.length (by omega) (by omega) le_rfl
    (fun i hi => absurd hi (by omega)) fun i hi hlen => absurd hlen (by omega)

/-! ## Partial sums -/

omit [LinearOrder K] in
@[simp] theorem length_cumsum (acc : K) (l : List K) : (cumsum acc l).length = l.length := by
  induction l generalizing acc with
  | nil => rfl
  | cons p l ih =>
    unfold cumsum
    rw [List.length_cons, ih, List.length_cons]

omit [LinearOrder K] in
theorem getD_cumsum (acc : K) {l : List K} {i : Nat} (hi : i < l.length) :
    (cumsum acc l).getD i 0 = acc + (l.take (i + 1)).sum := by
  induction l generalizing acc i with
  | nil => exact absurd hi (Nat.not_lt_zero i)
  | cons p l ih =>
    unfold cumsum
    cases i with
    | zero =>
      rw [List.getD_cons_zero, List.take_succ_cons, List.take_zero, List.sum_cons, List.sum_nil,
        add_zero]
    | succ i =>
      rw [List.getD_cons_succ, ih _ (Nat.lt_of_succ_lt_succ hi), List.take_succ_cons (i := i + 1),
        List.sum_cons, add_assoc]

theorem pairwise_cumsum [IsStrictOrderedRing K] {l : List K} (h : ∀ p ∈ l, 0 ≤ p) (acc : K) :
    (cumsum acc l).Pairwise (· ≤ ·) ∧ ∀ c ∈ cumsum acc l, acc ≤ c := by
  induction l generalizing acc with
  | nil => exact ⟨List.Pairwise.nil, fun _ hc => nomatch hc⟩
  | cons p l ih =>
    have hp := h p List.mem_cons_self
    obtain ⟨hpair, hle⟩ := ih (fun q hq => h q (List.mem_cons_of_mem _ hq)) (acc + p)
    unfold cumsum
    refine ⟨List.pairwise_cons.mpr ⟨hle, hpair⟩, fun c hc => ?_⟩
    rcases List.mem_cons.mp hc with rfl | hc
    · linarith
    · have := hle c hc
      linarith

omit [LinearOrder K] in
theorem sum_map_div (l : List K) (t : K) : (l.map fun p => p / t).sum = l.sum / t := by
  induction l with
  | nil => rw [List.map_nil, List.sum_nil, zero_div]
  | cons p l ih => rw [List.map_cons, List.sum_cons, ih, List.sum_cons, add_div]

end OSimFlow.Algorithms.QDiscrete
