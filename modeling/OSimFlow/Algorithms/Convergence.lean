import Mathlib
import OSimFlow.Algorithms.Swarm
import OSimFlow.Lib.Instances
import OSimFlow.Lib.Undominated

/-!
# When an optimiser says that it has converged

Before every generation but the first the campaign loop asks `is_converged`, and calls
`observe` if the answer is no. What `is_converged` compares is what the calls of `observe`
so far have left.

> `StopsOnBest`: an answer of yes needs two observed generations, and a best value that
> the last of them improved by less than the tolerance; a best value that it left as it
> was gives a yes.

This is what DE, GA, island GA, dual annealing and rgenoud do. PSO says yes as well when
its best value is next to zero. NSGA-II and SPEA-II compare hypervolumes, each of them
recorded over a reference point of its own: the largest values observed, plus one. A
generation of dominated points leaves the recorded hypervolume as it was if it leaves the
largest values as they were.
-/

namespace OSimFlow.Algorithms.Convergence

open OSimFlow.Lib (Extended run run_inv undominated mem_undominated)
open OSimFlow.Algorithms.Pso (Position Result Swarm PSOAlgorithm argmin)

/-! ## The campaign loop -/

/-- What the loop uses of an algorithm. `is_converged` gets the length of the history; a
call of `observe` that raises gives `none`. -/
structure BaseAlgorithm (S R : Type) where
  initial : S
  observe : S → R → Option S
  isConverged : Nat → S → Bool

/-- The loop before a generation, with what was read at the calls of `observe` for the
account. -/
structure Loop (S R : Type) where
  state : S
  generations : Nat
  observed : List R
  stopped : Bool

section

variable {S R : Type} (algorithm : BaseAlgorithm S R)

/-- After generation 0. -/
def BaseAlgorithm.begin : Loop S R := ⟨algorithm.initial, 1, [], false⟩

/-- One turn of the loop: `is_converged`, and if it says no `observe`. -/
def BaseAlgorithm.turn (c : Loop S R) (results : R) : Loop S R :=
  if c.stopped then c
  else if algorithm.isConverged c.generations c.state then { c with stopped := true }
  else
    match algorithm.observe c.state results with
    | none => { c with stopped := true }
    | some s => ⟨s, c.generations + 1, c.observed ++ [results], false⟩

/-- The algorithm after some calls of `observe`. -/
def BaseAlgorithm.after (calls : List R) : Option S :=
  calls.foldlM algorithm.observe algorithm.initial

/-- After any calls of `observe`, what they read and the answer of `is_converged` are
related by `P`. -/
def BaseAlgorithm.Answers (P : List R → Bool → Prop) : Prop :=
  ∀ calls s, algorithm.after calls = some s →
    P calls (algorithm.isConverged (calls.length + 1) s)

variable {algorithm}

theorem BaseAlgorithm.after_concat {calls : List R} {results : R} {s : S}
    (h : algorithm.after (calls ++ [results]) = some s) :
    ∃ before, algorithm.after calls = some before ∧
      algorithm.observe before results = some s := by
  rw [BaseAlgorithm.after, List.foldlM_append] at h
  obtain ⟨before, hbefore, hlast⟩ := Option.bind_eq_some_iff.mp h
  rw [List.foldlM_cons] at hlast
  obtain ⟨last, hobserve, hnil⟩ := Option.bind_eq_some_iff.mp hlast
  exact ⟨before, hbefore, hobserve.trans hnil⟩

/-- The loop is where its calls of `observe` have brought the algorithm. -/
theorem BaseAlgorithm.after_observed (turns : List R) :
    let c := run algorithm.turn algorithm.begin turns
    algorithm.after c.observed = some c.state ∧ c.generations = c.observed.length + 1 := by
  refine run_inv algorithm.turn
    (I := fun c => algorithm.after c.observed = some c.state ∧
      c.generations = c.observed.length + 1) ?_ ⟨rfl, rfl⟩ turns
  intro c results ⟨hafter, hlength⟩
  rw [BaseAlgorithm.turn]
  split
  next => exact ⟨hafter, hlength⟩
  next =>
    split
    next => exact ⟨hafter, hlength⟩
    next =>
      split
      next => exact ⟨hafter, hlength⟩
      next s hs =>
        constructor
        · rw [BaseAlgorithm.after, List.foldlM_append, ← BaseAlgorithm.after, hafter]
          show (algorithm.observe c.state results).bind some = some s
          rw [hs]
          rfl
        · rw [hlength, List.length_append]
          rfl

theorem BaseAlgorithm.Answers.of_answer {P : List R → Bool → Prop} (h : algorithm.Answers P)
    {calls : List R} {answer : Bool}
    (hanswer : (algorithm.after calls).map (algorithm.isConverged (calls.length + 1)) =
      some answer) : P calls answer := by
  obtain ⟨s, hs, rfl⟩ := Option.map_eq_some_iff.mp hanswer
  exact h calls s hs

/-- What holds after any calls of `observe` holds whenever the loop asks. -/
theorem BaseAlgorithm.Answers.asked {P : List R → Bool → Prop} (h : algorithm.Answers P)
    (turns : List R) :
    let c := run algorithm.turn algorithm.begin turns
    P c.observed (algorithm.isConverged c.generations c.state) := by
  obtain ⟨hafter, hlength⟩ := algorithm.after_observed turns
  intro c
  rw [hlength]
  exact h c.observed c.state hafter

end

section

variable {K : Type} [Field K] [LinearOrder K]

/-! ## One objective -/

/-- `_prev_best` and `_best_value`. -/
structure Best (K : Type) where
  prev : Extended K
  best : Extended K

/-- `_update_best` of DE, GA, dual annealing and rgenoud. -/
def updateBest (effs : List (Extended K)) (s : Best K) : Best K :=
  ⟨s.best, effs.foldl (fun best eff => if eff < best then eff else best) s.best⟩

/-- The same in `observe` of the island GA. -/
def gaislUpdateBest (effs : List (Extended K)) (s : Best K) : Best K :=
  ⟨s.best, effs.foldl min s.best⟩

/-- `relative_change < tol`, after the test for a zero. -/
def changedLess (tol prev curr : K) : Bool :=
  if prev = 0 then decide (curr = 0) else decide (|curr - prev| / |prev| < tol)

/-- `is_converged` of the five. What involves an infinity is `nan` or infinite, and not
below `tol`. -/
def isConverged (tol : K) (generations : Nat) (s : Best K) : Bool :=
  if generations < 2 then false
  else
    match s.prev, s.best with
    | .finite prev, .finite best => changedLess tol prev best
    | _, _ => false

/-- DE, GA, island GA, dual annealing and rgenoud, on the rows that a call reads. -/
def scalar (algorithm : ScalarAlgorithm) (maximize : Bool) (tol : K) :
    BaseAlgorithm (Best K) (List (Row K (Extended K))) where
  initial := ⟨.posInf, .posInf⟩
  observe s rows :=
    let effs := rows.map (algorithm.effective maximize)
    match rows, algorithm with
    | [], _ => some s
    | _ :: _, .gaisl => some (gaislUpdateBest effs s)
    | _ :: _, _ => some (updateBest effs s)
  isConverged := isConverged tol

/-- What a call of `observe` of the swarm reads and draws. -/
structure Observation (K : Type) where
  results : List (Result K)
  r1 : Nat → Nat → K
  r2 : Nat → Nat → K

/-- PSO, on what a call reads. -/
def swarm (pso : PSOAlgorithm K) : BaseAlgorithm (Swarm K) (Observation K) where
  initial := Swarm.empty K
  observe s o :=
    match o.results with
    | [] => some s
    | r :: rows =>
      match s.absorb pso.independentVars.length r rows with
      | .error _ => none
      | .ok current =>
        match pso.move o.r1 o.r2 current with
        | .error _ => none
        | .ok moved => some moved
  isConverged _ s := pso.isConverged s

/-! ## Several objectives -/

variable {n : Nat}

/-- A point dominates another if it is nowhere above it and somewhere below. -/
instance dominatesDecidable : DecidableRel fun a b : Fin n → K => a < b := fun a b =>
  decidable_of_iff ((∀ j, a j ≤ b j) ∧ ∃ j, a j < b j) Pi.lt_def.symm

/-- The hypervolume indicator of the library. It raises or measures what the points
dominate up to a reference point, which takes no more than the ones that are not
dominated. -/
structure Indicator (K : Type) [Field K] [LinearOrder K] (n : Nat) where
  hv : (Fin n → K) → List (Fin n → K) → Option K
  front : ∀ refPoint F F',
    (∀ x, x ∈ undominated (· < ·) F ↔ x ∈ undominated (· < ·) F') →
      hv refPoint F = hv refPoint F'

/-- `np.max(F, axis=0) + 1.0`. -/
def refPoint (f : Fin n → K) (F : List (Fin n → K)) (j : Fin n) : K :=
  (F.map fun x => x j).foldl max (f j) + 1

/-- What `_update_hypervolume` appends for the rows of `F`. -/
def recorded (ind : Indicator K n) (f : Fin n → K) (F : List (Fin n → K)) : K :=
  (ind.hv (refPoint f F) (f :: F)).getD 0

/-- NSGA-II and SPEA-II, on the rows of `F_signed`; the state is `_hv_history`. -/
def vector (ind : Indicator K n) (hvTol : K) :
    BaseAlgorithm (List K) (List (Fin n → K)) where
  initial := []
  observe hvHistory F :=
    match F with
    | [] => some hvHistory
    | f :: F => some (hvHistory ++ [recorded ind f F])
  isConverged _ hvHistory :=
    match hvHistory.reverse with
    | curr :: prev :: _ => changedLess hvTol prev curr
    | _ => false

/-! ## What convergence should mean -/

/-- The least of the values. -/
def bestOf (effs : List (Extended K)) : Extended K := effs.foldl min .posInf

/-- From `x` to `y` is less than the tolerance, relative to `x`. -/
def Close (tol x y : K) : Prop := y = x ∨ |y - x| < tol * |x|

/-- The generations from which something was read. -/
def seen {α : Type} (calls : List (List α)) : List (List α) :=
  calls.filter fun results => !results.isEmpty

/-- The best value before the last of the generations, and after it. -/
def ImprovedLess (tol : K) (generations : List (List (Extended K))) : Prop :=
  ∃ x y, bestOf generations.dropLast.flatten = .finite x ∧
    bestOf generations.flatten = .finite y ∧ Close tol x y

/-- The last generation has left a best value as it was, and that is finite and not
zero. -/
def Unimproved (generations : List (List (Extended K))) : Prop :=
  ∃ x, x ≠ 0 ∧ bestOf generations.dropLast.flatten = .finite x ∧
    bestOf generations.flatten = .finite x

/-- Yes means no improvement, and no improvement a yes. -/
def StopsOnBest (tol : K) (generations : List (List (Extended K))) (answer : Bool) : Prop :=
  (answer = true → 2 ≤ generations.length ∧ ImprovedLess tol generations) ∧
    (2 ≤ generations.length → Unimproved generations → answer = true)

attribute [local instance] Lib.atLeastTwo_ten in
/-- The same for PSO, from two generations on: a best value next to zero is enough. -/
def StopsNearZero (tol : K) (generations : List (List (Extended K))) (answer : Bool) : Prop :=
  (generations = [] → answer = false) ∧
    (2 ≤ generations.length →
      (answer = true → ImprovedLess tol generations ∨
        ∃ y, bestOf generations.flatten = .finite y ∧ |y| < 1 / 10 ^ 12) ∧
      (Unimproved generations → answer = true))

/-- No point of `D` is above all of `F` in some objective. -/
def WithinMaxima (F D : List (Fin n → K)) : Prop :=
  ∀ d ∈ D, ∀ j, ∃ f ∈ F, d j ≤ f j

/-- Yes means that the recorded hypervolume has not changed much. It has not changed at
all if the points that are not dominated and the reference point are the same, as they
are if the points that came were dominated and above no maximum. -/
def StopsOnHypervolume (ind : Indicator K n) (tol : K) (generations : List (List (Fin n → K)))
    (answer : Bool) : Prop :=
  (answer = true → ∃ before f F g G, generations = before ++ [f :: F, g :: G] ∧
    Close tol (recorded ind f F) (recorded ind g G)) ∧
  (∀ before f F g G, generations = before ++ [f :: F, g :: G] →
    (∀ x, x ∈ undominated (· < ·) (f :: F) ↔ x ∈ undominated (· < ·) (g :: G)) →
    refPoint f F = refPoint g G → answer = true) ∧
  ∀ before f F D, generations = before ++ [f :: F, f :: F ++ D] →
    (∀ d ∈ D, ∃ x ∈ f :: F, x < d) → WithinMaxima (f :: F) D →
    recorded ind f (F ++ D) = recorded ind f F ∧ answer = true

/-! ## One generation after the other -/

theorem seen_concat {α : Type} (calls : List (List α)) (r : α) (rows : List α) :
    seen (calls ++ [r :: rows]) = seen calls ++ [r :: rows] := by
  rw [seen, List.filter_append]
  rfl

theorem seen_concat_nil {α : Type} (calls : List (List α)) :
    seen (calls ++ [[]]) = seen calls := by
  rw [seen, List.filter_append]
  exact List.append_nil _

theorem exists_cons_of_mem_seen {α : Type} {calls : List (List α)} {results : List α}
    (h : results ∈ seen calls) : ∃ r rows, results = r :: rows := by
  cases results with
  | nil => exact nomatch (List.mem_filter.mp h).2
  | cons r rows => exact ⟨r, rows, rfl⟩

omit [Field K] in
theorem bestOf_append (effs last : List (Extended K)) :
    bestOf (effs ++ last) = last.foldl min (bestOf effs) :=
  List.foldl_append

variable [IsStrictOrderedRing K] {tol : K}

theorem changedLess_iff (htol : 0 < tol) {prev curr : K} :
    changedLess tol prev curr = true ↔ Close tol prev curr := by
  rw [changedLess, Close]
  split
  next hzero =>
    rw [decide_eq_true_iff, hzero, abs_zero, mul_zero]
    exact ⟨Or.inl, fun h => h.resolve_right (not_lt.mpr (abs_nonneg _))⟩
  next hne =>
    have hpos : 0 < |prev| := abs_pos.mpr hne
    rw [decide_eq_true_iff, div_lt_iff₀ hpos]
    refine ⟨Or.inr, fun h => h.elim (fun heq => ?_) id⟩
    rw [heq, sub_self, abs_zero]
    exact mul_pos htol hpos

/-! ## The optimisers of one objective -/

omit [Field K] [IsStrictOrderedRing K] in
/-- To keep the smaller is `min`. -/
theorem updateBest_eq (effs : List (Extended K)) (s : Best K) :
    updateBest effs s = gaislUpdateBest effs s := by
  have hmin : (fun best eff : Extended K => if eff < best then eff else best) = min := by
    funext best eff
    rw [min_comm, min_def_lt]
  rw [updateBest, gaislUpdateBest, hmin]

omit [IsStrictOrderedRing K] in
theorem scalar_observe_cons (algorithm : ScalarAlgorithm) (maximize : Bool) (s : Best K)
    (r : Row K (Extended K)) (rows : List (Row K (Extended K))) :
    (scalar algorithm maximize tol).observe s (r :: rows) =
      some (gaislUpdateBest ((r :: rows).map (algorithm.effective maximize)) s) := by
  cases algorithm with
  | gaisl => rfl
  | pso | ga | de | dualAnnealing | rgenoud => exact congrArg some (updateBest_eq _ s)

/-- The effective values of the generations that were read. -/
def effectives (algorithm : ScalarAlgorithm) (maximize : Bool)
    (calls : List (List (Row K (Extended K)))) : List (List (Extended K)) :=
  seen (calls.map fun rows => rows.map (algorithm.effective maximize))

omit [IsStrictOrderedRing K] in
/-- The best value is the best of all generations, the previous one that of all but the
last. -/
theorem scalar_after (algorithm : ScalarAlgorithm) (maximize : Bool)
    (calls : List (List (Row K (Extended K)))) {s : Best K}
    (h : (scalar algorithm maximize tol).after calls = some s) :
    s = ⟨bestOf (effectives algorithm maximize calls).dropLast.flatten,
      bestOf (effectives algorithm maximize calls).flatten⟩ := by
  induction calls using List.reverseRecOn generalizing s with
  | nil => exact (Option.some.inj h).symm
  | append_singleton calls rows ih =>
    obtain ⟨before, hbefore, hobserve⟩ := BaseAlgorithm.after_concat h
    have hs := ih hbefore
    rw [effectives, List.map_append, List.map_singleton]
    cases rows with
    | nil =>
      rw [List.map_nil, seen_concat_nil, ← effectives, ← hs]
      exact (Option.some.inj hobserve).symm
    | cons r rows =>
      rw [scalar_observe_cons] at hobserve
      rw [List.map_cons, seen_concat, ← effectives, List.dropLast_concat, List.flatten_append,
        List.flatten_singleton, bestOf_append, ← Option.some.inj hobserve, hs]
      rfl

theorem isConverged_iff (htol : 0 < tol) {generations : Nat} (hlong : 2 ≤ generations)
    (s : Best K) :
    isConverged tol generations s = true ↔
      ∃ x y, s.prev = .finite x ∧ s.best = .finite y ∧ Close tol x y := by
  rw [isConverged, if_neg (Nat.not_lt.mpr hlong)]
  split
  next x y hprev hbest =>
    rw [changedLess_iff htol, hprev, hbest]
    refine ⟨fun h => ⟨x, y, rfl, rfl, h⟩, fun ⟨x', y', hx, hy, h⟩ => ?_⟩
    cases hx
    cases hy
    exact h
  next hother =>
    refine iff_of_false Bool.false_ne_true fun ⟨x, y, hprev, hbest, _⟩ => ?_
    exact hother x y hprev hbest

omit [Field K] [IsStrictOrderedRing K] in
/-- A best value before the last generation takes a generation before it. -/
theorem two_le_length {generations : List (List (Extended K))} {x : K}
    (h : bestOf generations.dropLast.flatten = .finite x) : 2 ≤ generations.length := by
  match generations with
  | [] | [_] => exact nomatch h
  | _ :: _ :: _ => exact Nat.le_add_left 2 _

omit [LinearOrder K] [IsStrictOrderedRing K] in
theorem effectives_length_le (algorithm : ScalarAlgorithm) (maximize : Bool)
    (calls : List (List (Row K (Extended K)))) :
    (effectives algorithm maximize calls).length ≤ calls.length := by
  have := List.length_filter_le (fun results : List (Extended K) => !results.isEmpty)
    (calls.map fun rows => rows.map (algorithm.effective maximize))
  rwa [List.length_map] at this

theorem scalar_answers (htol : 0 < tol) (algorithm : ScalarAlgorithm) (maximize : Bool) :
    (scalar algorithm maximize tol).Answers fun calls answer =>
      StopsOnBest tol (effectives algorithm maximize calls) answer := by
  intro calls s h
  have hs := scalar_after algorithm maximize calls h
  have hlength := effectives_length_le algorithm maximize calls
  show StopsOnBest tol _ (isConverged tol (calls.length + 1) s)
  constructor
  · intro hyes
    have hlong : 2 ≤ calls.length + 1 := by
      by_contra hshort
      rw [isConverged, if_pos (Nat.not_le.mp hshort)] at hyes
      exact Bool.false_ne_true hyes
    obtain ⟨x, y, hx, hy, hclose⟩ := (isConverged_iff htol hlong s).mp hyes
    rw [hs] at hx hy
    exact ⟨two_le_length hx, x, y, hx, hy, hclose⟩
  · intro hlong ⟨x, _, hx, hy⟩
    refine (isConverged_iff htol (by omega) s).mpr ⟨x, x, ?_, ?_, Or.inl rfl⟩
    · rw [hs]
      exact hx
    · rw [hs]
      exact hy

/-! ## The swarm -/

/-- The values of the generations that were read. -/
def fits (calls : List (Observation K)) : List (List (Extended K)) :=
  seen (calls.map fun o => o.results.map Prod.snd)

omit [Field K] [IsStrictOrderedRing K] in
theorem argmin_value (r : Result K) (rows : List (Result K)) :
    (argmin r rows).2 = (rows.map Prod.snd).foldl min r.2 := by
  induction rows generalizing r with
  | nil => rfl
  | cons r' rows ih =>
    have hmin : (if r'.2 < r.2 then r' else r).2 = min r.2 r'.2 := by
      rw [min_comm, min_def_lt]
      split <;> rfl
    rw [argmin, ih, hmin]
    rfl

omit [Field K] [IsStrictOrderedRing K] in
theorem bestOf_cons (x : Extended K) (xs : List (Extended K)) :
    bestOf (x :: xs) = xs.foldl min x := by
  have hx : min .posInf x = x := min_eq_right (not_lt.mp (Extended.not_posInf_lt x))
  rw [bestOf, List.foldl_cons, hx]

omit [IsStrictOrderedRing K] in
theorem move_keeps {pso : PSOAlgorithm K} {r1 r2 : Nat → Nat → K} {s s' : Swarm K}
    (h : pso.move r1 r2 s = .ok s') :
    s'.globalBest = s.globalBest ∧ s'.prevGlobalBest = s.prevGlobalBest ∧
      s'.initialized = s.initialized := by
  rw [PSOAlgorithm.move] at h
  split at h
  next =>
    cases h
    exact ⟨rfl, rfl, rfl⟩
  next => cases h

/-- The swarm as the generations read have left it. -/
structure Follows (generations : List (List (Extended K))) (s : Swarm K) : Prop where
  initialized : s.initialized = true ↔ generations ≠ []
  best : s.globalBest.2 = bestOf generations.flatten
  prev : 2 ≤ generations.length → s.prevGlobalBest = bestOf generations.dropLast.flatten

omit [IsStrictOrderedRing K] in
theorem Follows.absorb {generations : List (List (Extended K))} {s s' : Swarm K} {dim : Nat}
    {r : Result K} {rows : List (Result K)} (h : Follows generations s)
    (habsorb : s.absorb dim r rows = .ok s') :
    Follows (generations ++ [(r :: rows).map Prod.snd]) s' := by
  rw [Swarm.absorb] at habsorb
  split at habsorb
  next hinit =>
    rw [Swarm.update] at habsorb
    split at habsorb
    next => cases habsorb
    next =>
      cases habsorb
      refine ⟨iff_of_true hinit (List.concat_ne_nil _ _), ?_, fun _ => ?_⟩
      · have hmin : (if (argmin r rows).2 < s.globalBest.2 then argmin r rows
            else s.globalBest).2 = min s.globalBest.2 (argmin r rows).2 := by
          rw [min_comm, min_def_lt]
          split <;> rfl
        rw [List.flatten_append, List.flatten_singleton, bestOf_append, ← h.best]
        refine hmin.trans ?_
        rw [argmin_value]
        exact List.foldl_assoc.symm
      · rw [List.dropLast_concat]
        exact h.best
  next hinit =>
    cases habsorb
    have hnil : generations = [] := not_ne_iff.mp fun hne => hinit (h.initialized.mpr hne)
    subst hnil
    refine ⟨iff_of_true rfl (List.concat_ne_nil _ _), ?_, fun hlong => ?_⟩
    · rw [List.nil_append, List.flatten_singleton, List.map_cons, bestOf_cons]
      exact argmin_value r rows
    · exact absurd hlong (by simp)

omit [IsStrictOrderedRing K] in
theorem swarm_after (pso : PSOAlgorithm K) (calls : List (Observation K)) {s : Swarm K}
    (h : (swarm pso).after calls = some s) : Follows (fits calls) s := by
  induction calls using List.reverseRecOn generalizing s with
  | nil =>
    cases h
    exact ⟨iff_of_false Bool.false_ne_true (fun h => h rfl), rfl, fun h => (nomatch h)⟩
  | append_singleton calls o ih =>
    obtain ⟨before, hbefore, hobserve⟩ := BaseAlgorithm.after_concat h
    have hfollows := ih hbefore
    obtain ⟨results, r1, r2⟩ := o
    rw [fits, List.map_append, List.map_singleton]
    cases results with
    | nil =>
      cases hobserve
      rw [List.map_nil, seen_concat_nil]
      exact hfollows
    | cons r rows =>
      rw [List.map_cons, seen_concat]
      have hstep : ∃ current, before.absorb pso.independentVars.length r rows = .ok current ∧
          pso.move r1 r2 current = .ok s := by
        simp only [swarm] at hobserve
        split at hobserve
        next => exact nomatch hobserve
        next current habsorb =>
          split at hobserve
          next => exact nomatch hobserve
          next hmove =>
            cases hobserve
            exact ⟨current, habsorb, hmove⟩
      obtain ⟨current, habsorb, hmove⟩ := hstep
      obtain ⟨hglobal, hprev, hinit⟩ := move_keeps hmove
      obtain ⟨hinitialized, hbest, hprevious⟩ := hfollows.absorb habsorb
      constructor
      · rw [hinit]
        exact hinitialized
      · rw [hglobal]
        exact hbest
      · rw [hprev]
        exact hprevious

/-- The answer of PSO for a finite best value that was finite before. -/
theorem swarm_isConverged_finite (htol : 0 < tol) {pso : PSOAlgorithm K} (hpso : pso.tol = tol)
    {s : Swarm K} (hinit : s.initialized = true) {x y : K} (hprev : s.prevGlobalBest = .finite x)
    (hbest : s.globalBest.2 = .finite y) :
    pso.isConverged s = true ↔ |y| < 1 / 10 ^ 12 ∨ Close tol x y := by
  rw [PSOAlgorithm.isConverged, hinit, hbest, hprev, ← changedLess_iff htol, changedLess, hpso]
  simp

theorem swarm_answers (htol : 0 < tol) {pso : PSOAlgorithm K} (hpso : pso.tol = tol) :
    (swarm pso).Answers fun calls answer => StopsNearZero tol (fits calls) answer := by
  intro calls s h
  have hfollows := swarm_after pso calls h
  show StopsNearZero tol _ (pso.isConverged s)
  constructor
  · intro hnil
    have hinit : s.initialized = false :=
      eq_false_of_ne_true fun htrue => hfollows.initialized.mp htrue hnil
    rw [PSOAlgorithm.isConverged, hinit]
    rfl
  · intro hlong
    have hinit : s.initialized = true :=
      hfollows.initialized.mpr (List.ne_nil_of_length_pos (by omega))
    have hbest := hfollows.best
    have hprev := hfollows.prev hlong
    constructor
    · intro hyes
      cases hy : s.globalBest.2 with
      | posInf | negInf =>
        rw [PSOAlgorithm.isConverged, hinit, hy] at hyes
        exact absurd hyes Bool.false_ne_true
      | finite y =>
        rw [hy] at hbest
        cases hx : s.prevGlobalBest with
        | posInf =>
          rw [PSOAlgorithm.isConverged, hinit, hy, hx] at hyes
          exact absurd hyes Bool.false_ne_true
        | negInf =>
          rw [PSOAlgorithm.isConverged, hinit, hy, hx] at hyes
          exact Or.inr ⟨y, hbest.symm, of_decide_eq_true hyes⟩
        | finite x =>
          rw [hx] at hprev
          rcases (swarm_isConverged_finite htol hpso hinit hx hy).mp hyes with hzero | hclose
          · exact Or.inr ⟨y, hbest.symm, hzero⟩
          · exact Or.inl ⟨x, y, hprev.symm, hbest.symm, hclose⟩
    · intro ⟨x, _, hx, hy⟩
      rw [hx] at hprev
      rw [hy] at hbest
      exact (swarm_isConverged_finite htol hpso hinit hprev hbest).mpr (Or.inr (Or.inl rfl))

/-! ## The optimisers of several objectives -/

/-- What is recorded for the rows of a generation. -/
def record (ind : Indicator K n) : List (Fin n → K) → K
  | [] => 0
  | f :: F => recorded ind f F

variable {ind : Indicator K n}

omit [IsStrictOrderedRing K] in
theorem vector_after (calls : List (List (Fin n → K))) {hvHistory : List K}
    (h : (vector ind tol).after calls = some hvHistory) :
    hvHistory = (seen calls).map (record ind) := by
  induction calls using List.reverseRecOn generalizing hvHistory with
  | nil => exact (Option.some.inj h).symm
  | append_singleton calls F ih =>
    obtain ⟨before, hbefore, hobserve⟩ := BaseAlgorithm.after_concat h
    cases F with
    | nil =>
      rw [seen_concat_nil, ← ih hbefore]
      exact (Option.some.inj hobserve).symm
    | cons f F =>
      rw [seen_concat, List.map_append, ← ih hbefore]
      exact (Option.some.inj hobserve).symm

omit [IsStrictOrderedRing K] in
/-- The two records that are compared are those of the last two generations. -/
theorem vector_isConverged_concat (generations : Nat) (before : List K) (prev curr : K) :
    (vector ind tol).isConverged generations (before ++ [prev, curr]) =
      changedLess tol prev curr := by
  have hreverse : (before ++ [prev, curr]).reverse = curr :: prev :: before.reverse := by
    rw [List.reverse_append]
    rfl
  simp only [vector, hreverse]

omit [Field K] [IsStrictOrderedRing K] in
/-- Points that are dominated do not move the front. -/
theorem undominated_append_dominated {F D : List (Fin n → K)}
    (hD : ∀ d ∈ D, ∃ x ∈ F, x < d) (x : Fin n → K) :
    x ∈ undominated (· < ·) F ↔ x ∈ undominated (· < ·) (F ++ D) := by
  rw [mem_undominated, mem_undominated, List.mem_append, List.forall_mem_append]
  constructor
  · intro ⟨hmem, hF⟩
    refine ⟨Or.inl hmem, hF, fun d hd hdx => ?_⟩
    obtain ⟨y, hy, hyd⟩ := hD d hd
    exact hF y hy (lt_trans hyd hdx)
  · intro ⟨hmem, hF, _⟩
    refine ⟨hmem.resolve_right fun hd => ?_, hF⟩
    obtain ⟨y, hy, hyx⟩ := hD x hd
    exact hF y hy hyx

omit [Field K] [IsStrictOrderedRing K] in
theorem foldl_max_eq_self {xs : List K} {x : K} (h : ∀ y ∈ xs, y ≤ x) :
    xs.foldl max x = x := by
  induction xs with
  | nil => rfl
  | cons y ys ih =>
    rw [List.foldl_cons, max_eq_left (h y List.mem_cons_self)]
    exact ih fun z hz => h z (List.mem_cons_of_mem y hz)

omit [Field K] [IsStrictOrderedRing K] in
theorem le_foldl_max (x : K) (xs : List K) {y : K} (hy : y ∈ x :: xs) : y ≤ xs.foldl max x := by
  induction xs generalizing x y with
  | nil => exact (List.mem_singleton.mp hy).le
  | cons z zs ih =>
    rw [List.foldl_cons]
    rcases List.mem_cons.mp hy with rfl | hy
    · exact le_trans (le_max_left y z) (ih (max y z) List.mem_cons_self)
    · rcases List.mem_cons.mp hy with rfl | hy
      · exact le_trans (le_max_right x y) (ih (max x y) List.mem_cons_self)
      · exact ih _ (List.mem_cons_of_mem _ hy)

omit [IsStrictOrderedRing K] in
/-- Nor do points above no maximum move the reference point. -/
theorem refPoint_append {f : Fin n → K} {F D : List (Fin n → K)}
    (hD : WithinMaxima (f :: F) D) : refPoint f (F ++ D) = refPoint f F := by
  funext j
  rw [refPoint, refPoint, List.map_append, List.foldl_append]
  congr 1
  refine foldl_max_eq_self fun y hy => ?_
  obtain ⟨d, hd, rfl⟩ := List.mem_map.mp hy
  obtain ⟨x, hx, hle⟩ := hD d hd j
  exact le_trans hle (le_foldl_max _ _ (List.mem_map_of_mem (f := fun x => x j) hx))

omit [IsStrictOrderedRing K] in
theorem recorded_eq {f g : Fin n → K} {F G : List (Fin n → K)}
    (hfront : ∀ x, x ∈ undominated (· < ·) (f :: F) ↔ x ∈ undominated (· < ·) (g :: G))
    (href : refPoint f F = refPoint g G) : recorded ind f F = recorded ind g G := by
  rw [recorded, recorded, href, ind.front _ _ _ hfront]

theorem vector_answers (htol : 0 < tol) :
    (vector ind tol).Answers fun calls answer =>
      StopsOnHypervolume ind tol (seen calls) answer := by
  intro calls hvHistory h
  have hhistory := vector_after calls h
  have hlast : ∀ before f F g G, seen calls = before ++ [f :: F, g :: G] →
      ((vector ind tol).isConverged (calls.length + 1) hvHistory = true ↔
        Close tol (recorded ind f F) (recorded ind g G)) := by
    intro before f F g G hseen
    rw [hhistory, hseen, List.map_append]
    exact (congrArg (· = true) (vector_isConverged_concat _ _ _ _)).to_iff.trans
      (changedLess_iff htol)
  refine ⟨fun hyes => ?_, ?_, ?_⟩
  · -- fewer than two records are never enough
    rcases List.eq_nil_or_concat' (seen calls) with hnil | ⟨init, G, hinit⟩
    · rw [hhistory, hnil] at hyes
      exact nomatch hyes
    rcases List.eq_nil_or_concat' init with hnil | ⟨before, F, hbefore⟩
    · rw [hhistory, hinit, hnil] at hyes
      exact nomatch hyes
    have hseen : seen calls = before ++ [F, G] := by
      rw [hinit, hbefore, List.append_assoc]
      rfl
    have hF : F ∈ seen calls := hseen ▸ List.mem_append_right _ List.mem_cons_self
    have hG : G ∈ seen calls :=
      hseen ▸ List.mem_append_right _ (List.mem_cons_of_mem _ List.mem_cons_self)
    obtain ⟨f, F, rfl⟩ := exists_cons_of_mem_seen hF
    obtain ⟨g, G, rfl⟩ := exists_cons_of_mem_seen hG
    exact ⟨before, f, F, g, G, hseen, (hlast before f F g G hseen).mp hyes⟩
  · intro before f F g G hseen hfront href
    rw [hlast before f F g G hseen, recorded_eq hfront href]
    exact Or.inl rfl
  · intro before f F D hseen hdominated hmaxima
    have hsame : recorded ind f F = recorded ind f (F ++ D) :=
      recorded_eq (undominated_append_dominated hdominated) (refPoint_append hmaxima).symm
    exact ⟨hsame.symm, (hlast before f F f (F ++ D) hseen).mpr (Or.inl hsame.symm)⟩

/-- DE, GA, island GA, dual annealing and rgenoud stop when their best value does, PSO
besides when it is next to zero, NSGA-II and SPEA-II when their hypervolume does. -/
theorem convergence (htol : 0 < tol) :
    (∀ (algorithm : ScalarAlgorithm) (maximize : Bool), algorithm ≠ .pso →
      (scalar algorithm maximize tol).Answers fun calls answer =>
        StopsOnBest tol (effectives algorithm maximize calls) answer) ∧
    (∀ pso : PSOAlgorithm K, pso.tol = tol →
      (swarm pso).Answers fun calls answer => StopsNearZero tol (fits calls) answer) ∧
    ∀ (n : Nat) (ind : Indicator K n),
      (vector ind tol).Answers fun calls answer =>
        StopsOnHypervolume ind tol (seen calls) answer :=
  ⟨fun algorithm maximize _ => scalar_answers htol algorithm maximize,
    fun _ hpso => swarm_answers htol hpso, fun _ _ => vector_answers htol⟩

end

/-! ## Runs that stop -/

/-- The hypervolume where a single point is not dominated: a box. -/
def box (n : Nat) : Indicator ℚ n where
  hv refPoint F :=
    let front := (undominated (· < ·) F).toFinset
    if front.card = 1 then some (∏ j, (refPoint j - ∑ x ∈ front, x j)) else none
  front refPoint F F' h := by
    have hsame : (undominated (· < ·) F).toFinset = (undominated (· < ·) F').toFinset :=
      Finset.ext fun x => by rw [List.mem_toFinset, List.mem_toFinset, h x]
    simp only [hsame]

/-- One variable, and a tolerance of a hundredth. -/
def oneVariable : PSOAlgorithm ℚ :=
  ⟨"eui", false, 1 / 100, 1 / 2, 1, 1, [], [.uniform 0 1], fun _ => none⟩

/-- A generation of one particle. -/
def oneParticle (fit : Extended ℚ) : Observation ℚ := ⟨[([0], fit)], fun _ _ => 0, fun _ _ => 0⟩

/-- A sample without constraints. -/
def sampled (value : ℚ) : Row ℚ (Extended ℚ) := ⟨[], .finite value, 0, ∅⟩

theorem convergence_hundredth :
    StopsOnBest (1 / 100) (effectives .de false [[sampled 10, sampled 12], [sampled 11]]) true ∧
    StopsNearZero (1 / 100) (fits [oneParticle .posInf, oneParticle (.finite 100),
      oneParticle (.finite 50)]) false ∧
    StopsOnHypervolume (box 2) (1 / 100) (seen [[![0, 1]], [![0, 1], ![0, 1]]]) true := by
  have htol : (0 : ℚ) < 1 / 100 := by decide +kernel
  obtain ⟨hscalar, hswarm, hvector⟩ := convergence htol
  exact ⟨(hscalar .de false (by decide)).of_answer (by decide +kernel),
    (hswarm oneVariable rfl).of_answer (by decide +kernel),
    (hvector 2 (box 2)).of_answer (by decide +kernel)⟩

/-- PSO stops when its best value falls from 100 to 0, and a dominated point changes the
recorded hypervolume. -/
theorem stops_otherwise :
    ¬ (swarm oneVariable).Answers (fun calls answer =>
      StopsOnBest (1 / 100) (fits calls) answer) ∧
    ¬ ∀ (f : Fin 2 → ℚ) (F D : List (Fin 2 → ℚ)), (∀ d ∈ D, ∃ x ∈ f :: F, x < d) →
      recorded (box 2) f (F ++ D) = recorded (box 2) f F := by
  constructor
  · intro h
    have hstops : StopsOnBest (1 / 100 : ℚ) (fits [oneParticle .posInf,
        oneParticle (.finite 100), oneParticle (.finite 0)]) true :=
      h.of_answer (by decide +kernel)
    obtain ⟨_, x, y, hx, hy, hclose⟩ := hstops.1 rfl
    have hbefore : Extended.finite x = .finite 100 := hx.symm.trans (by decide +kernel)
    have hafter : Extended.finite y = .finite 0 := hy.symm.trans (by decide +kernel)
    cases hbefore
    cases hafter
    exact absurd hclose (by unfold Close; decide +kernel)
  · intro h
    have hsame := h ![0, 0] [] [![5, 5]] (by decide +kernel)
    exact absurd hsame (by decide +kernel)

end OSimFlow.Algorithms.Convergence
