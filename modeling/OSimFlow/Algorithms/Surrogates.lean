import Mathlib.Algebra.BigOperators.Fin
import Mathlib.Data.Fintype.Pi
import OSimFlow.Algorithms.EffectiveObjectives
import OSimFlow.Lib.Least

/-!
# What the surrogates return

Between two generations the optimisers search a surrogate of the simulation: at a query
point it returns the value that was measured at the nearest observed point. DE, dual
annealing and rgenoud hand such a function to SciPy, the calibration its own, and the GA
looks the fitness of an individual up in a map from points to their best values.

> `ReturnsNearest`: the surrogate returns the effective value of an observation at minimal
> distance (for the GA: of the best one at its point), in the sense that is optimised.

`nearer` is the loop with a distance and a value; what it keeps is the first nearest entry
(`nearer_firstLeast`), so the three that use it on the observations are right. Two are not.
The calibration compares the distance with the value it has kept, and so runs along a
`Trail` of observations; the GA adds a penalty to values that carry theirs already
(`Spared`). `returnsNearest_iff` says of each when it is right all the same.

Coordinates and values are exact; values may be infinite.
-/

namespace OSimFlow.Algorithms.Surrogates

open OSimFlow.Lib (Dict Extended FirstLeast firstLeast_concat_self)

abbrev Point (K : Type) (n : Nat) := Fin n → K

/-- A row of `results`. -/
structure Observation (K : Type) (n : Nat) where
  params : Point K n
  value : Extended K
  penalty : K

section

variable {K : Type} [Field K] {n : Nat}

/-- `np.sum((np.array(p) - x) ** 2)`. -/
def dist (p x : Point K n) : K := ∑ i, (p i - x i) ^ 2

/-- `eff_v`. -/
def Observation.effV (maximize : Bool) (o : Observation K n) : Extended K :=
  (if maximize then o.value.neg else o.value).add o.penalty

variable [LinearOrder K]

/-! ## The loops -/

/-- One turn of a loop over entries with a distance and a value; `best` is
`(best_dist, best_val)`. -/
def nearer {α : Type} (distance : α → K) (val : α → Extended K)
    (best : Extended K × Extended K) (entry : α) : Extended K × Extended K :=
  if .finite (distance entry) < best.1 then (.finite (distance entry), val entry) else best

/-- `_objective` of `_run_scipy_de`. -/
def deObjective (maximize : Bool) (bestValue : Extended K) (results : List (Observation K n))
    (x : Point K n) : Extended K :=
  (results.foldl (nearer (fun o => dist o.params x) (·.effV maximize)) (.posInf, bestValue)).2

/-- `_objective` of `_run_scipy_da`. -/
def daObjective (maximize : Bool) (bestValue : Extended K) (results : List (Observation K n))
    (x : Point K n) : Extended K :=
  (results.foldl (nearer (fun o => dist o.params x) (·.effV maximize)) (.posInf, bestValue)).2

/-- `_objective` of rgenoud's step. -/
def rgenoudObjective (maximize : Bool) (bestValue : Extended K)
    (results : List (Observation K n)) (x : Point K n) : Extended K :=
  (results.foldl (nearer (fun o => dist o.params x) (·.effV maximize)) (.posInf, bestValue)).2

/-- `_objective` of the calibration's `_optimize_step`, whose results carry no penalty. -/
def calibrationObjective (results : List (Observation K n)) (x : Point K n) : Extended K :=
  results.foldl
    (fun bestVal o => if .finite (dist o.params x) < bestVal then o.value else bestVal) .posInf

/-- One turn of `_build_fitness_map`. -/
def record (maximize : Bool) (fitnessMap : Dict (Point K n) (Extended K))
    (o : Observation K n) : Dict (Point K n) (Extended K) :=
  match fitnessMap.get? o.params with
  | none => fitnessMap.set o.params (o.effV maximize)
  | some known =>
    if o.effV maximize < known then fitnessMap.set o.params (o.effV maximize) else fitnessMap

def buildFitnessMap (maximize : Bool) (results : List (Observation K n)) :
    Dict (Point K n) (Extended K) :=
  results.foldl (record maximize) ∅

/-- `_eval_fitness`. -/
def lookupFitness (maximize : Bool) (individual : Point K n)
    (fitnessMap : Dict (Point K n) (Extended K)) (penalty : K) : Extended K :=
  evalFitness maximize
    (fitnessMap.items.foldl (nearer (fun item => dist individual item.1) Prod.snd)
      (.posInf, .posInf)).2
    penalty

/-- The surrogates; the GA's is asked with the penalty of the generation. -/
inductive Surrogate (K : Type) where
  | de
  | dualAnnealing
  | rgenoud
  | calibration
  | ga (penalty : K)

/-- What the optimiser gets for the query `x`. -/
def Surrogate.objective (s : Surrogate K) (maximize : Bool) (bestValue : Extended K)
    (results : List (Observation K n)) (x : Point K n) : Extended K :=
  match s with
  | .de => deObjective maximize bestValue results x
  | .dualAnnealing => daObjective maximize bestValue results x
  | .rgenoud => rgenoudObjective maximize bestValue results x
  | .calibration => calibrationObjective results x
  | .ga penalty => lookupFitness maximize x (buildFitnessMap maximize results) penalty

/-! ## What they should return -/

/-- An observation at minimal distance from the query. -/
def Nearest (results : List (Observation K n)) (x : Point K n) (o : Observation K n) : Prop :=
  o ∈ results ∧ ∀ p ∈ results, dist o.params x ≤ dist p.params x

/-- The best observation of its point. -/
def BestThere (maximize : Bool) (results : List (Observation K n)) (o : Observation K n) :
    Prop :=
  o ∈ results ∧ ∀ p ∈ results, p.params = o.params → o.effV maximize ≤ p.effV maximize

/-- The observations whose value may be returned. -/
def Surrogate.Counts (s : Surrogate K) (maximize : Bool) (results : List (Observation K n))
    (o : Observation K n) : Prop :=
  match s with
  | .ga _ => BestThere maximize results o
  | .de | .dualAnnealing | .rgenoud | .calibration => True

/-- The effective value as it is optimised: SciPy minimises it, DEAP maximises or minimises
the fitness, and the calibration knows neither direction nor penalty. -/
def Surrogate.effective (s : Surrogate K) (maximize : Bool) (o : Observation K n) :
    Extended K :=
  match s with
  | .de | .dualAnnealing | .rgenoud => o.effV maximize
  | .calibration => o.value
  | .ga _ => if maximize then (o.effV maximize).neg else o.effV maximize

def Surrogate.ReturnsNearest (s : Surrogate K) (maximize : Bool) (bestValue : Extended K)
    (results : List (Observation K n)) (x : Point K n) : Prop :=
  ∃ o, Nearest results x o ∧ s.Counts maximize results o ∧
    s.objective maximize bestValue results x = s.effective maximize o

/-! ## When they do -/

/-- The observations that are taken one after another when the first one is taken, and then
each whose distance is below the value of the one taken last. -/
inductive Trail (x : Point K n) : List (Observation K n) → Observation K n → Prop where
  | first (o : Observation K n) : Trail x [o] o
  | taken {l : List (Observation K n)} {a : Observation K n} (o : Observation K n) :
    Trail x l a → .finite (dist o.params x) < a.value → Trail x (l ++ [o]) o
  | passed {l : List (Observation K n)} {a : Observation K n} (o : Observation K n) :
    Trail x l a → ¬ .finite (dist o.params x) < a.value → Trail x (l ++ [o]) a

/-- A second penalty changes nothing: it is zero, or the best value at the first nearest
point is infinite, or another nearest point's best value is away from it by just that. -/
def Spared (maximize : Bool) (results : List (Observation K n)) (x : Point K n)
    (penalty : K) : Prop :=
  penalty = 0 ∨ ∃ first b, FirstLeast (fun o => dist o.params x) results first ∧
    BestThere maximize results b ∧ b.params = first.params ∧
    ((∀ v, b.effV maximize ≠ .finite v) ∨ ∃ o, Nearest results x o ∧
      BestThere maximize results o ∧
      o.effV maximize = (b.effV maximize).add (if maximize then -penalty else penalty))

/-- Where the surrogate returns the nearest measurement. -/
def Surrogate.RightAt (s : Surrogate K) (maximize : Bool) (results : List (Observation K n))
    (x : Point K n) : Prop :=
  match s with
  | .de | .dualAnnealing | .rgenoud => True
  | .calibration => ∃ a o, Trail x results a ∧ Nearest results x o ∧ a.value = o.value
  | .ga penalty => Spared maximize results x penalty

end

section

variable {K : Type} [Field K] [LinearOrder K] {n : Nat}

/-! ## The loop with two accumulators -/

omit [Field K] in
theorem nearer_firstLeast {α : Type} (distance : α → K) (val : α → Extended K)
    (start : Extended K) {l : List α} (hne : l ≠ []) :
    ∃ a, FirstLeast distance l a ∧
      l.foldl (nearer distance val) (.posInf, start) = (.finite (distance a), val a) := by
  induction l using List.reverseRecOn with
  | nil => exact absurd rfl hne
  | append_singleton l x ih =>
    rw [List.foldl_append, List.foldl_cons, List.foldl_nil]
    by_cases hl : l = []
    · rw [hl]
      have hfirst : FirstLeast distance ([] ++ [x]) x :=
        firstLeast_concat_self fun _ hy => absurd hy List.not_mem_nil
      refine ⟨x, hfirst, ?_⟩
      rw [List.foldl_nil, nearer, if_pos (Extended.finite_lt_posInf _)]
    · obtain ⟨a, ha, heq⟩ := ih hl
      rw [heq, nearer]
      by_cases hx : distance x < distance a
      · rw [if_pos (Extended.finite_lt_finite.mpr hx)]
        refine ⟨x, firstLeast_concat_self fun y hy => ?_, rfl⟩
        exact lt_of_lt_of_le hx (ha.le y hy)
      · rw [if_neg fun h => hx (Extended.finite_lt_finite.mp h)]
        exact ⟨a, ha.concat (not_lt.mp hx), rfl⟩

theorem deObjective_nearest (maximize : Bool) (bestValue : Extended K)
    {results : List (Observation K n)} (hne : results ≠ []) (x : Point K n) :
    ∃ o, Nearest results x o ∧ deObjective maximize bestValue results x = o.effV maximize := by
  obtain ⟨o, ho, heq⟩ := nearer_firstLeast (fun o => dist o.params x) (·.effV maximize)
    bestValue hne
  exact ⟨o, ⟨ho.mem, ho.le⟩, by rw [deObjective, heq]⟩

/-! ## The loop of the calibration -/

theorem exists_trail (x : Point K n) {l : List (Observation K n)} (hne : l ≠ []) :
    ∃ a, Trail x l a := by
  induction l using List.reverseRecOn with
  | nil => exact absurd rfl hne
  | append_singleton l o ih =>
    by_cases hl : l = []
    · rw [hl]
      exact ⟨o, .first o⟩
    · obtain ⟨a, ha⟩ := ih hl
      by_cases h : Extended.finite (dist o.params x) < a.value
      · exact ⟨o, .taken o ha h⟩
      · exact ⟨a, .passed o ha h⟩

/-- The calibration returns the value at the end of the trail. -/
theorem Trail.objective_eq {x : Point K n} {l : List (Observation K n)}
    {a : Observation K n} (h : Trail x l a) : calibrationObjective l x = a.value := by
  unfold calibrationObjective
  induction h with
  | first o =>
    rw [List.foldl_cons, List.foldl_nil, if_pos (Extended.finite_lt_posInf _)]
  | taken o _ hlt ih =>
    rw [List.foldl_append, ih, List.foldl_cons, List.foldl_nil, if_pos hlt]
  | passed o _ hlt ih =>
    rw [List.foldl_append, ih, List.foldl_cons, List.foldl_nil, if_neg hlt]

theorem calibration_iff {results : List (Observation K n)} (hne : results ≠ [])
    (x : Point K n) :
    (∃ o, Nearest results x o ∧ calibrationObjective results x = o.value) ↔
      ∃ a o, Trail x results a ∧ Nearest results x o ∧ a.value = o.value := by
  constructor
  · intro ⟨o, ho, heq⟩
    obtain ⟨a, ha⟩ := exists_trail x hne
    exact ⟨a, o, ha, ho, ha.objective_eq ▸ heq⟩
  · intro ⟨a, o, ha, ho, heq⟩
    exact ⟨o, ho, ha.objective_eq.trans heq⟩

/-! ## The fitness map -/

theorem keys_record (maximize : Bool) (d : Dict (Point K n) (Extended K))
    (o : Observation K n) :
    (record maximize d o).keys = if o.params ∈ d.keys then d.keys else d.keys ++ [o.params] := by
  unfold record
  split
  next => exact OSimFlow.Lib.Dict.keys_set d o.params _
  next known hknown =>
    split
    · exact OSimFlow.Lib.Dict.keys_set d o.params _
    · rw [if_pos (OSimFlow.Lib.Dict.mem_keys_of_get? hknown)]

/-- The map of some results: under each observed point its best effective value, and the
points in the order of their first observations. -/
structure Recorded (maximize : Bool) (results : List (Observation K n))
    (d : Dict (Point K n) (Extended K)) : Prop where
  best : ∀ p v, d.get? p = some v → ∃ o, BestThere maximize results o ∧ o.params = p ∧
    o.effV maximize = v
  covers : ∀ o ∈ results, o.params ∈ d.keys
  first : ∀ x, results ≠ [] → ∃ o, FirstLeast (fun o => dist o.params x) results o ∧
    FirstLeast (fun p => dist p x) d.keys o.params

theorem recorded_nil (maximize : Bool) :
    Recorded maximize ([] : List (Observation K n)) ∅ where
  best := fun _ _ h => nomatch h
  covers := fun _ h => nomatch h
  first := fun _ h => absurd rfl h

/-- A new best observation of its point. -/
theorem bestThere_concat_self {maximize : Bool} {l : List (Observation K n)}
    {o : Observation K n}
    (h : ∀ p ∈ l, p.params = o.params → o.effV maximize ≤ p.effV maximize) :
    BestThere maximize (l ++ [o]) o := by
  refine ⟨List.mem_append_right l List.mem_cons_self, fun p hp hpo => ?_⟩
  rcases List.mem_append.mp hp with hp | hp
  · exact h p hp hpo
  · rw [List.mem_singleton.mp hp]

theorem BestThere.concat {maximize : Bool} {l : List (Observation K n)}
    {b o : Observation K n} (hb : BestThere maximize l b)
    (h : o.params = b.params → b.effV maximize ≤ o.effV maximize) :
    BestThere maximize (l ++ [o]) b := by
  refine ⟨List.mem_append_left [o] hb.1, fun p hp hpb => ?_⟩
  rcases List.mem_append.mp hp with hp | hp
  · exact hb.2 p hp hpb
  · rw [List.mem_singleton.mp hp] at hpb ⊢
    exact h hpb

theorem Recorded.best_set {maximize : Bool} {l : List (Observation K n)}
    {d : Dict (Point K n) (Extended K)} (h : Recorded maximize l d) {o : Observation K n}
    (ho : ∀ p ∈ l, p.params = o.params → o.effV maximize ≤ p.effV maximize)
    (p : Point K n) (v : Extended K)
    (hp : (d.set o.params (o.effV maximize)).get? p = some v) :
    ∃ b, BestThere maximize (l ++ [o]) b ∧ b.params = p ∧ b.effV maximize = v := by
  by_cases hpo : o.params = p
  · rw [← hpo, OSimFlow.Lib.Dict.get?_set_self] at hp
    exact ⟨o, bestThere_concat_self ho, hpo, Option.some.inj hp⟩
  · rw [OSimFlow.Lib.Dict.get?_set_ne d hpo] at hp
    obtain ⟨b, hb, hbp, hbv⟩ := h.best p v hp
    exact ⟨b, hb.concat fun hob => absurd (hob.trans hbp) hpo, hbp, hbv⟩

theorem Recorded.best_record {maximize : Bool} {l : List (Observation K n)}
    {d : Dict (Point K n) (Extended K)} (h : Recorded maximize l d) (o : Observation K n)
    (p : Point K n) (v : Extended K) (hp : (record maximize d o).get? p = some v) :
    ∃ b, BestThere maximize (l ++ [o]) b ∧ b.params = p ∧ b.effV maximize = v := by
  unfold record at hp
  split at hp
  next hnone =>
    refine h.best_set (fun q hq hqo => ?_) p v hp
    obtain ⟨w, hw⟩ := OSimFlow.Lib.Dict.mem_keys_iff.mp (h.covers q hq)
    rw [hqo, hnone] at hw
    cases hw
  next known hknown =>
    obtain ⟨b, hb, hbo, hbv⟩ := h.best _ known hknown
    split at hp
    next hlt =>
      refine h.best_set (fun q hq hqo => ?_) p v hp
      exact le_of_lt (lt_of_lt_of_le (hbv ▸ hlt) (hb.2 q hq (hqo.trans hbo.symm)))
    next hge =>
      obtain ⟨c, hc, hcp, hcv⟩ := h.best p v hp
      refine ⟨c, hc.concat fun hoc => ?_, hcp, hcv⟩
      have hle := hb.2 c hc.1 (hoc.symm.trans hbo.symm)
      have hle' := hc.2 b hb.1 (hbo.trans hoc)
      rw [le_antisymm hle' hle, hbv]
      exact not_lt.mp hge

theorem Recorded.first_record {maximize : Bool} {l : List (Observation K n)}
    {d : Dict (Point K n) (Extended K)} (h : Recorded maximize l d) (o : Observation K n)
    (x : Point K n) :
    ∃ a, FirstLeast (fun o => dist o.params x) (l ++ [o]) a ∧
      FirstLeast (fun p => dist p x) (record maximize d o).keys a.params := by
  rw [keys_record]
  by_cases hl : l = []
  · have hkeys : d.keys = [] := by
      apply List.eq_nil_iff_forall_not_mem.mpr
      intro p hp
      obtain ⟨v, hv⟩ := OSimFlow.Lib.Dict.mem_keys_iff.mp hp
      obtain ⟨b, hb, _, _⟩ := h.best p v hv
      rw [hl] at hb
      exact nomatch hb.1
    rw [hkeys, if_neg List.not_mem_nil, hl]
    exact ⟨o, firstLeast_concat_self fun _ hy => absurd hy List.not_mem_nil,
      firstLeast_concat_self fun _ hy => absurd hy List.not_mem_nil⟩
  · obtain ⟨a, ha, hak⟩ := h.first x hl
    by_cases hmem : o.params ∈ d.keys
    · rw [if_pos hmem]
      exact ⟨a, ha.concat (hak.le o.params hmem), hak⟩
    · rw [if_neg hmem]
      by_cases hlt : dist o.params x < dist a.params x
      · refine ⟨o, firstLeast_concat_self fun p hp => ?_,
          firstLeast_concat_self fun p hp => ?_⟩
        · exact lt_of_lt_of_le hlt (ha.le p hp)
        · exact lt_of_lt_of_le hlt (hak.le p hp)
      · exact ⟨a, ha.concat (not_lt.mp hlt), hak.concat (not_lt.mp hlt)⟩

theorem Recorded.concat {maximize : Bool} {l : List (Observation K n)}
    {d : Dict (Point K n) (Extended K)} (h : Recorded maximize l d) (o : Observation K n) :
    Recorded maximize (l ++ [o]) (record maximize d o) where
  best := h.best_record o
  covers := by
    intro p hp
    rw [keys_record]
    rcases List.mem_append.mp hp with hp | hp
    · have := h.covers p hp
      split
      · exact this
      · exact List.mem_append_left _ this
    · rw [List.mem_singleton.mp hp]
      split
      · assumption
      · exact List.mem_append_right _ List.mem_cons_self
  first := fun x _ => h.first_record o x

theorem recorded_buildFitnessMap (maximize : Bool) (results : List (Observation K n)) :
    Recorded maximize results (buildFitnessMap maximize results) := by
  unfold buildFitnessMap
  induction results using List.reverseRecOn with
  | nil => exact recorded_nil maximize
  | append_singleton l o ih =>
    rw [List.foldl_append, List.foldl_cons, List.foldl_nil]
    exact ih.concat o

/-! ## The lookup of the GA -/

omit [LinearOrder K] in
theorem dist_comm (p x : Point K n) : dist p x = dist x p := by
  unfold dist
  exact Finset.sum_congr rfl fun i _ => sub_sq_comm (p i) (x i)

/-- The fitness that is looked up is that of the best observation of the first nearest
point, and the penalty once more. -/
theorem lookupFitness_spec (maximize : Bool) {results : List (Observation K n)}
    (hne : results ≠ []) (x : Point K n) (penalty : K) :
    ∃ first b, FirstLeast (fun o => dist o.params x) results first ∧
      BestThere maximize results b ∧ b.params = first.params ∧
      lookupFitness maximize x (buildFitnessMap maximize results) penalty =
        evalFitness maximize (b.effV maximize) penalty := by
  have hmap := recorded_buildFitnessMap maximize results
  obtain ⟨first, hfirst, hkeys⟩ := hmap.first x hne
  have hitems : (buildFitnessMap maximize results).items ≠ [] := by
    intro h
    have hmem := hmap.covers first hfirst.mem
    rw [Dict.keys, h] at hmem
    exact nomatch hmem
  obtain ⟨item, hitem, heq⟩ := nearer_firstLeast (fun item => dist x item.1) Prod.snd .posInf
    hitems
  have hpoint : item.1 = first.params := by
    have hsame : FirstLeast (fun item : Point K n × Extended K => dist item.1 x)
        (buildFitnessMap maximize results).items item := by
      simpa only [dist_comm _ x] using hitem
    have hpoints : FirstLeast (fun p => dist p x) (buildFitnessMap maximize results).keys
        item.1 := FirstLeast.map (fun p => dist p x) Prod.fst hsame
    exact hpoints.unique hkeys
  obtain ⟨b, hb, hbp, hbv⟩ := hmap.best item.1 item.2 (OSimFlow.Lib.Dict.mem_items.mp hitem.mem)
  refine ⟨first, b, hfirst, hb, hbp.trans hpoint, ?_⟩
  rw [lookupFitness, heq, hbv]

omit [LinearOrder K] in
/-- A penalty on top, in the sense in which DEAP compares. -/
theorem evalFitness_eq (maximize : Bool) (v : Extended K) (penalty : K) :
    evalFitness maximize v penalty =
      if maximize then (v.add (-penalty)).neg else v.add penalty := by
  cases maximize with
  | false => rfl
  | true => exact v.neg_add_eq penalty

omit [LinearOrder K] in
theorem add_eq_of_infinite {v : Extended K} (h : ∀ x, v ≠ .finite x) (penalty : K) :
    v.add penalty = v := by
  cases v with
  | finite x => exact absurd rfl (h x)
  | negInf => rfl
  | posInf => rfl

omit [LinearOrder K] in
theorem neg_injective {v w : Extended K} (h : v.neg = w.neg) : v = w := by
  cases v <;> cases w <;> simp_all [Extended.neg]

omit [LinearOrder K] in
/-- The value of one observation is another's with the penalty on top. -/
theorem evalFitness_eq_effective_iff {maximize : Bool} {v : Extended K} {penalty : K}
    {o : Observation K n} :
    evalFitness maximize v penalty = (Surrogate.ga penalty).effective maximize o ↔
      o.effV maximize = v.add (if maximize then -penalty else penalty) := by
  rw [evalFitness_eq]
  cases maximize with
  | false => exact eq_comm
  | true => exact ⟨fun h => (neg_injective h).symm, fun h => (congrArg Extended.neg h).symm⟩

theorem ga_iff (maximize : Bool) {results : List (Observation K n)} (hne : results ≠ [])
    (x : Point K n) (penalty : K) :
    (∃ o, Nearest results x o ∧ BestThere maximize results o ∧
      lookupFitness maximize x (buildFitnessMap maximize results) penalty =
        (Surrogate.ga penalty).effective maximize o) ↔
      Spared maximize results x penalty := by
  obtain ⟨first, b, hfirst, hb, hbp, hlookup⟩ :=
    lookupFitness_spec maximize hne x penalty
  have hnear : Nearest results x b :=
    ⟨hb.1, fun p hp => hbp ▸ hfirst.le p hp⟩
  rw [hlookup]
  constructor
  · intro ⟨o, ho, hbest, heq⟩
    exact .inr ⟨first, b, hfirst, hb, hbp,
      .inr ⟨o, ho, hbest, evalFitness_eq_effective_iff.mp heq⟩⟩
  · intro h
    -- a second penalty that leaves the value as it is
    have hsame (hadd : (b.effV maximize).add (if maximize then -penalty else penalty) =
        b.effV maximize) : ∃ o, Nearest results x o ∧ BestThere maximize results o ∧
        evalFitness maximize (b.effV maximize) penalty =
          (Surrogate.ga penalty).effective maximize o :=
      ⟨b, hnear, hb, evalFitness_eq_effective_iff.mpr hadd.symm⟩
    rcases h with hzero | ⟨first', b', hfirst', hb', hbp', hspared⟩
    · apply hsame
      rw [hzero, neg_zero, ite_self]
      exact Extended.add_zero_eq _
    · have hpoint : b'.params = b.params := by
        rw [hbp', hbp, hfirst'.unique hfirst]
      have hvalue : b'.effV maximize = b.effV maximize :=
        le_antisymm (hb'.2 b hb.1 hpoint.symm) (hb.2 b' hb'.1 hpoint)
      rw [hvalue] at hspared
      rcases hspared with hinf | ⟨o, ho, hbest, heq⟩
      · exact hsame (add_eq_of_infinite hinf _)
      · exact ⟨o, ho, hbest, evalFitness_eq_effective_iff.mpr heq⟩

/-- For every list of observations, direction and query: where each surrogate returns the
nearest measurement. -/
theorem returnsNearest_iff (s : Surrogate K) (maximize : Bool) (bestValue : Extended K)
    (results : List (Observation K n)) (hne : results ≠ []) (x : Point K n) :
    s.ReturnsNearest maximize bestValue results x ↔ s.RightAt maximize results x := by
  -- the three that keep a distance and a value
  have hscan : ∃ o, Nearest results x o ∧ True ∧
      deObjective maximize bestValue results x = o.effV maximize := by
    obtain ⟨o, ho, heq⟩ := deObjective_nearest maximize bestValue hne x
    exact ⟨o, ho, trivial, heq⟩
  cases s with
  | de => exact iff_true_intro hscan
  | dualAnnealing => exact iff_true_intro hscan
  | rgenoud => exact iff_true_intro hscan
  | calibration =>
    rw [Surrogate.RightAt, ← calibration_iff hne x]
    unfold Surrogate.ReturnsNearest
    exact exists_congr fun o => and_congr_right fun _ => and_iff_right trivial
  | ga penalty => exact ga_iff maximize hne x penalty

end

/-- A value of 5 at the query itself, and one of 7 at distance 1. -/
def twoFits : List (Observation ℚ 1) :=
  [⟨![0], .finite 5, 0⟩, ⟨![1], .finite 7, 0⟩]

/-- The calibration answers with the farther one: its distance is below 5. -/
theorem calibration_takes_farther :
    ¬ (Surrogate.calibration : Surrogate ℚ).ReturnsNearest false .posInf twoFits ![0] := by
  intro ⟨o, ho, _, heq⟩
  have hobjective : calibrationObjective twoFits ![0] = .finite 7 := by decide +kernel
  have hvalue : o.value = .finite 7 := heq.symm.trans hobjective
  have hle : dist o.params ![0] ≤ dist ![0] ![0] :=
    ho.2 ⟨![0], .finite 5, 0⟩ List.mem_cons_self
  rcases List.mem_cons.mp ho.1 with rfl | hmem
  · exact absurd hvalue (by decide)
  · rw [List.mem_singleton.mp hmem] at hle
    exact absurd hle (by decide +kernel)

theorem de_takes_nearest :
    (Surrogate.de : Surrogate ℚ).ReturnsNearest true .posInf twoFits ![0] :=
  (returnsNearest_iff .de true .posInf twoFits (List.cons_ne_nil _ _) ![0]).mpr trivial

end OSimFlow.Algorithms.Surrogates
