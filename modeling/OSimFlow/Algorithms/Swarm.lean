import Mathlib.Algebra.Order.Group.MinMax
import OSimFlow.Algorithms.EffectiveObjectives
import OSimFlow.Lib.Instances
import OSimFlow.Lib.Padded
import OSimFlow.Lib.Run
import OSimFlow.Lib.Sorted

/-!
# The swarm of `PSOAlgorithm`

The campaign loop simulates a generation, appends it to the history and hands the whole
history to `observe`, which knows a particle by its place in the list of results read
from it: samples are paired with the KPI files that exist, and every generation is read
again each time. The KPI files of all generations have the same names, so what is read
is what the last generation that succeeded left there.

> `Consistent`: `observe` does not raise; the swarm has a position, a velocity and a
> personal best for each particle; the personal bests are the best measured so far for
> their own particles, the global best is the best of all; and one position for each
> particle is proposed, inside the bounds.

The swarm is what it should be in every run whose calls of `observe` are `Sound`: at
the first one every particle has been measured, and afterwards nothing has.
-/

namespace OSimFlow.Algorithms.Pso

open OSimFlow.Lib (Dict Extended padded padded_lt append_lt_append length_padded
  mapM_ok_of_forall sortedBy sortedBy_eq_self Along)

/-- A point of the design space: a number for each variable. -/
abbrev Position (K : Type) := List K

/-- A position and its `current_fit`. -/
abbrev Result (K : Type) := Position K × Extended K

/-- An independent variable with a numeric distribution. -/
inductive NumericVar (K : Type) where
  | uniform (min max : K)
  | normal (mean sigma : K)
  | lognormal (mean sigma : K)
  | triangular (min max : K)
  | other

/-- What the constructor and `variables.yml` set; `floatOfStr` is what `float` does to a
string. -/
structure PSOAlgorithm (K : Type) where
  objectiveKpi : String
  maximize : Bool
  tol : K
  w : K
  c1 : K
  c2 : K
  constraints : List (Constraint K)
  independentVars : List (NumericVar K)
  floatOfStr : String → Option (Extended K)

/-- The state of the swarm; a personal best is its position and its value. -/
structure Swarm (K : Type) where
  positions : List (Position K)
  velocities : List (Position K)
  personalBest : List (Result K)
  globalBest : Result K
  prevGlobalBest : Extended K
  initialized : Bool

/-- As the constructor leaves it. -/
def Swarm.empty (K : Type) : Swarm K := ⟨[], [], [], ([], .posInf), .posInf, false⟩

/-- A generation of the campaign: its samples, and the KPI file each of them wrote. -/
structure Generation (K : Type) where
  samples : List (Position K)
  result : Nat → Option (KpiFile K)

inductive ObserveError where
  | read (e : ReadError)
  | indexError
  | valueError
deriving DecidableEq

/-! ## The KPI files -/

/-- `kpi_{sample_id}.json`; the id is the place of the sample from 1, with four digits. -/
def kpiName (i : Nat) : String := "kpi_" ++ padded 4 (i + 1) ++ ".json"

section

variable {K : Type} [Field K] [LinearOrder K]

/-- `sorted(out)`: the samples that succeeded, in the order of their file names. -/
def Generation.kpiFiles (g : Generation K) : List Nat :=
  sortedBy kpiName ((List.range g.samples.length).filter fun i => (g.result i).isSome)

/-- What is in `work/kpis` under the name of a sample after the generations. -/
def fileAfter (generations : List (Generation K)) (i : Nat) : KpiFile K :=
  generations.foldl (fun file g =>
    if i < g.samples.length then (g.result i).getD file else file) .missing

namespace PSOAlgorithm

variable (pso : PSOAlgorithm K)

/-- The rows that a KPI file gives, as their fitness. -/
def readFit (file : KpiFile K) : Except ReadError (List (Extended K)) :=
  (fun rows => rows.map (currentFit pso.maximize)) <$>
    readSample (fun kpis => objectiveValue pso.floatOfStr kpis pso.objectiveKpi)
      pso.constraints ∅ file

/-- `_read_kpi_values` on the history, and the arrays made of it. The values of a sample
are its position. -/
def readResults (generations : List (Generation K)) : Except ReadError (List (Result K)) :=
  List.flatten <$> (generations.flatMap fun g => g.samples.zip g.kpiFiles).mapM fun pair =>
    (fun fits => fits.map fun fit => (pair.1, fit)) <$>
      pso.readFit (fileAfter generations pair.2)

/-! ## `observe` -/

attribute [local instance] Lib.atLeastTwo_three Lib.atLeastTwo_ten in
/-- `_extract_bounds`. -/
def bounds : List (K × K) :=
  pso.independentVars.map fun v =>
    match v with
    | .uniform min max => (min, max)
    | .normal mean sigma => (mean - 3 * sigma, mean + 3 * sigma)
    | .lognormal mean sigma => (max (1 / 10 ^ 10) (mean - 3 * sigma), mean + 3 * sigma)
    | .triangular min max => (min, max)
    | .other => (0, 1)

/-- `_clip_to_bounds`, on a row. -/
def clipToBounds (x : Position K) : Position K :=
  List.zipWith (fun v b => min (max v b.1) b.2) x pso.bounds

end PSOAlgorithm

/-- `np.argmin`, as the row: the first of the least. -/
def argmin : Result K → List (Result K) → Result K
  | best, [] => best
  | best, r :: rest => argmin (if r.2 < best.2 then r else best) rest

/-- The loop over the personal bests. -/
def updateBests : List (Result K) → List (Result K) → List (Result K)
  | b :: bests, r :: rows => (if r.2 < b.2 then r else b) :: updateBests bests rows
  | bests, [] => bests
  | [], _ :: _ => []

/-- The first call: every row read is a particle. -/
def Swarm.initialise (dim : Nat) (r : Result K) (rows : List (Result K)) : Swarm K where
  positions := (r :: rows).map Prod.fst
  velocities := (r :: rows).map fun _ => List.replicate dim 0
  personalBest := r :: rows
  globalBest := argmin r rows
  prevGlobalBest := (argmin r rows).2
  initialized := true

/-- A later call. -/
def Swarm.update (s : Swarm K) (r : Result K) (rows : List (Result K)) :
    Except ObserveError (Swarm K) :=
  if s.personalBest.length < (r :: rows).length then .error .indexError
  else .ok { s with
    positions := (r :: rows).map Prod.fst
    personalBest := updateBests s.personalBest (r :: rows)
    globalBest := if (argmin r rows).2 < s.globalBest.2 then argmin r rows else s.globalBest
    prevGlobalBest := s.globalBest.2 }

/-- The rows read, taken into the swarm. -/
def Swarm.absorb (s : Swarm K) (dim : Nat) (r : Result K) (rows : List (Result K)) :
    Except ObserveError (Swarm K) :=
  if s.initialized then s.update r rows else .ok (Swarm.initialise dim r rows)

/-- A row of an array that may be stretched from one row. -/
def broadcastRow {α : Type} (default : α) (rows : List α) (i : Nat) : α :=
  if rows.length = 1 then rows.headD default else rows.getD i default

namespace PSOAlgorithm

variable (pso : PSOAlgorithm K)

/-- The velocity rule for one particle, with its random numbers. -/
def velocity (r1 r2 : Nat → K) (v best global x : Position K) : Position K :=
  (List.range pso.independentVars.length).map fun j =>
    pso.w * v.getD j 0 + pso.c1 * r1 j * (best.getD j 0 - x.getD j 0) +
      pso.c2 * r2 j * (global.getD j 0 - x.getD j 0)

/-- The velocity and the position update. The arrays of the swarm have a row for each
particle, the positions and the random numbers one for each row read. -/
def move (r1 r2 : Nat → Nat → K) (s : Swarm K) : Except ObserveError (Swarm K) :=
  let read := s.positions.length
  let particles := s.velocities.length
  if read = particles ∨ read = 1 ∨ particles = 1 then
    let velocities := (List.range (max read particles)).map fun i =>
      pso.velocity (r1 (if read = 1 then 0 else i)) (r2 (if read = 1 then 0 else i))
        (broadcastRow [] s.velocities i) (broadcastRow ([], .posInf) s.personalBest i).1
        s.globalBest.1 (broadcastRow [] s.positions i)
    .ok { s with
      velocities := velocities
      positions := velocities.zipIdx.map fun row =>
        pso.clipToBounds (List.zipWith (· + ·) (broadcastRow [] s.positions row.2) row.1) }
  else .error .valueError

/-- `observe`: the new state, and the proposed positions. -/
def observe (r1 r2 : Nat → Nat → K) (generations : List (Generation K)) (s : Swarm K) :
    Except ObserveError (Swarm K × List (Position K)) :=
  if generations = [] ∨ pso.independentVars = [] then .ok (s, [])
  else
    match pso.readResults generations with
    | .error e => .error (.read e)
    | .ok [] => .ok (s, [])
    | .ok (r :: rows) =>
      match s.absorb pso.independentVars.length r rows with
      | .error e => .error e
      | .ok current =>
        match pso.move r1 r2 current with
        | .error e => .error e
        | .ok moved => .ok (moved, moved.positions)

attribute [local instance] Lib.atLeastTwo_ten in
/-- `is_converged`. What involves an infinity is `nan` or infinite, and not below `tol`. -/
def isConverged (s : Swarm K) : Bool :=
  if !s.initialized then false
  else
    match s.globalBest.2 with
    | .posInf | .negInf => false
    | .finite best =>
      match s.prevGlobalBest with
      | .posInf => false
      | .negInf => decide (|best| < 1 / 10 ^ 12)
      | .finite prev =>
        if |best| < 1 / 10 ^ 12 then true
        else if prev = 0 then decide (best = 0)
        else decide (|best - prev| / |prev| < pso.tol)

end PSOAlgorithm

/-! ## The campaign loop -/

inductive Status where
  | running
  | converged
  /-- `observe` proposed nothing: the loop raises `RuntimeError`. -/
  | noSamples
  | raised (e : ObserveError)

/-- The loop before a generation. -/
structure Loop (K : Type) where
  swarm : Swarm K
  generations : List (Generation K)
  status : Status

/-- What the next generation meets: the random numbers of `observe`, and what the
samples it proposes write. -/
structure Turn (K : Type) where
  r1 : Nat → Nat → K
  r2 : Nat → Nat → K
  result : Nat → Option (KpiFile K)

/-- After generation 0. -/
def start (samples : List (Position K)) (result : Nat → Option (KpiFile K)) : Loop K :=
  ⟨Swarm.empty K, [⟨samples, result⟩], .running⟩

/-- One turn of the loop: `is_converged`, `observe`, and the samples simulated. -/
def turn (pso : PSOAlgorithm K) (c : Loop K) (e : Turn K) : Loop K :=
  match c.status with
  | .running =>
    if pso.isConverged c.swarm then { c with status := .converged }
    else
      match pso.observe e.r1 e.r2 c.generations c.swarm with
      | .error err => { c with status := .raised err }
      | .ok (_, []) => { c with status := .noSamples }
      | .ok (swarm, x :: xs) =>
        ⟨swarm, c.generations ++ [⟨x :: xs, e.result⟩], .running⟩
  | _ => c

/-! ## What the swarm should be -/

/-- The fitness a KPI file gives, if it gives one. -/
def PSOAlgorithm.fitness (pso : PSOAlgorithm K) (file : KpiFile K) : Option (Extended K) :=
  match pso.readFit file with
  | .ok [fit] => some fit
  | _ => none

/-- What a particle was measured at in a generation. -/
def measuredIn (pso : PSOAlgorithm K) (i : Nat) (g : Generation K) : Option (Result K) :=
  match g.samples[i]?, g.result i with
  | some x, some file => (pso.fitness file).map fun fit => (x, fit)
  | _, _ => none

/-- What a particle was measured at so far. -/
def measured (pso : PSOAlgorithm K) (generations : List (Generation K)) (i : Nat) :
    List (Result K) :=
  generations.filterMap (measuredIn pso i)

/-- The best of what was measured. -/
def Best (r : Result K) (results : List (Result K)) : Prop :=
  r ∈ results ∧ ∀ r' ∈ results, r.2 ≤ r'.2

/-- How many particles the campaign started with. -/
def particles (generations : List (Generation K)) : Nat :=
  (generations.head?.map fun g => g.samples.length).getD 0

/-- The swarm after `observe`, and what it proposed. -/
structure Tidy (pso : PSOAlgorithm K) (generations : List (Generation K)) (s : Swarm K)
    (proposed : List (Position K)) : Prop where
  positions : s.positions.length = particles generations
  velocities : s.velocities.length = particles generations
  personalBests : s.personalBest.length = particles generations
  personal : ∀ i r, s.personalBest[i]? = some r → Best r (measured pso generations i)
  global : Best s.globalBest
    ((List.range (particles generations)).flatMap (measured pso generations))
  proposed_length : proposed.length = particles generations
  inside : ∀ x ∈ proposed, List.Forall₂ (fun v b => b.1 ≤ v ∧ v ≤ b.2) x pso.bounds

/-- The call of `observe` in a turn, if there is one, leaves the swarm as it should be. -/
def Consistent (pso : PSOAlgorithm K) (c : Loop K) (e : Turn K) : Prop :=
  c.status = .running → pso.isConverged c.swarm = false →
    ∃ s proposed, pso.observe e.r1 e.r2 c.generations c.swarm = .ok (s, proposed) ∧
      Tidy pso c.generations s proposed

/-- At the first call every particle of the generation before has been measured, and
there are at most 9999; at a later call the generation before wrote no KPI file. -/
def Sound (pso : PSOAlgorithm K) (c : Loop K) (_ : Turn K) : Prop :=
  c.status = .running → pso.isConverged c.swarm = false →
    ∀ g, c.generations.getLast? = some g →
      if c.swarm.initialized then ∀ i < g.samples.length, g.result i = none
      else g.samples.length ≤ 9999 ∧
        ∀ i < g.samples.length, ∃ r, measuredIn pso i g = some r

end

/-! ## The names of the KPI files -/

theorem kpiName_lt {a b : Nat} (hb : b < 9999) (hab : a < b) : kpiName a < kpiName b := by
  have hlt := padded_lt (w := 4) (by omega) (show b + 1 < 10 ^ 4 by omega)
    (show a + 1 < b + 1 by omega)
  have hlen : (padded 4 (a + 1)).toList.length = (padded 4 (b + 1)).toList.length := by
    rw [length_padded (by omega) (by omega), length_padded (by omega) (by omega)]
  rw [String.lt_iff_toList_lt, kpiName, kpiName, String.toList_append, String.toList_append,
    String.toList_append, String.toList_append, List.append_assoc, List.append_assoc]
  exact append_lt_append hlen (String.lt_iff_toList_lt.mp hlt) _ _

section

variable {K : Type} [Field K] [LinearOrder K] {pso : PSOAlgorithm K}

omit [Field K] [LinearOrder K] in
/-- Where every sample has a file and the ids fit in four digits, the files come in the
order of the samples. -/
theorem kpiFiles_eq_range {g : Generation K} (hlen : g.samples.length ≤ 9999)
    (hall : ∀ i < g.samples.length, (g.result i).isSome = true) :
    g.kpiFiles = List.range g.samples.length := by
  rw [Generation.kpiFiles, List.filter_eq_self.mpr fun i hi => hall i (List.mem_range.mp hi)]
  refine sortedBy_eq_self _ (List.pairwise_lt_range.imp_of_mem fun _ hb hab => ?_)
  exact le_of_lt (kpiName_lt (Nat.lt_of_lt_of_le (List.mem_range.mp hb) hlen) hab)

/-! ## Generations that wrote nothing -/

def Silent (g : Generation K) : Prop := ∀ i < g.samples.length, g.result i = none

/-- Every sample has been measured. -/
def AllMeasured (pso : PSOAlgorithm K) (g : Generation K) : Prop :=
  ∀ i < g.samples.length, ∃ r, measuredIn pso i g = some r

omit [Field K] [LinearOrder K] in
theorem Silent.kpiFiles {g : Generation K} (h : Silent g) : g.kpiFiles = [] := by
  have hnil : ((List.range g.samples.length).filter fun i => (g.result i).isSome) = [] := by
    refine List.filter_eq_nil_iff.mpr fun i hi => ?_
    rw [h i (List.mem_range.mp hi)]
    exact Bool.false_ne_true
  rw [Generation.kpiFiles, hnil, sortedBy_eq_self _ List.Pairwise.nil]

theorem Silent.measuredIn {g : Generation K} (h : Silent g) (i : Nat) :
    measuredIn pso i g = none := by
  rw [Pso.measuredIn]
  cases hx : g.samples[i]? with
  | none => rfl
  | some x =>
    rw [h i (List.getElem?_eq_some_iff.mp hx).1]

variable {g : Generation K} {rest : List (Generation K)}

theorem measured_cons (hrest : ∀ h ∈ rest, Silent h) (i : Nat) :
    measured pso (g :: rest) i = (measuredIn pso i g).toList := by
  have hnil : rest.filterMap (measuredIn pso i) = [] :=
    List.filterMap_eq_nil_iff.mpr fun h hh => (hrest h hh).measuredIn i
  rw [measured, List.filterMap_cons, hnil]
  cases measuredIn pso i g with
  | none => rfl
  | some r => rfl

omit [Field K] [LinearOrder K] in
theorem fileAfter_cons (hrest : ∀ h ∈ rest, Silent h) {i : Nat} (hi : i < g.samples.length) :
    fileAfter (g :: rest) i = (g.result i).getD .missing := by
  rw [fileAfter, List.foldl_cons, if_pos hi]
  generalize (g.result i).getD KpiFile.missing = file
  induction rest with
  | nil => rfl
  | cons h rest ih =>
    have hkeep : (if i < h.samples.length then (h.result i).getD file else file) = file := by
      split
      next hlt => rw [hrest h List.mem_cons_self i hlt, Option.getD_none]
      next => rfl
    rw [List.foldl_cons, hkeep]
    exact ih fun h' hh => hrest h' (List.mem_cons_of_mem h hh)

/-! ## What `observe` reads -/

/-- The fitness a sample was measured at, for a sample that was. -/
def fitOf (pso : PSOAlgorithm K) (g : Generation K) (i : Nat) : Extended K :=
  ((g.result i).bind pso.fitness).getD .posInf

/-- A row for each sample. -/
def rowsOf (pso : PSOAlgorithm K) (g : Generation K) : List (Result K) :=
  g.samples.zipIdx.map fun pair => (pair.1, fitOf pso g pair.2)

theorem AllMeasured.file (h : AllMeasured pso g) {i : Nat} (hi : i < g.samples.length) :
    ∃ file, g.result i = some file ∧ pso.readFit file = .ok [fitOf pso g i] := by
  obtain ⟨r, hr⟩ := h i hi
  rw [measuredIn, List.getElem?_eq_getElem hi] at hr
  cases hfile : g.result i with
  | none =>
    rw [hfile] at hr
    exact nomatch hr
  | some file =>
    rw [hfile] at hr
    obtain ⟨fit, hfit, -⟩ := Option.map_eq_some_iff.mp hr
    have hfitOf : fitOf pso g i = fit := by
      rw [fitOf, hfile, Option.bind_some, hfit, Option.getD_some]
    refine ⟨file, rfl, ?_⟩
    rw [hfitOf]
    rw [PSOAlgorithm.fitness] at hfit
    split at hfit
    next fit' hread =>
      cases hfit
      exact hread
    next => exact nomatch hfit

theorem AllMeasured.measuredIn (h : AllMeasured pso g) {i : Nat} (hi : i < g.samples.length) :
    Pso.measuredIn pso i g = some (g.samples[i], fitOf pso g i) := by
  obtain ⟨file, hfile, hread⟩ := h.file hi
  have hfit : pso.fitness file = some (fitOf pso g i) := by
    rw [PSOAlgorithm.fitness, hread]
  rw [Pso.measuredIn, List.getElem?_eq_getElem hi, hfile]
  show (pso.fitness file).map _ = _
  rw [hfit]
  rfl

variable (pso g) in
theorem length_rowsOf : (rowsOf pso g).length = g.samples.length := by
  rw [rowsOf, List.length_map, List.length_zipIdx]

theorem getElem?_rowsOf (i : Nat) :
    (rowsOf pso g)[i]? = g.samples[i]?.map fun x => (x, fitOf pso g i) := by
  rw [rowsOf, List.getElem?_map, List.getElem?_zipIdx, Option.map_map, Nat.zero_add]
  rfl

theorem map_fst_rowsOf : (rowsOf pso g).map Prod.fst = g.samples := by
  rw [rowsOf, List.map_map]
  exact List.zipIdx_map_fst _ _

/-- If only the first generation wrote files, and wrote all of them, the history reads
as its samples with their own fitness. -/
theorem readResults_eq (hlen : g.samples.length ≤ 9999) (hall : AllMeasured pso g)
    (hrest : ∀ h ∈ rest, Silent h) :
    pso.readResults (g :: rest) = .ok (rowsOf pso g) := by
  have hfiles : g.kpiFiles = List.range g.samples.length := by
    refine kpiFiles_eq_range hlen fun i hi => ?_
    obtain ⟨file, hfile, -⟩ := hall.file hi
    rw [hfile]
    rfl
  have hpairs : ((g :: rest).flatMap fun h => h.samples.zip h.kpiFiles) =
      g.samples.zipIdx := by
    have hnil : (rest.flatMap fun h => h.samples.zip h.kpiFiles) = [] := by
      refine List.flatMap_eq_nil_iff.mpr fun h hh => ?_
      rw [(hrest h hh).kpiFiles, List.zip_nil_right]
    rw [List.flatMap_cons, hnil, List.append_nil, hfiles, List.zipIdx_eq_zip_range']
    rw [List.range_eq_range']
  have hread : ∀ pair ∈ g.samples.zipIdx,
      ((fun fits => fits.map fun fit => (pair.1, fit)) <$>
        pso.readFit (fileAfter (g :: rest) pair.2)) =
      Except.ok [(pair.1, fitOf pso g pair.2)] := by
    intro pair hpair
    have hi : pair.2 < g.samples.length := by
      have := List.snd_lt_of_mem_zipIdx hpair
      omega
    obtain ⟨file, hfile, hfit⟩ := hall.file hi
    rw [fileAfter_cons hrest hi, hfile, Option.getD_some, hfit]
    rfl
  rw [PSOAlgorithm.readResults, hpairs, mapM_ok_of_forall hread]
  show Except.ok _ = _
  rw [rowsOf, ← List.flatMap_def]
  exact congrArg Except.ok (List.flatMap_pure_eq_map _ _)

/-! ## The bests -/

omit [Field K] in
theorem argmin_best (best : Result K) (rows : List (Result K)) :
    Best (argmin best rows) (best :: rows) := by
  induction rows generalizing best with
  | nil => exact ⟨List.mem_cons_self, fun r hr => by rw [List.mem_singleton.mp hr, argmin]⟩
  | cons r rows ih =>
    have hbetter : ∃ b, (if r.2 < best.2 then r else best) = b ∧ (b = best ∨ b = r) ∧
        b.2 ≤ best.2 ∧ b.2 ≤ r.2 := by
      split
      next hlt => exact ⟨r, rfl, Or.inr rfl, le_of_lt hlt, le_refl _⟩
      next hge => exact ⟨best, rfl, Or.inl rfl, le_refl _, le_of_not_gt hge⟩
    obtain ⟨b, heq, hb, hbest, hr⟩ := hbetter
    obtain ⟨hmem, hle⟩ := ih b
    have hfirst := hle b List.mem_cons_self
    rw [argmin, heq]
    constructor
    · rcases List.mem_cons.mp hmem with hmem | hmem
      · rw [hmem]
        rcases hb with rfl | rfl
        · exact List.mem_cons_self
        · exact List.mem_cons_of_mem _ List.mem_cons_self
      · exact List.mem_cons_of_mem _ (List.mem_cons_of_mem _ hmem)
    · intro r' hr'
      rcases List.mem_cons.mp hr' with rfl | hr'
      · exact le_trans hfirst hbest
      rcases List.mem_cons.mp hr' with rfl | hr'
      · exact le_trans hfirst hr
      · exact hle r' (List.mem_cons_of_mem _ hr')

omit [Field K] in
/-- The same rows again improve nothing. -/
theorem updateBests_self (rows : List (Result K)) : updateBests rows rows = rows := by
  induction rows with
  | nil => rfl
  | cons r rows ih => rw [updateBests, if_neg (lt_irrefl _), ih]

omit [Field K] in
theorem update_same {s : Swarm K} {r : Result K} {rows : List (Result K)}
    (hbests : s.personalBest = r :: rows) (hglobal : s.globalBest = argmin r rows) :
    s.update r rows = .ok { s with
      positions := (r :: rows).map Prod.fst
      prevGlobalBest := s.globalBest.2 } := by
  rw [Swarm.update, hbests, if_neg (Nat.lt_irrefl _), updateBests_self, hglobal,
    if_neg (lt_irrefl _), ← hbests, ← hglobal]

/-! ## The move -/

omit [Field K] in
theorem clip_inside {x : Position K} {bounds : List (K × K)} (hlen : x.length = bounds.length)
    (hbounds : ∀ b ∈ bounds, b.1 ≤ b.2) :
    List.Forall₂ (fun v b => b.1 ≤ v ∧ v ≤ b.2)
      (List.zipWith (fun v b => min (max v b.1) b.2) x bounds) bounds := by
  induction bounds generalizing x with
  | nil =>
    rw [List.zipWith_nil_right]
    exact .nil
  | cons b bounds ih =>
    cases x with
    | nil => exact nomatch hlen
    | cons v x =>
      have hb := hbounds b List.mem_cons_self
      refine .cons ⟨le_min (le_max_right _ _) hb, min_le_right _ _⟩ ?_
      exact ih (Nat.succ.inj hlen) fun b' hb' => hbounds b' (List.mem_cons_of_mem b hb')

theorem broadcastRow_mem {α : Type} {default : α} {rows : List α} {i : Nat}
    (hi : i < rows.length) : broadcastRow default rows i ∈ rows := by
  rw [broadcastRow]
  split
  next hone =>
    obtain ⟨x, rfl⟩ := List.length_eq_one_iff.mp hone
    exact List.mem_singleton.mpr rfl
  next =>
    rw [List.getD_eq_getElem?_getD, List.getElem?_eq_getElem hi]
    exact List.getElem_mem hi

variable (pso) in
/-- With as many velocities as positions the move succeeds: it keeps the bests and the
number of particles, and ends inside the bounds. -/
theorem move_spec (r1 r2 : Nat → Nat → K) {s : Swarm K}
    (hlen : s.positions.length = s.velocities.length)
    (hdim : ∀ x ∈ s.positions, x.length = pso.independentVars.length)
    (hbounds : ∀ b ∈ pso.bounds, b.1 ≤ b.2) :
    ∃ s', pso.move r1 r2 s = .ok s' ∧ s'.positions.length = s.positions.length ∧
      s'.velocities.length = s.positions.length ∧ s'.personalBest = s.personalBest ∧
      s'.globalBest = s.globalBest ∧ s'.initialized = s.initialized ∧
      ∀ x ∈ s'.positions, List.Forall₂ (fun v b => b.1 ≤ v ∧ v ≤ b.2) x pso.bounds := by
  have hmax : max s.positions.length s.velocities.length = s.positions.length := by
    rw [hlen, max_self]
  rw [PSOAlgorithm.move, if_pos (Or.inl hlen)]
  refine ⟨_, rfl, ?_, ?_, rfl, rfl, rfl, ?_⟩
  · rw [List.length_map, List.length_zipIdx, List.length_map, List.length_range, hmax]
  · rw [List.length_map, List.length_range, hmax]
  · intro x hx
    obtain ⟨row, hrow, rfl⟩ := List.mem_map.mp hx
    have hi : row.2 < s.positions.length := by
      have hlt := List.snd_lt_of_mem_zipIdx hrow
      rw [List.length_map, List.length_range, hmax] at hlt
      omega
    have hvelocity : row.1.length = pso.independentVars.length := by
      obtain ⟨i, -, heq⟩ := List.mem_map.mp (List.fst_mem_of_mem_zipIdx hrow)
      rw [← heq, PSOAlgorithm.velocity, List.length_map, List.length_range]
    refine clip_inside ?_ hbounds
    rw [List.length_zipWith, hvelocity, hdim _ (broadcastRow_mem hi), min_self,
      PSOAlgorithm.bounds, List.length_map]

/-! ## Runs -/

/-- The swarm as generation 0 left it. -/
structure Formed (pso : PSOAlgorithm K) (g : Generation K) (s : Swarm K) : Prop where
  few : g.samples.length ≤ 9999
  all : AllMeasured pso g
  velocities : s.velocities.length = g.samples.length
  personal : s.personalBest = rowsOf pso g
  global : ∀ r rows, rowsOf pso g = r :: rows → s.globalBest = argmin r rows
  initialized : s.initialized = true

/-- What holds in front of each generation of a sound run. -/
structure Settled (pso : PSOAlgorithm K) (g : Generation K) (c : Loop K) : Prop where
  nonempty : g.samples ≠ []
  dim : ∀ x ∈ g.samples, x.length = pso.independentVars.length
  history : ∃ rest, c.generations = g :: rest ∧
    (c.swarm = Swarm.empty K ∧ rest = [] ∨
      Formed pso g c.swarm ∧ ∃ earlier last, rest = earlier ++ [last] ∧
        ∀ h ∈ earlier, Silent h)

variable {c : Loop K} {e : Turn K}

/-- At the call of `observe` only generation 0 has written files. -/
theorem Settled.atObserve (hinv : Settled pso g c) (hsound : Sound pso c e)
    (hrunning : c.status = .running) (hconv : pso.isConverged c.swarm = false) :
    ∃ rest, c.generations = g :: rest ∧ (∀ h ∈ rest, Silent h) ∧
      g.samples.length ≤ 9999 ∧ AllMeasured pso g ∧
      (c.swarm = Swarm.empty K ∨ Formed pso g c.swarm) := by
  obtain ⟨rest, hgens, hempty | hformed⟩ := hinv.history
  · obtain ⟨hswarm, rfl⟩ := hempty
    have hlast := hsound hrunning hconv g (by rw [hgens]; rfl)
    rw [hswarm] at hlast
    exact ⟨[], hgens, fun h hh => absurd hh List.not_mem_nil, hlast.1, hlast.2, Or.inl hswarm⟩
  · obtain ⟨hformed, earlier, last, rfl, hearlier⟩ := hformed
    have hlast := hsound hrunning hconv last (by
      rw [hgens, ← List.cons_append, List.getLast?_concat])
    rw [if_pos hformed.initialized] at hlast
    refine ⟨_, hgens, fun h hh => ?_, hformed.few, hformed.all, Or.inr hformed⟩
    rcases List.mem_append.mp hh with hh | hh
    · exact hearlier h hh
    · rw [List.mem_singleton.mp hh]
      exact hlast

/-- What `observe` leaves then. -/
theorem observe_spec (hvars : pso.independentVars ≠ []) (hbounds : ∀ b ∈ pso.bounds, b.1 ≤ b.2)
    (hne : g.samples ≠ []) (hdim : ∀ x ∈ g.samples, x.length = pso.independentVars.length)
    (hlen : g.samples.length ≤ 9999) (hall : AllMeasured pso g) (hrest : ∀ h ∈ rest, Silent h)
    {s : Swarm K} (hs : s = Swarm.empty K ∨ Formed pso g s) (r1 r2 : Nat → Nat → K) :
    ∃ s', pso.observe r1 r2 (g :: rest) s = .ok (s', s'.positions) ∧ Formed pso g s' ∧
      s'.positions.length = g.samples.length ∧
      ∀ x ∈ s'.positions, List.Forall₂ (fun v b => b.1 ≤ v ∧ v ≤ b.2) x pso.bounds := by
  have hread : pso.readResults (g :: rest) = .ok (rowsOf pso g) := readResults_eq hlen hall hrest
  obtain ⟨r, rows, hrows⟩ : ∃ r rows, rowsOf pso g = r :: rows := by
    cases h : rowsOf pso g with
    | nil =>
      have hzero := length_rowsOf pso g
      rw [h] at hzero
      exact absurd (List.length_eq_zero_iff.mp hzero.symm) hne
    | cons r rows => exact ⟨r, rows, rfl⟩
  have hpositions : (r :: rows).map Prod.fst = g.samples := by rw [← hrows, map_fst_rowsOf]
  have hcount : (r :: rows).length = g.samples.length := by rw [← hrows, length_rowsOf pso g]
  -- both branches lead to the swarm of generation 0, before the move
  obtain ⟨current, hcurrent, hpos, hvel, hbest, hglobal, hinit⟩ : ∃ current,
      s.absorb pso.independentVars.length r rows = .ok current ∧
      current.positions = g.samples ∧ current.velocities.length = g.samples.length ∧
      current.personalBest = r :: rows ∧ current.globalBest = argmin r rows ∧
      current.initialized = true := by
    rcases hs with rfl | hformed
    · refine ⟨_, rfl, hpositions, ?_, rfl, rfl, rfl⟩
      rw [Swarm.initialise, List.length_map, hcount]
    · have hupdate := update_same (hformed.personal.trans hrows) (hformed.global r rows hrows)
      rw [Swarm.absorb, if_pos hformed.initialized]
      exact ⟨_, hupdate, hpositions, hformed.velocities, hformed.personal.trans hrows,
        hformed.global r rows hrows, hformed.initialized⟩
  obtain ⟨s', hmove, hpos', hvel', hbest', hglobal', hinit', hinside⟩ :=
    move_spec pso r1 r2 (s := current) (by rw [hpos, hvel])
      (by rw [hpos]; exact hdim) hbounds
  rw [hpos] at hpos' hvel'
  refine ⟨s', ?_, ⟨hlen, hall, hvel', ?_, ?_, hinit'.trans hinit⟩, hpos', hinside⟩
  · rw [PSOAlgorithm.observe, if_neg (fun h => h.elim (fun h => nomatch h) hvars), hread, hrows]
    simp only [hcurrent, hmove]
  · rw [hbest', hbest, hrows]
  · intro r' rows' h'
    rw [hrows] at h'
    cases h'
    rw [hglobal', hglobal]

/-- A formed swarm has the bests that were measured. -/
theorem Formed.tidy {s : Swarm K} (hformed : Formed pso g s) (hne : g.samples ≠ [])
    (hrest : ∀ h ∈ rest, Silent h) (hpos : s.positions.length = g.samples.length)
    (hinside : ∀ x ∈ s.positions, List.Forall₂ (fun v b => b.1 ≤ v ∧ v ≤ b.2) x pso.bounds) :
    Tidy pso (g :: rest) s s.positions where
  positions := hpos
  velocities := hformed.velocities
  personalBests := by
    rw [hformed.personal, length_rowsOf pso g]
    rfl
  personal := by
    intro i r hr
    rw [hformed.personal, getElem?_rowsOf] at hr
    obtain ⟨x, hx, rfl⟩ := Option.map_eq_some_iff.mp hr
    obtain ⟨hi, hget⟩ := List.getElem?_eq_some_iff.mp hx
    have hmeasured : measured pso (g :: rest) i = [(x, fitOf pso g i)] := by
      rw [measured_cons hrest, hformed.all.measuredIn hi, hget]
      rfl
    rw [hmeasured]
    exact ⟨List.mem_singleton.mpr rfl, fun r' hr' => by rw [List.mem_singleton.mp hr']⟩
  global := by
    have hmeasured : (List.range g.samples.length).flatMap (measured pso (g :: rest)) =
        rowsOf pso g := by
      have hone : ∀ i ∈ List.range g.samples.length, measured pso (g :: rest) i =
          [(g.samples.getD i [], fitOf pso g i)] := by
        intro i hi
        rw [measured_cons hrest, hformed.all.measuredIn (List.mem_range.mp hi),
          List.getD_eq_getElem?_getD, List.getElem?_eq_getElem (List.mem_range.mp hi)]
        rfl
      rw [List.flatMap_congr hone]
      refine (List.flatMap_pure_eq_map _ _).trans (List.ext_getElem? fun i => ?_)
      rw [getElem?_rowsOf, List.getElem?_map]
      by_cases hi : i < g.samples.length
      · rw [List.getElem?_range hi, List.getElem?_eq_getElem hi]
        rw [Option.map_some, List.getD_eq_getElem?_getD, List.getElem?_eq_getElem hi]
        rfl
      · rw [List.getElem?_eq_none (by rw [List.length_range]; omega),
          List.getElem?_eq_none (by omega)]
        rfl
    show Best s.globalBest ((List.range g.samples.length).flatMap _)
    rw [hmeasured]
    cases h : rowsOf pso g with
    | nil =>
      have hzero := length_rowsOf pso g
      rw [h] at hzero
      exact absurd (List.length_eq_zero_iff.mp hzero.symm) hne
    | cons r rows =>
      rw [hformed.global r rows h]
      exact argmin_best r rows
  proposed_length := hpos
  inside := hinside

theorem settled_start {samples : List (Position K)} {result : Nat → Option (KpiFile K)}
    (hne : samples ≠ []) (hdim : ∀ x ∈ samples, x.length = pso.independentVars.length) :
    Settled pso ⟨samples, result⟩ (start samples result) :=
  ⟨hne, hdim, [], rfl, Or.inl ⟨rfl, rfl⟩⟩

theorem Settled.turn (hvars : pso.independentVars ≠ []) (hbounds : ∀ b ∈ pso.bounds, b.1 ≤ b.2)
    (hinv : Settled pso g c) (hsound : Sound pso c e) : Settled pso g (turn pso c e) := by
  rw [Pso.turn]
  split
  next hrunning =>
    split
    next => exact ⟨hinv.nonempty, hinv.dim, hinv.history⟩
    next hconv =>
      obtain ⟨rest, hgens, hrest, hlen, hall, hs⟩ :=
        hinv.atObserve hsound hrunning (Bool.not_eq_true _ ▸ hconv)
      obtain ⟨s', hobserve, hformed, hpos, -⟩ := observe_spec hvars hbounds hinv.nonempty
        hinv.dim hlen hall hrest hs e.r1 e.r2
      rw [← hgens] at hobserve
      rw [hobserve]
      cases s'.positions with
      | nil => exact ⟨hinv.nonempty, hinv.dim, hinv.history⟩
      | cons x xs =>
        refine ⟨hinv.nonempty, hinv.dim, rest ++ [⟨x :: xs, e.result⟩], ?_, Or.inr ⟨hformed, ?_⟩⟩
        · show c.generations ++ _ = _
          rw [hgens, List.cons_append]
        · exact ⟨rest, _, rfl, hrest⟩
  next => exact hinv

end

/-! ## One particle and two particles -/

def euiFile : KpiFile ℚ := .json (.obj [("kpis", .obj [("eui", .int 5)])])

/-- The defaults, with one variable. -/
def euiSwarm : PSOAlgorithm ℚ where
  objectiveKpi := "eui"
  maximize := false
  tol := 1 / 1000
  w := 7 / 10
  c1 := 3 / 2
  c2 := 3 / 2
  constraints := []
  independentVars := [.uniform 0 1]
  floatOfStr := fun _ => none

/-- A second generation that fails. -/
def failedTurn : Turn ℚ := ⟨fun _ _ => 0, fun _ _ => 0, fun _ => none⟩

theorem euiSwarm_bounds : ∀ b ∈ euiSwarm.bounds, b.1 ≤ b.2 := by
  intro b hb
  rw [List.mem_singleton.mp hb]
  exact zero_le_one

end OSimFlow.Algorithms.Pso
