import Mathlib.Data.Rat.Floor
import OSimFlow.Algorithms.Sampling
import OSimFlow.Algorithms.Surrogates

/-!
# Migration between the islands

The island GA keeps several populations. Every few generations each island sends copies of
its best individuals to the next one of the ring, where they are evaluated again and take
the places of individuals that were there.

> `Elitist`: after a migration every island has its former individuals but the `n` worst,
> and the `n` best of the island before it; its best fitness is no worse, its size the same.

Emigrants and the individuals that are replaced are both taken from the front of one and
the same sort, best first. So the arrivals replace the best ones. `elitist_iff` says when
this is no loss: when the whole population is replaced by one that is as good, or when all
individuals of an island are equally fit (`Harmless`).

Individuals are objects: `ref` is the identity of one, and every migrant is a new object.
DEAP's hall of fame, which no migration reads, is left out.
-/

namespace OSimFlow.Algorithms.Islands

open OSimFlow.Lib (Dict Extended rel_take_drop_insertionSort perm_take_drop_insertionSort)
open OSimFlow.Algorithms.Surrogates (Point lookupFitness)
open OSimFlow.Algorithms.Sampling (pyRound)

structure Individual (K : Type) (n : Nat) where
  ref : Nat
  genes : Point K n
  fitness : Extended K

structure Island (K : Type) (n : Nat) where
  population : List (Individual K n)
  fitnessMap : Dict (Point K n) (Extended K)

section

variable {K : Type} [LinearOrder K] {n : Nat}

/-- Under `FitnessMax` a greater fitness is better, under `FitnessMin` a smaller one. -/
def NoWorse (maximize : Bool) (a b : Individual K n) : Prop :=
  if maximize then b.fitness ≤ a.fitness else a.fitness ≤ b.fitness

instance (maximize : Bool) : DecidableRel (NoWorse maximize : Individual K n → _ → Prop) :=
  fun a b => inferInstanceAs
    (Decidable (if maximize then b.fitness ≤ a.fitness else a.fitness ≤ b.fitness))

instance (maximize : Bool) : Std.Total (NoWorse maximize : Individual K n → _ → Prop) where
  total a b := by
    unfold NoWorse
    cases maximize with
    | false => exact le_total a.fitness b.fitness
    | true => exact le_total b.fitness a.fitness

instance (maximize : Bool) : IsTrans (Individual K n) (NoWorse maximize) where
  trans a b c hab hbc := by
    unfold NoWorse at hab hbc ⊢
    cases maximize with
    | false => exact le_trans hab hbc
    | true => exact le_trans hbc hab

theorem noWorse_of_eq {maximize : Bool} {a b : Individual K n} (h : a.fitness = b.fitness) :
    NoWorse maximize a b := by
  unfold NoWorse
  rw [h]
  split <;> exact le_refl _

theorem fitness_eq {maximize : Bool} {a b : Individual K n} (hab : NoWorse maximize a b)
    (hba : NoWorse maximize b a) : a.fitness = b.fitness := by
  unfold NoWorse at hab hba
  cases maximize with
  | false => exact le_antisymm hab hba
  | true => exact le_antisymm hba hab

end

section

variable {K : Type} [Field K] [LinearOrder K] {n : Nat}

/-- `sorted(population, key=fitness, reverse=maximize)`, a stable sort. -/
def sortedPop (maximize : Bool) (population : List (Individual K n)) :
    List (Individual K n) :=
  population.insertionSort (NoWorse maximize)

/-- `get_emigrants`. -/
def getEmigrants (maximize : Bool) (island : Island K n) (nEmigrate : Nat) :
    List (Point K n) :=
  ((sortedPop maximize island.population).take nEmigrate).map (·.genes)

/-- `Individual(individuals[i])`, evaluated with the island's fitness map. -/
def migrant (maximize : Bool) (next : Nat) (island : Island K n)
    (entry : Point K n × Nat) : Individual K n where
  ref := next + entry.2
  genes := entry.1
  fitness := lookupFitness maximize entry.1 island.fitnessMap 0

/-- `inject_individuals`; the objects from `next` on are new. -/
def injectIndividuals (maximize : Bool) (next : Nat) (island : Island K n)
    (individuals : List (Point K n)) : Island K n :=
  if individuals.isEmpty || island.population.isEmpty then island
  else
    let nInject := min individuals.length island.population.length
    -- the places from the front of the sorted population on
    { island with
      population := (individuals.take nInject).zipIdx.map (migrant maximize next island) ++
        (sortedPop maximize island.population).drop nInject }

/-- `(i - 1) % numIslands`. -/
def senderIdx (numIslands i : Nat) : Nat := (((i : Int) - 1) % numIslands).toNat

/-- The second loop of `_run_migration`, from island `i` on, with the next new object. -/
def injectAll (maximize : Bool) (numIslands : Nat) (emigrants : List (List (Point K n))) :
    Nat → Nat → List (Island K n) → List (Island K n) × Nat
  | next, _, [] => ([], next)
  | next, i, island :: islands =>
    let individuals := emigrants.getD (senderIdx numIslands i) []
    let rest := injectAll maximize numIslands emigrants (next + individuals.length) (i + 1)
      islands
    (injectIndividuals maximize next island individuals :: rest.1, rest.2)

/-- The individuals of an island are distinct objects, as many as the algorithm says, and
older than the next new one. -/
structure Island.Populated (island : Island K n) (popsize next : Nat) : Prop where
  length_eq : island.population.length = popsize
  nodup : (island.population.map (·.ref)).Nodup
  ref_lt : ∀ ind ∈ island.population, ind.ref < next

/-! ## Elitist replacement -/

/-- `after` is `before` with the `m` worst individuals replaced by copies of the `m` best of
`sender`. -/
def Replaces (maximize : Bool) (m : Nat) (before sender after : List (Individual K n)) :
    Prop :=
  ∃ kept worst best rest copies : List (Individual K n),
    before.Perm (kept ++ worst) ∧ worst.length = m ∧
    (∀ k ∈ kept, ∀ w ∈ worst, NoWorse maximize k w) ∧
    sender.Perm (best ++ rest) ∧ best.length = m ∧
    (∀ b ∈ best, ∀ r ∈ rest, NoWorse maximize b r) ∧
    after.Perm (kept ++ copies) ∧ copies.map (·.genes) = best.map (·.genes)

/-- The best fitness is no worse than it was. -/
def KeepsBest (maximize : Bool) (before after : List (Individual K n)) : Prop :=
  ∀ old ∈ before, ∃ new ∈ after, NoWorse maximize new old

/-- What a migration should do to an island. -/
def ElitistAt (maximize : Bool) (m : Nat) (before sender after : List (Individual K n)) :
    Prop :=
  after.length = before.length ∧ Replaces maximize m before sender after ∧
    KeepsBest maximize before after

/-- The arrivals take the places of nobody better: a whole population gives way to one as
good, evaluated on the island, or all individuals of the island are equally fit. -/
def Harmless (maximize : Bool) (m : Nat) (island : Island K n)
    (sender : List (Individual K n)) : Prop :=
  if m < island.population.length then
    ∀ x ∈ island.population, ∀ y ∈ island.population, x.fitness = y.fitness
  else
    ∀ old ∈ island.population, ∃ p ∈ sender,
      NoWorse maximize ⟨p.ref, p.genes, lookupFitness maximize p.genes island.fitnessMap 0⟩ old

/-! ## One island -/

section

variable {maximize : Bool} {m next : Nat} {island : Island K n}
  {sender : List (Individual K n)}

/-- The individuals that arrive on an island. -/
def arrivals (maximize : Bool) (next : Nat) (island : Island K n)
    (individuals : List (Point K n)) : List (Individual K n) :=
  individuals.zipIdx.map (migrant maximize next island)

theorem length_arrivals (individuals : List (Point K n)) :
    (arrivals maximize next island individuals).length = individuals.length := by
  rw [arrivals, List.length_map, List.length_zipIdx]

theorem map_genes_arrivals (individuals : List (Point K n)) :
    (arrivals maximize next island individuals).map (·.genes) = individuals := by
  rw [arrivals, List.map_map]
  exact List.zipIdx_map_fst 0 individuals

theorem le_ref_of_mem_arrivals {individuals : List (Point K n)} {ind : Individual K n}
    (h : ind ∈ arrivals maximize next island individuals) :
    next ≤ ind.ref ∧ ind.ref < next + individuals.length := by
  obtain ⟨entry, hentry, rfl⟩ := List.mem_map.mp h
  have hlt := List.snd_lt_of_mem_zipIdx hentry
  show next ≤ next + entry.2 ∧ next + entry.2 < next + individuals.length
  omega

theorem nodup_arrivals (individuals : List (Point K n)) :
    ((arrivals maximize next island individuals).map (·.ref)).Nodup := by
  have hrefs : (arrivals maximize next island individuals).map (·.ref) =
      (individuals.zipIdx.map Prod.snd).map (next + ·) := by
    rw [arrivals, List.map_map, List.map_map]
    rfl
  rw [hrefs, List.zipIdx_map_snd]
  exact (List.nodup_range').map fun a b h => Nat.add_left_cancel h

/-- What an island is after the injection: the arrivals, and what was behind the front. -/
theorem population_inject {individuals : List (Point K n)}
    (hlen : individuals.length ≤ island.population.length) (hne : individuals ≠ []) :
    (injectIndividuals maximize next island individuals).population =
      arrivals maximize next island individuals ++
        (sortedPop maximize island.population).drop individuals.length := by
  have hpos := List.length_pos_iff.mpr hne
  have hpop : island.population ≠ [] := by
    apply List.length_pos_iff.mp
    omega
  unfold injectIndividuals
  rw [if_neg (by simp [hne, hpop])]
  show (individuals.take (min individuals.length island.population.length)).zipIdx.map _ ++
    _ = _
  rw [Nat.min_eq_left hlen, List.take_length]
  rfl

omit [Field K] in
theorem length_getEmigrants {sender : Island K n} (hle : m ≤ sender.population.length) :
    (getEmigrants maximize sender m).length = m := by
  rw [getEmigrants, List.length_map, List.length_take, sortedPop, List.length_insertionSort]
  exact Nat.min_eq_left hle

/-- The island after the arrival of the best of `sender`. -/
theorem population_receive {sender : Island K n} (hm : 1 ≤ m)
    (hle : m ≤ island.population.length)
    (hsender : sender.population.length = island.population.length) :
    (injectIndividuals maximize next island (getEmigrants maximize sender m)).population =
      arrivals maximize next island (getEmigrants maximize sender m) ++
        (sortedPop maximize island.population).drop m := by
  have hlen : (getEmigrants maximize sender m).length = m :=
    length_getEmigrants (hsender.symm ▸ hle)
  have hne : getEmigrants maximize sender m ≠ [] := by
    apply List.length_pos_iff.mp
    omega
  rw [population_inject (by omega) hne, hlen]

/-- Who is kept can only be who stood behind the front. -/
theorem perm_drop_of_replaces {popsize : Nat} (hpop : island.Populated popsize next)
    {kept worst copies : List (Individual K n)} {individuals : List (Point K n)}
    (hbefore : island.population.Perm (kept ++ worst)) (hworst : worst.length = m)
    (hafter : (arrivals maximize next island individuals ++
      (sortedPop maximize island.population).drop m).Perm (kept ++ copies)) :
    kept.Perm ((sortedPop maximize island.population).drop m) := by
  have hnodup : (kept ++ worst).Nodup := hbefore.nodup_iff.mp (List.Nodup.of_map _ hpop.nodup)
  have hsubset : kept ⊆ (sortedPop maximize island.population).drop m := by
    intro k hk
    have hold : k ∈ island.population := hbefore.mem_iff.mpr (List.mem_append_left worst hk)
    rcases List.mem_append.mp (hafter.mem_iff.mpr (List.mem_append_left copies hk)) with h | h
    · -- the arrivals are new objects
      have hnew := (le_ref_of_mem_arrivals h).1
      have hlt := hpop.ref_lt k hold
      omega
    · exact h
  refine (List.subperm_of_subset (List.nodup_append.mp hnodup).1 hsubset).perm_of_length_le ?_
  have hlen := hbefore.length_eq
  rw [List.length_append] at hlen
  rw [List.length_drop, sortedPop, List.length_insertionSort]
  omega

/-- If the front may go, everybody is as fit as the front. -/
theorem fitness_eq_of_replaces {popsize : Nat} (hpop : island.Populated popsize next)
    (hm : 1 ≤ m) (hlt : m < island.population.length) {individuals : List (Point K n)}
    {sender : List (Individual K n)}
    (h : Replaces maximize m island.population sender
      (arrivals maximize next island individuals ++
        (sortedPop maximize island.population).drop m)) :
    ∀ x ∈ island.population, ∀ y ∈ island.population, x.fitness = y.fitness := by
  obtain ⟨kept, worst, _, _, copies, hbefore, hworst, hkw, _, _, _, hafter, _⟩ := h
  have hkept := perm_drop_of_replaces hpop hbefore hworst hafter
  have hsplit := perm_take_drop_insertionSort (NoWorse maximize) island.population m
  have hfront : ((sortedPop maximize island.population).take m).Perm worst := by
    have hall : (kept ++ worst).Perm ((sortedPop maximize island.population).drop m ++
        (sortedPop maximize island.population).take m) :=
      hbefore.symm.trans (hsplit.trans List.perm_append_comm)
    have hcancel : (kept ++ worst).Perm (kept ++
        (sortedPop maximize island.population).take m) :=
      hall.trans (hkept.symm.append_right _)
    exact ((List.perm_append_left_iff kept).mp hcancel).symm
  have heq : ∀ t ∈ (sortedPop maximize island.population).take m,
      ∀ d ∈ (sortedPop maximize island.population).drop m, t.fitness = d.fitness := by
    intro t ht d hd
    have htd := rel_take_drop_insertionSort (NoWorse maximize) island.population m t ht d hd
    have hdt := hkw d (hkept.mem_iff.mpr hd) t (hfront.mem_iff.mp ht)
    exact fitness_eq htd hdt
  have hlen : (sortedPop maximize island.population).length = island.population.length :=
    List.length_insertionSort _ _
  obtain ⟨t, ht⟩ : ∃ t, t ∈ (sortedPop maximize island.population).take m := by
    apply List.exists_mem_of_length_pos
    rw [List.length_take]
    omega
  obtain ⟨d, hd⟩ : ∃ d, d ∈ (sortedPop maximize island.population).drop m := by
    apply List.exists_mem_of_length_pos
    rw [List.length_drop]
    omega
  -- one of the front and one from behind stand for all
  have hstand : ∀ x ∈ island.population, x.fitness = d.fitness := by
    intro x hx
    rcases List.mem_append.mp (hsplit.mem_iff.mp hx) with h | h
    · exact heq x h d hd
    · exact (heq t ht x h).symm.trans (heq t ht d hd)
  intro x hx y hy
  exact (hstand x hx).trans (hstand y hy).symm

/-- The best of the sender leave. -/
theorem replaces_of_front {sender : Island K n}
    (hle : m ≤ island.population.length)
    (hsender : sender.population.length = island.population.length)
    (hkw : ∀ k ∈ (sortedPop maximize island.population).drop m,
      ∀ w ∈ (sortedPop maximize island.population).take m, NoWorse maximize k w) :
    Replaces maximize m island.population sender.population
      (arrivals maximize next island (getEmigrants maximize sender m) ++
        (sortedPop maximize island.population).drop m) := by
  refine ⟨(sortedPop maximize island.population).drop m,
    (sortedPop maximize island.population).take m,
    (sortedPop maximize sender.population).take m,
    (sortedPop maximize sender.population).drop m,
    arrivals maximize next island (getEmigrants maximize sender m), ?_, ?_, hkw, ?_, ?_, ?_,
    List.perm_append_comm, map_genes_arrivals _⟩
  · exact (perm_take_drop_insertionSort (NoWorse maximize) island.population m).trans
      List.perm_append_comm
  · rw [List.length_take, sortedPop, List.length_insertionSort]
    omega
  · exact perm_take_drop_insertionSort (NoWorse maximize) sender.population m
  · rw [List.length_take, sortedPop, List.length_insertionSort]
    omega
  · exact rel_take_drop_insertionSort (NoWorse maximize) sender.population m

theorem exists_mem_zipIdx {α : Type} {l : List α} {a : α} (h : a ∈ l) :
    ∃ entry ∈ l.zipIdx, entry.1 = a := by
  obtain ⟨i, hi, rfl⟩ := List.mem_iff_getElem.mp h
  exact ⟨(l[i], i), List.mem_zipIdx_iff_getElem?.mpr (List.getElem?_eq_getElem hi), rfl⟩

theorem keepsBest_iff_of_all {sender : Island K n}
    (hm : m = sender.population.length) :
    KeepsBest maximize island.population
        (arrivals maximize next island (getEmigrants maximize sender m)) ↔
      ∀ old ∈ island.population, ∃ p ∈ sender.population,
        NoWorse maximize
          ⟨p.ref, p.genes, lookupFitness maximize p.genes island.fitnessMap 0⟩ old := by
  have hall : getEmigrants maximize sender m =
      (sortedPop maximize sender.population).map (·.genes) := by
    rw [getEmigrants, List.take_of_length_le]
    rw [sortedPop, List.length_insertionSort]
    omega
  refine forall₂_congr fun old _ => ?_
  rw [hall]
  constructor
  · intro ⟨new, hnew, hold⟩
    obtain ⟨entry, hentry, rfl⟩ := List.mem_map.mp hnew
    obtain ⟨p, hp, hgenes⟩ := List.mem_map.mp (List.fst_mem_of_mem_zipIdx hentry)
    refine ⟨p, (List.mem_insertionSort _).mp hp, ?_⟩
    rw [hgenes]
    exact hold
  · intro ⟨p, hp, hold⟩
    have hgenes : p.genes ∈ (sortedPop maximize sender.population).map (·.genes) :=
      List.mem_map_of_mem ((List.mem_insertionSort _).mpr hp)
    obtain ⟨entry, hentry, heq⟩ := exists_mem_zipIdx hgenes
    refine ⟨migrant maximize next island entry, List.mem_map_of_mem hentry, ?_⟩
    rw [← heq] at hold
    exact hold

/-- What one arrival does to an island. -/
theorem elitistAt_iff {popsize : Nat} (hpop : island.Populated popsize next)
    {sender : Island K n} (hm : 1 ≤ m) (hle : m ≤ island.population.length)
    (hsender : sender.population.length = island.population.length) :
    ElitistAt maximize m island.population sender.population
        (injectIndividuals maximize next island (getEmigrants maximize sender m)).population ↔
      Harmless maximize m island sender.population := by
  have hlen : (getEmigrants maximize sender m).length = m :=
    length_getEmigrants (hsender.symm ▸ hle)
  have hsorted : (sortedPop maximize island.population).length = island.population.length :=
    List.length_insertionSort _ _
  have hsize : (arrivals maximize next island (getEmigrants maximize sender m) ++
      (sortedPop maximize island.population).drop m).length = island.population.length := by
    rw [List.length_append, length_arrivals, List.length_drop]
    omega
  rw [population_receive hm hle hsender]
  unfold Harmless ElitistAt
  by_cases hlt : m < island.population.length
  · rw [if_pos hlt]
    constructor
    · intro ⟨_, hreplaces, _⟩
      exact fitness_eq_of_replaces hpop hm hlt hreplaces
    · intro hsame
      have hmem : ∀ d ∈ (sortedPop maximize island.population).drop m,
          d ∈ island.population := fun d hd =>
        (List.mem_insertionSort _).mp (List.mem_of_mem_drop hd)
      refine ⟨hsize, replaces_of_front hle hsender fun k hk w hw => ?_, fun old hold => ?_⟩
      · exact noWorse_of_eq (hsame k (hmem k hk) w
          ((List.mem_insertionSort _).mp (List.mem_of_mem_take hw)))
      · obtain ⟨d, hd⟩ : ∃ d, d ∈ (sortedPop maximize island.population).drop m := by
          apply List.exists_mem_of_length_pos
          rw [List.length_drop]
          omega
        exact ⟨d, List.mem_append_right _ hd, noWorse_of_eq (hsame d (hmem d hd) old hold)⟩
  · have hdrop : (sortedPop maximize island.population).drop m = [] :=
      List.drop_eq_nil_of_le (by omega)
    have hbest : KeepsBest maximize island.population
        (arrivals maximize next island (getEmigrants maximize sender m)) ↔ _ :=
      keepsBest_iff_of_all (by omega)
    have hreplaces : Replaces maximize m island.population sender.population
        (arrivals maximize next island (getEmigrants maximize sender m) ++
          (sortedPop maximize island.population).drop m) :=
      replaces_of_front hle hsender fun k hk => absurd (hdrop ▸ hk) List.not_mem_nil
    rw [hdrop, List.append_nil] at hreplaces hsize ⊢
    rw [if_neg hlt, ← hbest]
    constructor
    · intro ⟨_, _, h⟩
      exact h
    · intro h
      exact ⟨hsize, hreplaces, h⟩

end

end

section

variable {K : Type} [Field K] [LinearOrder K] [FloorRing K]

/-- `max(1, int(round(migrationRate * popsize)))`. -/
def nEmigrants (migrationRate : K) (popsize : Nat) : Nat :=
  (max 1 (pyRound (migrationRate * popsize))).toNat

variable [IsStrictOrderedRing K] {n : Nat}

/-- `IslandModelGAAlgorithm` once its islands are initialised. -/
structure IslandModelGA (K : Type) [Field K] [LinearOrder K] [IsStrictOrderedRing K]
    [FloorRing K] (n : Nat) where
  islands : List (Island K n)
  maximize : Bool
  migrationRate : K
  popsize : Nat
  next : Nat
  numIslands_pos : 1 ≤ islands.length
  rate_pos : 0 < migrationRate
  rate_le_one : migrationRate ≤ 1
  two_le_popsize : 2 ≤ popsize
  populated : ∀ island ∈ islands, island.Populated popsize next

def IslandModelGA.nEmigrate (ga : IslandModelGA K n) : Nat :=
  nEmigrants ga.migrationRate ga.popsize

/-! ## How many leave -/

/-- Rounding does not pass a whole number. -/
theorem pyRound_le {x : K} {k : Int} (h : x ≤ k) : pyRound x ≤ k := by
  have hfloor : ⌊x⌋ ≤ k := Int.cast_le.mp ((Int.floor_le x).trans h)
  unfold pyRound
  dsimp only
  by_cases heq : ⌊x⌋ = k
  · have hrest : x - (⌊x⌋ : K) < 1 / 2 := by
      rw [heq]
      exact lt_of_le_of_lt (sub_nonpos.mpr h) one_half_pos
    rw [if_pos hrest]
    exact hfloor
  · split_ifs <;> omega

theorem nEmigrants_le {migrationRate : K} (h1 : migrationRate ≤ 1) {popsize : Nat}
    (hpop : 1 ≤ popsize) : nEmigrants migrationRate popsize ≤ popsize := by
  have hle : migrationRate * popsize ≤ ((popsize : Int) : K) := by
    rw [Int.cast_natCast]
    exact mul_le_of_le_one_left (Nat.cast_nonneg popsize) h1
  have hround := pyRound_le hle
  unfold nEmigrants
  omega

omit [IsStrictOrderedRing K] in
theorem one_le_nEmigrants (migrationRate : K) (popsize : Nat) :
    1 ≤ nEmigrants migrationRate popsize := by
  unfold nEmigrants
  omega

/-! ## The ring -/

theorem senderIdx_lt {numIslands i : Nat} (h : 1 ≤ numIslands) :
    senderIdx numIslands i < numIslands := by
  have hlt := Int.emod_lt_of_pos ((i : Int) - 1) (by omega : (0 : Int) < numIslands)
  have hnonneg := Int.emod_nonneg ((i : Int) - 1) (by omega : (numIslands : Int) ≠ 0)
  unfold senderIdx
  omega

omit [FloorRing K] [IsStrictOrderedRing K] in
/-- Each island of the ring is injected by itself, with new objects. -/
theorem injectAll_getElem? (maximize : Bool) (numIslands : Nat)
    (emigrants : List (List (Point K n))) (islands : List (Island K n)) (next i j : Nat) :
    ∃ start, next ≤ start ∧
      (injectAll maximize numIslands emigrants next i islands).1[j]? =
        islands[j]?.map fun island => injectIndividuals maximize start island
          (emigrants.getD (senderIdx numIslands (i + j)) []) := by
  induction islands generalizing next i j with
  | nil => exact ⟨next, le_refl _, rfl⟩
  | cons island islands ih =>
    cases j with
    | zero => exact ⟨next, le_refl _, rfl⟩
    | succ j =>
      obtain ⟨start, hstart, heq⟩ := ih
        (next + (emigrants.getD (senderIdx numIslands i) []).length) (i + 1) j
      rw [Nat.add_right_comm] at heq
      exact ⟨start, by omega, heq⟩

omit [FloorRing K] [IsStrictOrderedRing K] in
theorem le_injectAll_next (maximize : Bool) (numIslands : Nat)
    (emigrants : List (List (Point K n))) (islands : List (Island K n)) (next i : Nat) :
    next ≤ (injectAll maximize numIslands emigrants next i islands).2 := by
  induction islands generalizing next i with
  | nil => exact le_refl next
  | cons island islands ih =>
    have := ih (next + (emigrants.getD (senderIdx numIslands i) []).length) (i + 1)
    show next ≤ (injectAll maximize numIslands emigrants _ (i + 1) islands).2
    omega

omit [Field K] [LinearOrder K] [FloorRing K] [IsStrictOrderedRing K] in
theorem Island.Populated.mono {island : Island K n} {popsize next later : Nat}
    (h : island.Populated popsize next) (hle : next ≤ later) :
    island.Populated popsize later :=
  ⟨h.length_eq, h.nodup, fun ind hind => Nat.lt_of_lt_of_le (h.ref_lt ind hind) hle⟩

omit [FloorRing K] [IsStrictOrderedRing K] in
/-- An injection keeps an island populated. -/
theorem populated_inject {maximize : Bool} {island : Island K n} {popsize next : Nat}
    (h : island.Populated popsize next) {individuals : List (Point K n)}
    (hlen : individuals.length ≤ popsize) :
    (injectIndividuals maximize next island individuals).Populated popsize
      (next + individuals.length) := by
  by_cases hne : individuals = []
  · have hsame : injectIndividuals maximize next island individuals = island := by
      rw [hne]
      rfl
    rw [hsame]
    exact h.mono (Nat.le_add_right _ _)
  have hpopulation : (injectIndividuals maximize next island individuals).population = _ :=
    population_inject (h.length_eq.symm ▸ hlen) hne
  have hold : ∀ ind ∈ (sortedPop maximize island.population).drop individuals.length,
      ind.ref < next := fun ind hind =>
    h.ref_lt ind ((List.mem_insertionSort _).mp (List.mem_of_mem_drop hind))
  have hdrop : (((sortedPop maximize island.population).drop individuals.length).map
      (·.ref)).Nodup := by
    refine List.Nodup.sublist ((List.drop_sublist _ _).map _) ?_
    exact ((List.perm_insertionSort _ _).map _).nodup_iff.mpr h.nodup
  refine ⟨?_, ?_, ?_⟩
  · rw [hpopulation, List.length_append, length_arrivals, List.length_drop, sortedPop,
      List.length_insertionSort, h.length_eq]
    omega
  · rw [hpopulation, List.map_append, List.nodup_append]
    refine ⟨nodup_arrivals individuals, hdrop, ?_⟩
    intro a ha b hb hab
    obtain ⟨x, hx, rfl⟩ := List.mem_map.mp ha
    obtain ⟨y, hy, rfl⟩ := List.mem_map.mp hb
    have hnew := (le_ref_of_mem_arrivals hx).1
    have hlt := hold y hy
    omega
  · intro ind hind
    rw [hpopulation] at hind
    rcases List.mem_append.mp hind with hind | hind
    · exact (le_ref_of_mem_arrivals hind).2
    · exact Nat.lt_add_right _ (hold ind hind)

omit [FloorRing K] [IsStrictOrderedRing K] in
theorem populated_injectAll {maximize : Bool} {numIslands popsize : Nat}
    {emigrants : List (List (Point K n))}
    (hlen : ∀ i, (emigrants.getD i []).length ≤ popsize) (islands : List (Island K n))
    (next i : Nat) (h : ∀ island ∈ islands, island.Populated popsize next) :
    ∀ island ∈ (injectAll maximize numIslands emigrants next i islands).1,
      island.Populated popsize (injectAll maximize numIslands emigrants next i islands).2 := by
  induction islands generalizing next i with
  | nil => exact fun _ hmem => nomatch hmem
  | cons island islands ih =>
    have hle := Nat.le_add_right next (emigrants.getD (senderIdx numIslands i) []).length
    intro after hafter
    rcases List.mem_cons.mp hafter with rfl | hafter
    · exact (populated_inject (h island List.mem_cons_self) (hlen _)).mono
        (le_injectAll_next _ _ _ _ _ _)
    · exact ih _ (i + 1) (fun other hother =>
        (h other (List.mem_cons_of_mem island hother)).mono hle) after hafter

omit [FloorRing K] [IsStrictOrderedRing K] in
theorem length_injectAll (maximize : Bool) (numIslands : Nat)
    (emigrants : List (List (Point K n))) (islands : List (Island K n)) (next i : Nat) :
    (injectAll maximize numIslands emigrants next i islands).1.length = islands.length := by
  induction islands generalizing next i with
  | nil => rfl
  | cons island islands ih => exact congrArg (· + 1) (ih _ _)

/-! ## A migration -/

/-- The emigrants of the islands, collected before any arrives. -/
def IslandModelGA.emigrants (ga : IslandModelGA K n) : List (List (Point K n)) :=
  ga.islands.map fun island => getEmigrants ga.maximize island ga.nEmigrate

theorem getD_emigrants {ga : IslandModelGA K n} {i : Nat} {sender : Island K n}
    (h : ga.islands[i]? = some sender) :
    ga.emigrants.getD i [] = getEmigrants ga.maximize sender ga.nEmigrate := by
  rw [IslandModelGA.emigrants, List.getD_eq_getElem?_getD, List.getElem?_map, h]
  rfl

theorem IslandModelGA.nEmigrate_le (ga : IslandModelGA K n) : ga.nEmigrate ≤ ga.popsize :=
  nEmigrants_le ga.rate_le_one (Nat.le_of_succ_le ga.two_le_popsize)

theorem length_getD_emigrants (ga : IslandModelGA K n) (i : Nat) :
    (ga.emigrants.getD i []).length ≤ ga.popsize := by
  cases h : ga.islands[i]? with
  | none =>
    rw [IslandModelGA.emigrants, List.getD_eq_getElem?_getD, List.getElem?_map, h]
    exact Nat.zero_le _
  | some sender =>
    rw [getD_emigrants h, getEmigrants, List.length_map, List.length_take]
    have := ga.nEmigrate_le
    omega

/-- `_run_migration`. -/
def IslandModelGA.runMigration (ga : IslandModelGA K n) : IslandModelGA K n :=
  let migrated := injectAll ga.maximize ga.islands.length ga.emigrants ga.next 0 ga.islands
  { ga with
    islands := migrated.1
    next := migrated.2
    numIslands_pos := by
      rw [length_injectAll]
      exact ga.numIslands_pos
    populated := populated_injectAll (length_getD_emigrants ga) ga.islands ga.next 0
      ga.populated }

/-- Every island keeps all but its worst, and gets the best of the one before it. -/
def IslandModelGA.Elitist (ga : IslandModelGA K n) : Prop :=
  ga.runMigration.islands.length = ga.islands.length ∧
    ∀ i island, ga.islands[i]? = some island → ∃ sender after,
      ga.islands[senderIdx ga.islands.length i]? = some sender ∧
      ga.runMigration.islands[i]? = some after ∧
      ElitistAt ga.maximize ga.nEmigrate island.population sender.population
        after.population

/-- For every number of islands, population size, rate, direction and fitness. -/
theorem elitist_iff (ga : IslandModelGA K n) :
    ga.Elitist ↔ ∀ i island sender, ga.islands[i]? = some island →
      ga.islands[senderIdx ga.islands.length i]? = some sender →
      Harmless ga.maximize ga.nEmigrate island sender.population := by
  have hone : 1 ≤ ga.nEmigrate := one_le_nEmigrants _ _
  -- the island after the migration is the one its sender's best were injected into
  have hafter (i : Nat) (island sender : Island K n) (hi : ga.islands[i]? = some island)
      (hs : ga.islands[senderIdx ga.islands.length i]? = some sender) :
      ∃ after, ga.runMigration.islands[i]? = some after ∧
        (ElitistAt ga.maximize ga.nEmigrate island.population sender.population
          after.population ↔ Harmless ga.maximize ga.nEmigrate island sender.population) := by
    obtain ⟨start, hstart, heq⟩ := injectAll_getElem? ga.maximize ga.islands.length
      ga.emigrants ga.islands ga.next 0 i
    rw [hi, Nat.zero_add, getD_emigrants hs] at heq
    have hisland := ga.populated island (List.mem_of_getElem? hi)
    have hsender := ga.populated sender (List.mem_of_getElem? hs)
    exact ⟨_, heq, elitistAt_iff (hisland.mono hstart) hone
      (hisland.length_eq.symm ▸ ga.nEmigrate_le)
      (hsender.length_eq.trans hisland.length_eq.symm)⟩
  constructor
  · intro ⟨_, h⟩ i island sender hi hs
    obtain ⟨after, ha, hiff⟩ := hafter i island sender hi hs
    obtain ⟨sender', after', hs', ha', helitist⟩ := h i island hi
    obtain rfl := Option.some.inj (hs.symm.trans hs')
    obtain rfl := Option.some.inj (ha.symm.trans ha')
    exact hiff.mp helitist
  · intro h
    refine ⟨length_injectAll _ _ _ _ _ _, fun i island hi => ?_⟩
    have hsender := List.getElem?_eq_getElem (senderIdx_lt (i := i) ga.numIslands_pos)
    obtain ⟨after, ha, hiff⟩ := hafter i island _ hi hsender
    exact ⟨_, after, hsender, ha, hiff.mpr (h i island _ hi hsender)⟩

end

/-- The points 0 to 3, each as good as it is small. -/
def smallest : Dict (Point ℚ 1) (Extended ℚ) :=
  Surrogates.buildFitnessMap false
    [⟨![0], .finite 0, 0⟩, ⟨![1], .finite 1, 0⟩, ⟨![2], .finite 2, 0⟩, ⟨![3], .finite 3, 0⟩]

/-- The best individual of all is on the first of two islands; one emigrates from each. -/
def ranked : IslandModelGA ℚ 1 where
  islands :=
    [⟨[⟨0, ![0], .finite 0⟩, ⟨1, ![3], .finite 3⟩], smallest⟩,
      ⟨[⟨2, ![1], .finite 1⟩, ⟨3, ![2], .finite 2⟩], smallest⟩]
  maximize := false
  migrationRate := 1 / 2
  popsize := 2
  next := 4
  numIslands_pos := by decide
  rate_pos := by decide +kernel
  rate_le_one := by decide +kernel
  two_le_popsize := by decide
  populated := by
    intro island hisland
    rcases List.mem_cons.mp hisland with rfl | hisland
    · exact ⟨rfl, by decide, by decide⟩
    · rw [List.mem_singleton.mp hisland]
      exact ⟨rfl, by decide, by decide⟩

/-- The first island loses it. -/
theorem ranked_loses_best : ¬ ranked.Elitist := by
  intro ⟨_, h⟩
  obtain ⟨_, after, _, hafter, _, _, hbest⟩ := h 0 _ rfl
  have hfitness : (ranked.runMigration.islands[0]?.map fun island =>
      island.population.map (·.fitness)) = some [.finite 1, .finite 3] := by
    decide +kernel
  rw [hafter] at hfitness
  have hpopulation := Option.some.inj hfitness
  obtain ⟨new, hnew, hworse⟩ := hbest ⟨0, ![0], .finite 0⟩ List.mem_cons_self
  have hmem : new.fitness ∈ [(Extended.finite 1 : Extended ℚ), .finite 3] :=
    hpopulation ▸ List.mem_map_of_mem hnew
  have hle : new.fitness ≤ Extended.finite 0 := hworse
  rcases List.mem_cons.mp hmem with heq | hmem
  · rw [heq] at hle
    exact absurd hle (by decide +kernel)
  · rw [List.mem_singleton.mp hmem] at hle
    exact absurd hle (by decide +kernel)

/-- All individuals of each island are equally fit. -/
def level : IslandModelGA ℚ 1 where
  islands :=
    [⟨[⟨0, ![0], .finite 0⟩, ⟨1, ![0], .finite 0⟩], smallest⟩,
      ⟨[⟨2, ![1], .finite 1⟩, ⟨3, ![1], .finite 1⟩], smallest⟩]
  maximize := false
  migrationRate := 1 / 2
  popsize := 2
  next := 4
  numIslands_pos := by decide
  rate_pos := by decide +kernel
  rate_le_one := by decide +kernel
  two_le_popsize := by decide
  populated := by
    intro island hisland
    rcases List.mem_cons.mp hisland with rfl | hisland
    · exact ⟨rfl, by decide, by decide⟩
    · rw [List.mem_singleton.mp hisland]
      exact ⟨rfl, by decide, by decide⟩

theorem level_elitist : level.Elitist := by
  refine (elitist_iff level).mpr fun i island sender hi _ => ?_
  have hemigrate : level.nEmigrate = 1 := by decide +kernel
  have hmem : island ∈ level.islands := List.mem_of_getElem? hi
  have hlength := (level.populated island hmem).length_eq
  unfold Harmless
  rw [hemigrate, hlength, if_pos (by decide)]
  rcases List.mem_cons.mp hmem with rfl | hmem
  · decide
  · rw [List.mem_singleton.mp hmem]
    decide

end OSimFlow.Algorithms.Islands
