import Mathlib
import OSimFlow.Campaign.FanoutStep

/-!
# The sample quota over a whole campaign

`enforce_start_quota` admits a campaign with `n_samples ≤ max_samples`; from
then on the guard counts rows with a status. `APPLY_PARAMETERS` leaves one on
every sample it is handed, so with exactly `max_samples` samples the next
step's first check already stops it (`admitted_never_simulates`). And since the
ids repeat from one generation to the next, the rows do not count the
simulations of more than one generation.

`quota_admits_iff` is the exact condition on the samples and their outcomes:
every boundary of the apply steps is met, there is room left after them
(`Fits`), and the simulations asked for do not exceed the limit.
-/

namespace OSimFlow.Campaign

/-- One generation: the samples it is handed, what the cache has of the later
steps, and the steps' surroundings. -/
structure Generation where
  samples : List Item
  simCached : String → Bool
  extractCached : String → Bool
  env : Step → StepEnv

/-- What a submission loop was to submit, and did. -/
structure Report where
  generation : Nat
  step : Step
  pending : List String
  submitted : List String
  stopped : Bool
deriving DecidableEq

def StepRun.report (n : Nat) (step : Step) (items : List Item) (r : StepRun) : Report :=
  ⟨n, step, pendingOf items, r.submitted, r.stopped⟩

/-- The samples that came out of one step, as the next one's. -/
def lookedUp (cached : String → Bool) (sids : List String) : List Item :=
  sids.map fun sid => ⟨sid, cached sid⟩

section Steps

variable (quota : Option ResourceQuota) (state : SampleState) (gen : Generation)

def applyRun : StepRun :=
  runStep quota .applyParameters (gen.env .applyParameters) state gen.samples

def simItems : List Item := lookedUp gen.simCached (applyRun quota state gen).out

def simRun : StepRun :=
  runStep quota .runOpenstudioSim (gen.env .runOpenstudioSim)
    (applyRun quota state gen).state (simItems quota state gen)

def extractItems : List Item := lookedUp gen.extractCached (simRun quota state gen).out

def extractRun : StepRun :=
  runStep quota .extractKpis (gen.env .extractKpis) (simRun quota state gen).state
    (extractItems quota state gen)

/-- The three fan-out steps of `_run_one_generation`. -/
def runGeneration (n : Nat) : List Report :=
  [(applyRun quota state gen).report n .applyParameters gen.samples,
    (simRun quota state gen).report n .runOpenstudioSim (simItems quota state gen),
    (extractRun quota state gen).report n .extractKpis (extractItems quota state gen)]

end Steps

/-- The generations from the `n`-th on, over the one `_sample_state`. -/
def runGenerations (quota : Option ResourceQuota) :
    Nat → SampleState → List Generation → List Report
  | _, _, [] => []
  | n, state, gen :: gens =>
    runGeneration quota state gen n ++
      runGenerations quota (n + 1) (extractRun quota state gen).state gens

/-- A campaign: the start check, then the generations. -/
def runCampaign (quota : Option ResourceQuota) (nSamples : Nat)
    (gens : List Generation) : Except PyError (List Report) :=
  (enforceStartQuota quota nSamples).map fun _ => runGenerations quota 0 ∅ gens

/-- No submission loop was stopped, and each submitted all it had. -/
def EverySubmitted (reports : List Report) : Prop :=
  ∀ report ∈ reports, report.stopped = false ∧ report.submitted = report.pending

instance (reports : List Report) : Decidable (EverySubmitted reports) :=
  inferInstanceAs (Decidable (∀ report ∈ reports,
    report.stopped = false ∧ report.submitted = report.pending))

/-- The simulations submitted, by generation and sample. -/
def simulations (reports : List Report) : Finset (Nat × String) :=
  (reports.flatMap fun report =>
    if report.step = .runOpenstudioSim then
      report.submitted.map fun sid => (report.generation, sid)
    else []).toFinset

/-! ## The condition -/

instance (env : StepEnv) (items : List Item) : DecidablePred (Passes env items) :=
  fun sid => inferInstanceAs (Decidable (if sid ∈ pendingOf items then
    (env.awaited sid).isSuccess = true else sid ∈ cachedIds items))

namespace Generation

variable (gen : Generation)

def ids : Finset String := (gen.samples.map Item.sid).toFinset

/-- The samples that `APPLY_PARAMETERS` does not lose. -/
def applied : Finset String :=
  gen.ids.filter (Passes (gen.env .applyParameters) gen.samples)

def toSimulate : Finset String := gen.applied.filter fun sid => gen.simCached sid = false

def simulated : Finset String :=
  gen.applied.filter fun sid =>
    gen.simCached sid = true ∨ ((gen.env .runOpenstudioSim).awaited sid).isSuccess = true

def toExtract : Finset String :=
  gen.simulated.filter fun sid => gen.extractCached sid = false

end Generation

/-- Every boundary of every generation is met, if `seen` are the samples of the
generations before. -/
def Fits (limit : Nat) : Finset String → List Generation → Prop
  | _, [] => True
  | seen, gen :: gens =>
    Boundaries limit (fun sid => ((gen.env .applyParameters).awaited sid).settles)
        (seen ∪ cachedIds gen.samples) (chunksFor (gen.env .applyParameters) gen.samples) ∧
      (gen.toSimulate ∪ gen.toExtract ≠ ∅ → (seen ∪ gen.ids).card < limit) ∧
      Fits limit (seen ∪ gen.ids) gens

instance decidableFits (limit : Nat) :
    (seen : Finset String) → (gens : List Generation) → Decidable (Fits limit seen gens)
  | _, [] => inferInstanceAs (Decidable True)
  | seen, gen :: gens =>
    have := decidableFits limit (seen ∪ gen.ids) gens
    inferInstanceAs (Decidable (_ ∧ _ ∧ _))

/-! ## One generation -/

theorem everySubmitted_append (xs ys : List Report) :
    EverySubmitted (xs ++ ys) ↔ EverySubmitted xs ∧ EverySubmitted ys :=
  List.forall_mem_append

section RunGeneration

variable {quota : ResourceQuota} {limit : Nat}

/-- What a step is handed of the samples `T` is pending where it is not cached. -/
theorem pendingOf_lookedUp (cached : String → Bool) {sids : List String}
    {T : Finset String} (hT : ∀ sid, sid ∈ sids ↔ sid ∈ T) (sid : String) :
    sid ∈ pendingOf (lookedUp cached sids) ↔ sid ∈ T ∧ cached sid = false := by
  rw [mem_pendingOf]
  constructor
  · rintro ⟨item, hi, hc, rfl⟩
    obtain ⟨s, hs, rfl⟩ := List.mem_map.mp hi
    exact ⟨(hT s).mp hs, hc⟩
  · intro h
    exact ⟨⟨sid, cached sid⟩, List.mem_map.mpr ⟨sid, (hT sid).mpr h.1, rfl⟩, h.2, rfl⟩

theorem passes_lookedUp {env : StepEnv} {cached : String → Bool} {sids : List String}
    {T : Finset String} (hT : ∀ sid, sid ∈ sids ↔ sid ∈ T) (sid : String) :
    Passes env (lookedUp cached sids) sid ↔
      sid ∈ T ∧ (cached sid = true ∨ (env.awaited sid).isSuccess = true) := by
  have hp := pendingOf_lookedUp cached hT sid
  have hc : sid ∈ cachedIds (lookedUp cached sids) ↔ sid ∈ T ∧ cached sid = true := by
    rw [mem_cachedIds]
    constructor
    · rintro ⟨item, hi, hc, rfl⟩
      obtain ⟨s, hs, rfl⟩ := List.mem_map.mp hi
      exact ⟨(hT s).mp hs, hc⟩
    · intro h
      exact ⟨⟨sid, cached sid⟩, List.mem_map.mpr ⟨sid, (hT sid).mpr h.1, rfl⟩, h.2, rfl⟩
  unfold Passes
  by_cases hm : sid ∈ pendingOf (lookedUp cached sids)
  · rw [if_pos hm]
    have := hp.mp hm
    simp [this.1, this.2]
  · rw [if_neg hm, hc]
    rw [hp] at hm
    constructor
    · intro h
      exact ⟨h.1, Or.inl h.2⟩
    · intro h
      have htrue : cached sid = true := by
        rw [← Bool.not_eq_false]
        intro hf
        exact hm ⟨h.1, hf⟩
      exact ⟨h.1, htrue⟩

theorem Passes.mem {env : StepEnv} {items : List Item} {sid : String}
    (h : Passes env items sid) : sid ∈ (items.map Item.sid).toFinset := by
  rw [← cachedIds_union_pendingOf, Finset.mem_union, List.mem_toFinset]
  unfold Passes at h
  by_cases hp : sid ∈ pendingOf items
  · exact Or.inr hp
  · rw [if_neg hp] at h
    exact Or.inl h

/-- A step after `APPLY_PARAMETERS`: one comparison decides it, and it adds no
row. -/
theorem laterStep {env : StepEnv} (hm : quota.maxSamples = some limit)
    (haff : ∀ n, quota.Affords (env.spent n)) {state : SampleState}
    {S T : Finset String} (h : Marks state S) (hTS : T ⊆ S) {sids : List String}
    (hT : ∀ sid, sid ∈ sids ↔ sid ∈ T) (step : Step) (cached : String → Bool) :
    ((runStep (some quota) step env state (lookedUp cached sids)).stopped = false ↔
        (T.filter (fun sid => cached sid = false) ≠ ∅ → S.card < limit)) ∧
      Marks (runStep (some quota) step env state (lookedUp cached sids)).state S ∧
      ((runStep (some quota) step env state (lookedUp cached sids)).stopped = false →
        ∀ sid, sid ∈ (runStep (some quota) step env state (lookedUp cached sids)).out ↔
          sid ∈ T.filter fun sid =>
            cached sid = true ∨ (env.awaited sid).isSuccess = true) := by
  have hitems : ∀ item ∈ lookedUp cached sids, item.sid ∈ S := by
    intro item hi
    obtain ⟨s, hs, rfl⟩ := List.mem_map.mp hi
    exact hTS ((hT s).mp hs)
  have hnil : pendingOf (lookedUp cached sids) ≠ [] ↔
      T.filter (fun sid => cached sid = false) ≠ ∅ := by
    rw [not_iff_not, List.eq_nil_iff_forall_not_mem, Finset.eq_empty_iff_forall_notMem]
    simp only [pendingOf_lookedUp cached hT, Finset.mem_filter]
  refine ⟨?_, ?_, fun hs sid => ?_⟩
  · rw [runStep_stopped_iff_of_mem hm haff h hitems, hnil]
  · have hmarks := runStep_marks (some quota) env h
      fun item hi => Or.inr (a := step = .applyParameters) (hitems item hi)
    have hsub : ((lookedUp cached sids).map Item.sid).toFinset ⊆ S := by
      intro sid hs
      obtain ⟨item, hi, rfl⟩ := List.mem_map.mp (List.mem_toFinset.mp hs)
      exact hitems item hi
    rw [Finset.union_eq_left.mpr hsub] at hmarks
    exact hmarks
  · rw [(runStep_out hs).2 sid, passes_lookedUp hT, Finset.mem_filter]

theorem everySubmitted_runGeneration {gen : Generation} {state : SampleState} {n : Nat} :
    EverySubmitted (runGeneration (some quota) state gen n) ↔
      (applyRun (some quota) state gen).stopped = false ∧
        (simRun (some quota) state gen).stopped = false ∧
        (extractRun (some quota) state gen).stopped = false := by
  constructor
  · intro h
    unfold EverySubmitted runGeneration at h
    simp only [List.forall_mem_cons] at h
    exact ⟨h.1.1, h.2.1.1, h.2.2.1.1⟩
  · rintro ⟨ha, hs, he⟩ report hr
    simp only [runGeneration, List.mem_cons, List.not_mem_nil, or_false] at hr
    rcases hr with rfl | rfl | rfl
    · exact ⟨ha, runStep_submitted ha⟩
    · exact ⟨hs, runStep_submitted hs⟩
    · exact ⟨he, runStep_submitted he⟩

variable {gen : Generation} {state : SampleState} {seen : Finset String}

theorem applyRun_stopped_iff (hm : quota.maxSamples = some limit)
    (haff : ∀ step n, quota.Affords ((gen.env step).spent n)) (h : Marks state seen) :
    (applyRun (some quota) state gen).stopped = false ↔
      Boundaries limit (fun sid => ((gen.env .applyParameters).awaited sid).settles)
        (seen ∪ cachedIds gen.samples)
        (chunksFor (gen.env .applyParameters) gen.samples) :=
  runStep_stopped_iff hm (haff .applyParameters) h fun _ _ => Or.inl rfl

theorem applyRun_marks (quota : Option ResourceQuota) (h : Marks state seen) :
    Marks (applyRun quota state gen).state (seen ∪ gen.ids) :=
  runStep_marks _ _ h fun _ _ => Or.inl rfl

theorem mem_applyRun_out {quota : Option ResourceQuota}
    (h : (applyRun quota state gen).stopped = false) (sid : String) :
    sid ∈ (applyRun quota state gen).out ↔ sid ∈ gen.applied := by
  have hout := (runStep_out h).2 sid
  rw [Generation.applied, Finset.mem_filter]
  constructor
  · intro hs
    have hp := hout.mp hs
    exact ⟨hp.mem, hp⟩
  · intro hs
    exact hout.mpr hs.2

theorem applied_subset (seen : Finset String) (gen : Generation) :
    gen.applied ⊆ seen ∪ gen.ids :=
  (Finset.filter_subset _ _).trans Finset.subset_union_right

theorem simulated_subset (seen : Finset String) (gen : Generation) :
    gen.simulated ⊆ seen ∪ gen.ids :=
  (Finset.filter_subset _ _).trans (applied_subset seen gen)

/-- What one generation needs. -/
theorem everySubmitted_iff (hm : quota.maxSamples = some limit)
    (haff : ∀ step n, quota.Affords ((gen.env step).spent n)) (h : Marks state seen)
    (n : Nat) :
    EverySubmitted (runGeneration (some quota) state gen n) ↔
      Boundaries limit (fun sid => ((gen.env .applyParameters).awaited sid).settles)
          (seen ∪ cachedIds gen.samples)
          (chunksFor (gen.env .applyParameters) gen.samples) ∧
        (gen.toSimulate ∪ gen.toExtract ≠ ∅ → (seen ∪ gen.ids).card < limit) := by
  rw [everySubmitted_runGeneration, applyRun_stopped_iff hm haff h]
  refine and_congr_right fun hb => ?_
  have ha := (applyRun_stopped_iff hm haff h).mpr hb
  have hsim := laterStep hm (haff .runOpenstudioSim) (applyRun_marks (some quota) h)
    (applied_subset seen gen) (mem_applyRun_out ha) .runOpenstudioSim gen.simCached
  have hext := fun hs => laterStep hm (haff .extractKpis) hsim.2.1 (simulated_subset seen gen)
    (hsim.2.2 hs) .extractKpis gen.extractCached
  have hunion : gen.toSimulate ∪ gen.toExtract ≠ ∅ ↔
      gen.toSimulate ≠ ∅ ∨ gen.toExtract ≠ ∅ := by
    rw [ne_eq, Finset.union_eq_empty, not_and_or]
  rw [hunion, or_imp]
  constructor
  · rintro ⟨hs, he⟩
    exact ⟨hsim.1.mp hs, (hext hs).1.mp he⟩
  · rintro ⟨hs, he⟩
    have hs' := hsim.1.mpr hs
    exact ⟨hs', (hext hs').1.mpr he⟩

/-- What one generation leaves, all submitted. -/
theorem extractRun_marks (hm : quota.maxSamples = some limit)
    (haff : ∀ step n, quota.Affords ((gen.env step).spent n)) (h : Marks state seen)
    {n : Nat} (hall : EverySubmitted (runGeneration (some quota) state gen n)) :
    Marks (extractRun (some quota) state gen).state (seen ∪ gen.ids) := by
  obtain ⟨ha, hs, -⟩ := everySubmitted_runGeneration.mp hall
  have hsim := laterStep hm (haff .runOpenstudioSim) (applyRun_marks (some quota) h)
    (applied_subset seen gen) (mem_applyRun_out ha) .runOpenstudioSim gen.simCached
  exact (laterStep hm (haff .extractKpis) hsim.2.1 (simulated_subset seen gen)
    (hsim.2.2 hs) .extractKpis gen.extractCached).2.1

/-- What one generation simulates, all submitted. -/
theorem simulations_runGeneration {n : Nat}
    (hall : EverySubmitted (runGeneration (some quota) state gen n)) :
    simulations (runGeneration (some quota) state gen n) =
      gen.toSimulate.image fun sid => (n, sid) := by
  obtain ⟨ha, hs, -⟩ := everySubmitted_runGeneration.mp hall
  have hsub : (simRun (some quota) state gen).submitted =
      pendingOf (simItems (some quota) state gen) := runStep_submitted hs
  ext ⟨k, sid⟩
  simp only [simulations, runGeneration, StepRun.report, List.flatMap_cons, List.flatMap_nil,
    reduceCtorEq, if_false, if_true, List.nil_append, List.append_nil, List.mem_toFinset,
    Finset.mem_image, List.mem_map, hsub, simItems,
    pendingOf_lookedUp gen.simCached (mem_applyRun_out ha), Generation.toSimulate, Finset.mem_filter]

end RunGeneration

/-! ## The campaign -/

section Campaign

variable {quota : ResourceQuota} {limit : Nat}

theorem simulations_append (xs ys : List Report) :
    simulations (xs ++ ys) = simulations xs ∪ simulations ys := by
  rw [simulations, List.flatMap_append, List.toFinset_append]
  rfl

/-- The boundaries of a campaign, generation after generation. -/
theorem everySubmitted_runGenerations (hm : quota.maxSamples = some limit)
    {gens : List Generation}
    (haff : ∀ gen ∈ gens, ∀ step n, quota.Affords ((gen.env step).spent n))
    {state : SampleState} {seen : Finset String} (h : Marks state seen) (n : Nat) :
    EverySubmitted (runGenerations (some quota) n state gens) ↔ Fits limit seen gens := by
  induction gens generalizing n state seen with
  | nil => exact ⟨fun _ => trivial, fun _ _ hr => nomatch hr⟩
  | cons gen gens ih =>
    have hgen := haff gen List.mem_cons_self
    rw [runGenerations, everySubmitted_append, Fits, ← and_assoc,
      ← everySubmitted_iff hm hgen h n]
    refine and_congr_right fun hall => ?_
    exact ih (fun g hg => haff g (List.mem_cons_of_mem _ hg))
      (extractRun_marks hm hgen h hall) (n + 1)

/-- Simulations of later generations are others. -/
theorem card_simulations {gens : List Generation} {state : SampleState} {n : Nat}
    (hall : EverySubmitted (runGenerations (some quota) n state gens)) :
    (simulations (runGenerations (some quota) n state gens)).card =
        (gens.map fun gen => gen.toSimulate.card).sum ∧
      ∀ p ∈ simulations (runGenerations (some quota) n state gens), n ≤ p.1 := by
  induction gens generalizing n state with
  | nil => exact ⟨rfl, fun _ hp => nomatch hp⟩
  | cons gen gens ih =>
    rw [runGenerations, everySubmitted_append] at hall
    obtain ⟨hcard, hge⟩ := ih hall.2
    have hsim := simulations_runGeneration hall.1
    rw [runGenerations, simulations_append, hsim]
    constructor
    · have hdisj : Disjoint (gen.toSimulate.image fun sid => (n, sid))
          (simulations (runGenerations (some quota) (n + 1)
            (extractRun (some quota) state gen).state gens)) := by
        rw [Finset.disjoint_left]
        intro p hp hp'
        obtain ⟨sid, -, rfl⟩ := Finset.mem_image.mp hp
        have : n + 1 ≤ n := hge _ hp'
        omega
      have hinj : Function.Injective fun sid : String => (n, sid) := by
        intro x y hxy
        exact congrArg Prod.snd hxy
      rw [Finset.card_union_of_disjoint hdisj, hcard, Finset.card_image_of_injective _ hinj,
        List.map_cons, List.sum_cons]
    · intro p hp
      rcases Finset.mem_union.mp hp with hp | hp
      · obtain ⟨sid, -, rfl⟩ := Finset.mem_image.mp hp
        exact Nat.le_refl n
      · exact Nat.le_of_succ_le (hge p hp)

/-- The quota admits exactly the campaigns that fit: every sample is submitted to
every step it reaches and the simulations stay within `max_samples` if and only if
the boundaries are met and the simulations asked for are no more than that. -/
theorem quota_admits_iff (hm : quota.maxSamples = some limit) {gens : List Generation}
    (haff : ∀ gen ∈ gens, ∀ step n, quota.Affords ((gen.env step).spent n))
    {nSamples : Nat} {reports : List Report}
    (hrun : runCampaign (some quota) nSamples gens = .ok reports) :
    EverySubmitted reports ∧ (simulations reports).card ≤ limit ↔
      Fits limit ∅ gens ∧ (gens.map fun gen => gen.toSimulate.card).sum ≤ limit := by
  have hreports : reports = runGenerations (some quota) 0 ∅ gens := by
    rw [runCampaign] at hrun
    cases he : enforceStartQuota (some quota) nSamples with
    | error e =>
      rw [he] at hrun
      exact nomatch hrun
    | ok u =>
      rw [he] at hrun
      injection hrun with hrun
      exact hrun.symm
  subst hreports
  rw [← everySubmitted_runGenerations hm haff marks_empty 0]
  refine and_congr_right fun hall => ?_
  rw [(card_simulations hall).1]

/-- Steps that all succeed, in chunks of two. -/
def calm : StepEnv where
  awaited := fun _ => .succeeds
  chunkSize := fun _ => 2
  chunkSize_pos := fun _ => by omega
  completion := id
  completion_perm := List.Perm.refl
  spent := fun _ => ⟨0, 0⟩

/-- A generation over an empty cache. -/
def freshGeneration (sids : List String) : Generation where
  samples := sids.map fun sid => ⟨sid, false⟩
  simCached := fun _ => false
  extractCached := fun _ => false
  env := fun _ => calm

/-- `{"max_samples": limit}`. -/
def samplesOnly (limit : Nat) : ResourceQuota := ⟨some limit, none, none⟩

theorem samplesOnly_affords (limit : Nat) (spent : Spent) :
    (samplesOnly limit).Affords spent :=
  ⟨fun _ h => (nomatch h), fun _ h => (nomatch h)⟩

theorem two_of_three_submitted :
    EverySubmitted (runGenerations (some (samplesOnly 3)) 0 ∅
        [freshGeneration ["0001", "0002"]]) ∧
      (simulations (runGenerations (some (samplesOnly 3)) 0 ∅
        [freshGeneration ["0001", "0002"]])).card ≤ 3 :=
  (@quota_admits_iff (samplesOnly 3) 3 rfl [freshGeneration ["0001", "0002"]]
    (fun _ _ _ _ => samplesOnly_affords 3 _) 2 _ rfl).mpr (by decide)

/-- `n_samples = max_samples = 2`, nothing cached, nothing failing: the first check
of `RUN_OPENSTUDIO_SIM` stops it. -/
theorem admitted_never_simulates :
    ¬ ∀ (quota : ResourceQuota) (limit nSamples : Nat) (gens : List Generation)
        (reports : List Report), quota.maxSamples = some limit →
      (∀ gen ∈ gens, ∀ step n, quota.Affords ((gen.env step).spent n)) →
      runCampaign (some quota) nSamples gens = .ok reports →
      EverySubmitted reports ∧ (simulations reports).card ≤ limit := by
  intro h
  have hrun := h (samplesOnly 2) 2 2 [freshGeneration ["0001", "0002"]] _ rfl
    (fun _ _ _ _ => samplesOnly_affords 2 _) rfl
  exact absurd hrun.1 (by decide)

/-- Nor are the simulations of several generations counted. -/
example : (simulations (runGenerations (some (samplesOnly 2)) 0 ∅
    (List.replicate 3 (freshGeneration ["0001"])))).card = 3 := by decide

end Campaign

end OSimFlow.Campaign
