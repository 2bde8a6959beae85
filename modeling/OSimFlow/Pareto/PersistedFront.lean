import Mathlib.Data.String.Basic
import OSimFlow.Json
import OSimFlow.Lib.Run
import OSimFlow.Lib.Sorted
import OSimFlow.Pareto.ParetoFront

/-!
# The Pareto front on disk

After each generation of a multi-objective campaign `_persist_pareto_front` reads the
front of the generation before from its file, adds the solutions of this one and writes
`pareto/gen_N.json`. It is not told what the algorithm optimises: the objectives are the
numeric KPIs of the first file that has any, all of them minimised, and samples are
matched with the files that exist by their place.

> `Current`: the latest file holds what is undominated, under the algorithm's own
> objectives and directions, among all the solutions measured so far, each once.

`Sound` is what a generation has to look like for that: its failed samples come last, a
file with solutions has numbers, the front it continues is there, and where a front is
started the first KPIs are the objectives. In a run of sound generations the latest file
is current throughout (`current_of_sound`).
-/

namespace OSimFlow.Pareto

open OSimFlow.Lib (Dict sortedBy sortedBy_eq_self undominated undominated_append
  undominated_congr Along Always)

/-- A sample of a generation. -/
structure Sample (F : Type) where
  sampleId : String
  values : Dict String (Json F)

/-- A KPI file that was written. -/
inductive KpiFile (F : Type) where
  | unreadable
  | json (data : Json F)

/-- A generation: its samples, and the KPI file of each that succeeded. -/
structure Generation (F : Type) where
  samples : List (Sample F)
  result : Nat → Option (KpiFile F)

/-- A front with its objectives, as `to_dict` writes it. -/
structure Front (F : Type) where
  objectives : Objectives
  solutions : List (ParetoSolution F)

section

variable {F : Type} (floatOfInt : Int → Except PyError F)

/-! ## Reading a KPI file -/

/-- A value that is asked for `.get` or `.items`. -/
def asObject : Json F → Option (Dict String (Json F))
  | .obj items => some (Dict.update ∅ items)
  | _ => none

/-- `kpi_data.get("kpis", {})`. -/
def kpisOf : KpiFile F → Option (Dict String (Json F))
  | .unreadable => none
  | .json data =>
    match asObject data with
    | none => none
    | some kpiData => asObject ((kpiData.get? "kpis").getD (.obj []))

/-- `sorted(k for k, v in kpis.items() if isinstance(v, (int, float)))`, empty if the file
cannot be read. -/
def numericKeys (file : KpiFile F) : List String :=
  match kpisOf file with
  | none => []
  | some kpis => sortedBy id ((kpis.items.filter fun item => item.2.isNumber).map Prod.fst)

/-- The objectives: those of the first file that has any. -/
def inferredNames : List (KpiFile F) → List String
  | [] => []
  | file :: files => if numericKeys file = [] then inferredNames files else numericKeys file

/-- `{k: float(v) for k, v in d.items() if isinstance(v, (int, float))}`. -/
def floats (d : Dict String (Json F)) : Except PyError (Dict String F) :=
  Dict.update ∅ <$> (d.items.filter fun item => item.2.isNumber).mapM fun item =>
    (fun x => (item.1, x)) <$> item.2.toFloat floatOfInt

/-- The body of the `try`: a solution, unless something raises. -/
def solution (generation : Nat) (sample : Sample F) (file : KpiFile F) :
    Option (ParetoSolution F) :=
  match kpisOf file with
  | none => none
  | some kpis =>
    match floats floatOfInt kpis, floats floatOfInt sample.values with
    | .ok objectives, .ok parameters =>
      some ⟨sample.sampleId, objectives, parameters, generation⟩
    | _, _ => none

/-! ## The generation's files -/

/-- `kpi_{sample_id}.json`. -/
def kpiName (sampleId : String) : String := "kpi_" ++ sampleId ++ ".json"

/-- The KPI files of the samples that succeeded, with their names. -/
def Generation.written (g : Generation F) : List (String × KpiFile F) :=
  g.samples.zipIdx.filterMap fun sample =>
    (g.result sample.2).map fun file => (kpiName sample.1.sampleId, file)

/-- `kpi_files`, sorted by their paths. -/
def Generation.kpiFiles (g : Generation F) : List (KpiFile F) :=
  (sortedBy Prod.fst g.written).map Prod.snd

/-! ## `_persist_pareto_front` -/

/-- `ParetoFront(objective_names=names)`: everything is minimised. -/
def minimising (names : List String) : Objectives where
  objectiveNames := names
  maximize := List.replicate names.length false
  length_eq := List.length_replicate

/-- The files under `pareto/`, in the order they were written. -/
abbrev ParetoDir (F : Type) := Dict Nat (Front F)

/-- The front of the generation before, if its file is there. -/
def previousFront (dir : ParetoDir F) (generation : Nat) : Option (Front F) :=
  if 0 < generation then dir.get? (generation - 1) else none

variable [LT F] [DecidableLT F]

/-- `_persist_pareto_front`. -/
def persistParetoFront (dir : ParetoDir F) (samples : List (Sample F))
    (kpiFiles : List (KpiFile F)) (generation : Nat) : ParetoDir F :=
  match inferredNames kpiFiles with
  | [] => dir
  | name :: names =>
    let front := (previousFront dir generation).getD ⟨minimising (name :: names), []⟩
    match (samples.zip kpiFiles).filterMap fun pair =>
        solution floatOfInt generation pair.1 pair.2 with
    | [] => dir
    | s :: solutions =>
      dir.set generation
        { front with solutions := addGeneration front.objectives front.solutions (s :: solutions) }

/-! ## A campaign -/

/-- The solutions measured in a generation: each sample with its own file. -/
def measuredIn (generation : Nat) (g : Generation F) : List (ParetoSolution F) :=
  g.samples.zipIdx.filterMap fun sample =>
    (g.result sample.2).bind fun file => solution floatOfInt generation sample.1 file

/-- The directory after some generations, and for the account what was measured. -/
structure Campaign (F : Type) where
  dir : ParetoDir F
  generation : Nat
  measured : List (ParetoSolution F)

def Campaign.start (F : Type) : Campaign F := ⟨∅, 0, []⟩

/-- One generation of the loop: without KPI files the front is not touched. -/
def Campaign.step (c : Campaign F) (g : Generation F) : Campaign F where
  dir := if g.kpiFiles = [] then c.dir
    else persistParetoFront floatOfInt c.dir g.samples g.kpiFiles c.generation
  generation := c.generation + 1
  measured := c.measured ++ measuredIn floatOfInt c.generation g

/-- The latest file. -/
def Campaign.latest (c : Campaign F) : Option (Front F) := c.dir.items.getLast?.map Prod.snd

end

section

variable {F : Type} [LinearOrder F] (floatOfInt : Int → Except PyError F)

/-- The latest file holds the undominated solutions under the objectives `own`; there is
none only if there are none. -/
def Current (own : Objectives) (c : Campaign F) : Prop :=
  ((c.latest.map Front.solutions).getD []) = undominated (Dominates own) c.measured

/-- A generation that leaves the latest file current. -/
structure Sound (own : Objectives) (c : Campaign F) (g : Generation F) : Prop where
  /-- No sample that failed comes before one that succeeded. -/
  failuresLast : ∀ i j, i < j → j < g.samples.length → (g.result j).isSome = true →
    (g.result i).isSome = true
  /-- The paths of the KPI files are in the order of the samples. -/
  ordered : g.samples.Pairwise fun a b => kpiName a.sampleId ≤ kpiName b.sampleId
  /-- If something was measured, some file has a number. -/
  numeric : measuredIn floatOfInt c.generation g ≠ [] → inferredNames g.kpiFiles ≠ []
  /-- If something was measured, now and before, the generation before left a file. -/
  chained : measuredIn floatOfInt c.generation g ≠ [] → c.measured ≠ [] →
    (previousFront c.dir c.generation).isSome = true
  /-- Where the front starts, the first KPIs are the objectives, and all are minimised. -/
  objectives : measuredIn floatOfInt c.generation g ≠ [] → c.measured = [] →
    (∀ name, name ∈ inferredNames g.kpiFiles ↔ name ∈ own.objectiveNames) ∧
      ∀ flag ∈ own.maximize, flag = false

variable {floatOfInt}

/-! ## The objectives -/

/-- Two fronts whose objectives have the same names and are all minimised rank alike. -/
theorem dominates_minimising {names : List String} {own : Objectives}
    (hnames : ∀ name, name ∈ names ↔ name ∈ own.objectiveNames)
    (hflags : ∀ flag ∈ own.maximize, flag = false) (a b : ParetoSolution F) :
    Dominates (minimising names) a b ↔ Dominates own a b := by
  have hmem : ∀ objective, objective ∈ (minimising names).objectiveNames.zip
      (minimising names).maximize ↔ objective ∈ own.objectiveNames.zip own.maximize := by
    rintro ⟨name, flag⟩
    have hown : own.maximize = List.replicate own.objectiveNames.length false :=
      List.eq_replicate_iff.mpr ⟨own.length_eq, hflags⟩
    have hzip : ∀ l : List String, (name, flag) ∈ l.zip (List.replicate l.length false) ↔
        name ∈ l ∧ flag = false := by
      intro l
      induction l with
      | nil => exact ⟨fun h => absurd h List.not_mem_nil, fun h => absurd h.1 List.not_mem_nil⟩
      | cons n l ih =>
        rw [List.length_cons, List.replicate_succ, List.zip_cons_cons, List.mem_cons, ih,
          List.mem_cons, Prod.mk.injEq, or_and_right]
    rw [hown, hzip]
    exact (hzip names).trans (and_congr_left' (hnames name))
  rw [Dominates, Dominates, dominates_iff, dominates_iff]
  simp only [hmem]

/-! ## The pairs -/

/-- Where no failure comes before a success, the files that exist are matched with the
samples that wrote them. -/
theorem filterMap_zip_files {α β γ : Type} (f : α → β → Option γ) (result : Nat → Option β) :
    ∀ (l : List α) (k : Nat),
      (∀ i j, k ≤ i → i < j → j < k + l.length → (result j).isSome = true →
        (result i).isSome = true) →
      ((l.zip ((l.zipIdx k).filterMap fun x => result x.2)).filterMap fun pair =>
        f pair.1 pair.2) = (l.zipIdx k).filterMap fun x => (result x.2).bind (f x.1)
  | [], _, _ => rfl
  | a :: l, k, h => by
    have ih := filterMap_zip_files f result l (k + 1) fun i j hi hij hj hsome =>
      h i j (by omega) hij (by rw [List.length_cons]; omega) hsome
    rw [List.zipIdx_cons]
    cases hk : result k with
    | some b =>
      simp only [List.filterMap_cons, hk, List.zip_cons_cons, Option.bind_some, ih]
    | none =>
      -- what comes later failed as well
      have hlater : ∀ x ∈ l.zipIdx (k + 1), result x.2 = none := by
        intro x hx
        obtain ⟨hge, hlt⟩ := List.mem_zipIdx hx
        cases hx2 : result x.2 with
        | none => rfl
        | some b =>
          have hsome := h k x.2 (Nat.le_refl k) (by omega)
            (by rw [List.length_cons]; omega) (by rw [hx2]; rfl)
          rw [hk] at hsome
          exact nomatch hsome
      have hfiles : (l.zipIdx (k + 1)).filterMap (fun x => result x.2) = [] :=
        List.filterMap_eq_nil_iff.mpr hlater
      have hnone : (l.zipIdx (k + 1)).filterMap (fun x => (result x.2).bind (f x.1)) = [] := by
        refine List.filterMap_eq_nil_iff.mpr fun x hx => ?_
        rw [hlater x hx]
        rfl
      simp only [List.filterMap_cons, hk, hfiles, List.zip_nil_right, List.filterMap_nil,
        Option.bind_none, hnone]

omit [LinearOrder F] in
theorem kpiFiles_eq {g : Generation F}
    (hordered : g.samples.Pairwise fun a b => kpiName a.sampleId ≤ kpiName b.sampleId) :
    g.kpiFiles = g.samples.zipIdx.filterMap fun sample => g.result sample.2 := by
  have hpairwise : g.written.Pairwise fun a b => a.1 ≤ b.1 := by
    rw [Generation.written, List.pairwise_filterMap]
    have hidx : g.samples.zipIdx.Pairwise fun a b =>
        kpiName a.1.sampleId ≤ kpiName b.1.sampleId := by
      rw [← List.zipIdx_map_fst 0 g.samples, List.pairwise_map] at hordered
      exact hordered
    refine hidx.imp fun {a b} hab x hx y hy => ?_
    obtain ⟨_, -, rfl⟩ := Option.map_eq_some_iff.mp hx
    obtain ⟨_, -, rfl⟩ := Option.map_eq_some_iff.mp hy
    exact hab
  rw [Generation.kpiFiles, sortedBy_eq_self _ hpairwise, Generation.written, List.map_filterMap]
  refine List.filterMap_congr fun x _ => ?_
  rw [Option.map_map]
  exact Option.map_id'

omit [LinearOrder F] in
theorem filterMap_zip_kpiFiles {g : Generation F} {c : Campaign F} {own : Objectives}
    (hsound : Sound floatOfInt own c g) (generation : Nat) :
    ((g.samples.zip g.kpiFiles).filterMap fun pair =>
      solution floatOfInt generation pair.1 pair.2) = measuredIn floatOfInt generation g := by
  rw [kpiFiles_eq hsound.ordered]
  refine filterMap_zip_files _ g.result g.samples 0 fun i j _ hij hj => ?_
  exact hsound.failuresLast i j hij (by omega)

/-! ## Runs -/

/-- What holds between the generations of a sound run: the files are in order, they
rank by the algorithm's objectives, and the latest is current. -/
structure Kept (own : Objectives) (c : Campaign F) : Prop where
  increasing : (c.dir.items.map Prod.fst).Pairwise (· < ·)
  numbers : ∀ item ∈ c.dir.items, item.1 < c.generation
  ranks : ∀ item ∈ c.dir.items, ∀ a b : ParetoSolution F,
    Dominates item.2.objectives a b ↔ Dominates own a b
  current : Current own c

variable {own : Objectives} {c : Campaign F} {g : Generation F}

theorem kept_start (own : Objectives) : Kept own (Campaign.start F) :=
  ⟨List.Pairwise.nil, fun _ h => absurd h List.not_mem_nil, fun _ h => absurd h List.not_mem_nil,
    rfl⟩

/-- The file of the generation before is the latest one. -/
theorem Kept.latest_eq (h : Kept own c) {front : Front F}
    (hprev : previousFront c.dir c.generation = some front) :
    (c.generation - 1, front) ∈ c.dir.items ∧ c.latest = some front := by
  rw [previousFront] at hprev
  split at hprev
  next hpos =>
    have hmem := Dict.mem_items.mpr hprev
    refine ⟨hmem, ?_⟩
    obtain ⟨items, last, hitems⟩ : ∃ items last, c.dir.items = items ++ [last] :=
      ⟨_, _, (List.dropLast_append_getLast (List.ne_nil_of_mem hmem)).symm⟩
    have hlast : (c.generation - 1, front) = last := by
      have hinc := h.increasing
      have hnum := h.numbers last (by rw [hitems]; simp)
      rw [hitems] at hmem
      rcases List.mem_append.mp hmem with hm | hm
      · -- an earlier file has a smaller number
        rw [hitems, List.map_append, List.pairwise_append] at hinc
        have hlt := hinc.2.2 _ (List.mem_map_of_mem hm) last.1 (List.mem_singleton.mpr rfl)
        have hlt' : c.generation - 1 < last.1 := hlt
        omega
      · exact List.mem_singleton.mp hm
    rw [Campaign.latest, hitems, List.getLast?_concat, ← hlast]
    rfl
  next => cases hprev

/-- The front a generation continues ranks by the algorithm's objectives and is what was
undominated so far. -/
theorem Kept.front_spec (h : Kept own c) (hsound : Sound floatOfInt own c g)
    (hne : measuredIn floatOfInt c.generation g ≠ []) {front : Front F}
    (hfront : (previousFront c.dir c.generation).getD
      ⟨minimising (inferredNames g.kpiFiles), []⟩ = front) :
    (∀ a b : ParetoSolution F, Dominates front.objectives a b ↔ Dominates own a b) ∧
      front.solutions = undominated (Dominates own) c.measured := by
  cases hprev : previousFront c.dir c.generation with
  | some prev =>
    rw [hprev] at hfront
    obtain ⟨hmem, hlatest⟩ := h.latest_eq hprev
    have hcurrent := h.current
    rw [Current, hlatest] at hcurrent
    cases hfront
    exact ⟨h.ranks _ hmem, hcurrent⟩
  | none =>
    have hnothing : c.measured = [] := by
      by_contra hmeasured
      have hsome := hsound.chained hne hmeasured
      rw [hprev] at hsome
      exact nomatch hsome
    rw [hprev] at hfront
    cases hfront
    obtain ⟨hnames, hflags⟩ := hsound.objectives hne hnothing
    rw [hnothing]
    exact ⟨dominates_minimising hnames hflags, rfl⟩

/-- What a sound generation does to the directory. -/
theorem step_dir (hsound : Sound floatOfInt own c g) :
    (c.step floatOfInt g).dir =
      if measuredIn floatOfInt c.generation g = [] then c.dir
      else
        let front := (previousFront c.dir c.generation).getD
          ⟨minimising (inferredNames g.kpiFiles), []⟩
        c.dir.set c.generation { front with
          solutions := addGeneration front.objectives front.solutions
            (measuredIn floatOfInt c.generation g) } := by
  have hpairs := filterMap_zip_kpiFiles hsound c.generation
  show (if g.kpiFiles = [] then c.dir else persistParetoFront floatOfInt c.dir g.samples
    g.kpiFiles c.generation) = _
  rw [persistParetoFront, hpairs]
  by_cases hne : measuredIn floatOfInt c.generation g = []
  · rw [if_pos hne, hne]
    cases inferredNames g.kpiFiles <;> exact ite_self _
  · have hnames := hsound.numeric hne
    have hfiles : g.kpiFiles ≠ [] := by
      intro hnil
      rw [hnil] at hnames
      exact hnames rfl
    rw [if_neg hne, if_neg hfiles]
    cases hinferred : inferredNames g.kpiFiles with
    | nil => exact absurd hinferred hnames
    | cons name names =>
      cases hmeasured : measuredIn floatOfInt c.generation g with
      | nil => exact absurd hmeasured hne
      | cons s solutions => rfl

theorem Kept.step (h : Kept own c) (hsound : Sound floatOfInt own c g) :
    Kept own (c.step floatOfInt g) := by
  have hdir := step_dir hsound
  by_cases hne : measuredIn floatOfInt c.generation g = []
  · rw [if_pos hne] at hdir
    have hlatest : (c.step floatOfInt g).latest = c.latest := by
      rw [Campaign.latest, Campaign.latest, hdir]
    have hmeasured : (c.step floatOfInt g).measured = c.measured := by
      show c.measured ++ measuredIn floatOfInt c.generation g = c.measured
      rw [hne, List.append_nil]
    refine ⟨hdir ▸ h.increasing, fun item hitem => ?_, hdir ▸ h.ranks, ?_⟩
    · rw [hdir] at hitem
      exact Nat.lt_succ_of_lt (h.numbers item hitem)
    · rw [Current, hlatest, hmeasured]
      exact h.current
  · obtain ⟨front, hfront⟩ : ∃ front, (previousFront c.dir c.generation).getD
        ⟨minimising (inferredNames g.kpiFiles), []⟩ = front := ⟨_, rfl⟩
    obtain ⟨hranks, hsolutions⟩ := h.front_spec hsound hne hfront
    rw [if_neg hne] at hdir
    simp only [hfront] at hdir
    have hnew : c.generation ∉ c.dir.keys := by
      intro hmem
      obtain ⟨item, hitem, heq⟩ := List.mem_map.mp hmem
      have hlt := h.numbers item hitem
      omega
    have hitems := Dict.items_set_of_notMem hnew ({ front with
      solutions := addGeneration front.objectives front.solutions
        (measuredIn floatOfInt c.generation g) })
    rw [← hdir] at hitems
    refine ⟨?_, fun item hitem => ?_, fun item hitem => ?_, ?_⟩
    · rw [hitems, List.map_append, List.pairwise_append]
      refine ⟨h.increasing, List.pairwise_singleton _ _, fun n hn m hm => ?_⟩
      obtain ⟨item, hitem, rfl⟩ := List.mem_map.mp hn
      rw [List.mem_singleton.mp hm]
      exact h.numbers item hitem
    · rw [hitems] at hitem
      rcases List.mem_append.mp hitem with hitem | hitem
      · exact Nat.lt_succ_of_lt (h.numbers item hitem)
      · rw [List.mem_singleton.mp hitem]
        exact Nat.lt_succ_self _
    · rw [hitems] at hitem
      rcases List.mem_append.mp hitem with hitem | hitem
      · exact h.ranks item hitem
      · rw [List.mem_singleton.mp hitem]
        exact hranks
    · rw [Current, Campaign.latest, hitems, List.getLast?_concat]
      show addGeneration front.objectives front.solutions _ =
        undominated (Dominates own) (c.measured ++ _)
      rw [addGeneration, getNondominated_eq, undominated_congr hranks, hsolutions,
        undominated_append]

variable (floatOfInt) in
/-- After every generation of a sound campaign the latest file under `pareto` is the
front of all that was measured, under the algorithm's own objectives. -/
theorem current_of_sound (own : Objectives) {generations : List (Generation F)}
    (hsound : Along (Campaign.step floatOfInt) (Sound floatOfInt own) (Campaign.start F)
      generations) :
    Always (Campaign.step floatOfInt) (Current own) (Campaign.start F) generations := by
  have hkept := Along.always (Campaign.step floatOfInt) (I := Kept own)
    (fun c g hk hs => Kept.step hk hs) (kept_start own) hsound
  exact hkept.mono _ fun c hk => hk.current

end

/-! ## Two objectives -/

/-- A KPI file with whole numbers. -/
def kpiFile (kpis : List (String × Int)) : KpiFile Int :=
  .json (.obj [("kpis", .obj (kpis.map fun item => (item.1, .int item.2)))])

def costAndEui : Objectives := minimising ["cost", "eui"]

/-- One sample with both objectives. -/
def plainGeneration : Generation Int where
  samples := [⟨"0001", ∅⟩]
  result := fun _ => some (kpiFile [("eui", 1), ("cost", 2)])

theorem current_plain :
    Always (Campaign.step .ok) (Current costAndEui) (Campaign.start Int) [plainGeneration] := by
  refine current_of_sound .ok costAndEui ⟨?_, trivial⟩
  have hnames : inferredNames plainGeneration.kpiFiles = ["cost", "eui"] := by decide +kernel
  refine ⟨fun i j hij hj => ?_, List.pairwise_singleton _ _, fun _ => ?_, fun _ h => ?_,
    fun _ _ => ⟨fun name => ?_, ?_⟩⟩
  · have hj' : j < 1 := hj
    omega
  · rw [hnames]
    exact List.cons_ne_nil _ _
  · exact absurd rfl h
  · rw [hnames]
    exact Iff.rfl
  · decide

def euiAndComfort : Objectives := ⟨["eui", "comfort"], [false, true], rfl⟩

/-- The first sample uses less and is more comfortable. -/
def comfortGeneration : Generation Int where
  samples := [⟨"0001", ∅⟩, ⟨"0002", ∅⟩]
  result := fun i =>
    if i = 0 then some (kpiFile [("eui", 1), ("comfort", 2)])
    else some (kpiFile [("eui", 2), ("comfort", 1)])

/-- The direction is not passed on: the second sample stays on the front. -/
theorem maximised_objective_ignored :
    ¬ ∀ (own : Objectives) (generations : List (Generation Int)),
      Always (Campaign.step .ok) (Current own) (Campaign.start Int) generations := by
  intro h
  have hlen := congrArg List.length (h euiAndComfort [comfortGeneration]).2
  revert hlen
  decide +kernel

end OSimFlow.Pareto
