import Mathlib.Data.String.Basic
import OSimFlow.Cache.SQLiteCache
import OSimFlow.Lib.Memo

/-!
# `step_apply_parameters` over a cache

Before a sample's package is built its key is looked up; on a hit the directory
of the row is returned as it is, on a miss `work/apply/<sid>` is built again, in
place: `copytree` of the template package, the external weather file, then
`apply_fn`. The key has the values, the sample id and the path of a seed model
in it, and the directory the sample id only. Neither has what is in the template
package.

> `Owned`: the last build that touched the directory completed on the present
> inputs, and the ones before it built from these inputs too, or stopped while
> they copied files that the present package has as well.

Only then is a hit sure to return what building it now would give
(`warm_apply_iff`); `apply_fn` is any function of its inputs.
-/

namespace OSimFlow.Campaign.WarmApply

open OSimFlow.Lib
open OSimFlow.Lib.InPlace
open OSimFlow.Cache (CacheKey CacheRow SQLiteCache)

variable {V : Type}

/-! ## The step -/

/-- What `apply_fn` is given for a sample. -/
structure ApplyInput (V : Type) where
  sampleId : String
  /-- The files of `template_sim_package`, or of the sample's own seed model. -/
  templatePkg : List (String × String)
  resolvedParams : List (String × V)
  seedModel : Option String
  /-- An absolute `__epw_file__`: its name and what is in it. -/
  externalEpw : Option (String × String)

/-- `apply_inputs`. -/
structure ApplyInputs (V : Type) where
  params : List (String × V)
  sid : String
  seedModel : Option String
  prebuiltWorkflow : Bool

/-- How a sample that is not cached fares: how far its package comes, and what is stored at
last. -/
structure Handled where
  stage : Stage
  stored : Option Int
  /-- `_on_success` runs when the work function has returned. -/
  completed_of_stored : stored = some 0 → stage = .completed

/-- A call of the step, with how each of its samples fares. -/
structure ApplyCall (V : Type) where
  openstudioVersion : String
  codeHash : String
  pythonContainerDigest : String
  prebuiltWorkflow : Bool
  generation : Nat
  samples : List (ApplyInput V × Handled)

/-- The files that are in place before `apply_fn` is called. -/
def staged (i : ApplyInput V) : List (FileOp String String) :=
  i.templatePkg.map (fun file => (file.1, some file.2)) ++
    match i.externalEpw with
    | some (name, content) => [("weather/" ++ name, some content)]
    | none => []

/-- What the step keeps beside the packages: the table, and the directories it has made. -/
structure ApplyState where
  cache : SQLiteCache
  made : List String

section

variable (sha256OfDict : ApplyInputs V → String) (workDir : String)

/-- `work_dir / "apply" / sid`. -/
def outDir (sid : String) : String :=
  workDir ++ "/apply/" ++ sid

def cacheKey (call : ApplyCall V) (i : ApplyInput V) : CacheKey where
  step := "APPLY_PARAMETERS"
  sampleId := i.sampleId
  openstudioVersion := call.openstudioVersion
  inputsSha256 := sha256OfDict
    { params := i.resolvedParams
      sid := i.sampleId
      seedModel := i.seedModel
      prebuiltWorkflow := call.prebuiltWorkflow }
  codeSha256 := call.codeHash
  containerDigest := call.pythonContainerDigest
  generation := call.generation
  nSamples := 0

/-- What phase 1 finds. -/
structure Checked (V : Type) where
  made : List String
  hits : List (String × ApplyInput V)
  pending : Dict String (ApplyInput V × Handled)

/-- Phase 1, for one sample. -/
def checkSample (cache : SQLiteCache) (call : ApplyCall V) (r : Checked V)
    (s : ApplyInput V × Handled) : Checked V :=
  match cache.lookup (fun path => r.made.contains path) (cacheKey sha256OfDict call s.1) with
  | some cached => { r with hits := r.hits ++ [(cached, s.1)] }
  | none =>
    { r with
      made := outDir workDir s.1.sampleId :: r.made
      pending := r.pending.set s.1.sampleId s }

/-- Phase 1: cache check for all samples. -/
def checkAll (b : ApplyState) (call : ApplyCall V) : Checked V :=
  call.samples.foldl (checkSample sha256OfDict workDir b.cache call) ⟨b.made, [], ∅⟩

/-- What is stored for a sample. -/
def storeSample (call : ApplyCall V) (cache : SQLiteCache) (s : ApplyInput V × Handled) :
    SQLiteCache :=
  match s.2.stored with
  | some exitCode =>
    cache.store (cacheKey sha256OfDict call s.1) (outDir workDir s.1.sampleId) exitCode
  | none => cache

/-- `step_apply_parameters`. -/
def stepApplyParameters : Memo ApplyState (ApplyCall V) String (ApplyInput V) where
  next b call :=
    let r := checkAll sha256OfDict workDir b call
    { cache := r.pending.values.foldl (storeSample sha256OfDict workDir call) b.cache
      made := r.made }
  tries b call :=
    (checkAll sha256OfDict workDir b call).pending.values.map fun s =>
      (outDir workDir s.1.sampleId, ⟨s.1, s.2.stage⟩)
  hits b call := (checkAll sha256OfDict workDir b call).hits

end

/-! ## Packages that are left alone -/

/-- The paths a package has before `apply_fn` is called. -/
def stagedPaths (i : ApplyInput V) : List String :=
  touched (staged i)

/-- The directory is the package of `i`. -/
def Owned (i : ApplyInput V) (log : List (Attempt (ApplyInput V))) : Prop :=
  ∃ before rest, log = before ++ ⟨i, .completed⟩ :: rest ∧
    (∀ a ∈ rest, a.Idle staged) ∧
    ∀ a ∈ before, (a.stage.Works → a.input = i) ∧
      touched (a.stage.prepared (staged a.input)) ⊆ stagedPaths i

/-- Staging only writes. -/
theorem staged_writes {i : ApplyInput V} {op : FileOp String String} (h : op ∈ staged i) :
    op.2 ≠ none := by
  rw [staged, List.mem_append] at h
  rcases h with h | h
  · obtain ⟨file, -, rfl⟩ := List.mem_map.mp h
    exact Option.some_ne_none file.2
  · cases hepw : i.externalEpw with
    | none =>
      rw [hepw] at h
      exact absurd h List.not_mem_nil
    | some epw =>
      rw [hepw] at h
      rw [List.mem_singleton.mp h]
      exact Option.some_ne_none epw.2

/-- Without any work, the paths of a directory are the ones that were staged. -/
theorem replay_staged_eq_none {log : List (Attempt (ApplyInput V))} {p : String} :
    replay staged (fun _ => []) log p = none ↔
      ∀ a ∈ log, p ∉ touched (a.stage.prepared (staged a.input)) := by
  have hops : ∀ a : Attempt (ApplyInput V),
      a.ops staged (fun _ => []) = a.stage.prepared (staged a.input) := by
    intro a
    rw [Attempt.ops, Stage.worked_nil, List.append_nil]
  induction log using List.reverseRecOn with
  | nil => exact ⟨fun _ a ha => absurd ha List.not_mem_nil, fun _ => rfl⟩
  | append_singleton log a ih =>
    rw [replay_snoc, hops]
    constructor
    · intro h
      have hlast : p ∉ touched (a.stage.prepared (staged a.input)) := by
        intro hp
        obtain ⟨op, hop, -, hleft⟩ := exists_left hp (replay staged (fun _ => []) log)
        rw [h] at hleft
        exact staged_writes (a.stage.prepared_subset _ hop) hleft.symm
      rw [after_untouched hlast] at h
      intro b hb
      rcases List.mem_append.mp hb with hb | hb
      · exact ih.mp h b hb
      · exact List.mem_singleton.mp hb ▸ hlast
    · intro h
      rw [after_untouched (h a (List.mem_append_right _ List.mem_cons_self))]
      exact ih.mpr fun b hb => h b (List.mem_append_left _ hb)

theorem settled_iff_owned {i : ApplyInput V} {log : List (Attempt (ApplyInput V))} :
    Settled staged i log ↔ Owned i log := by
  constructor
  · rintro ⟨before, rest, hlog, hrest, hin, hpaths⟩
    refine ⟨before, rest, hlog, hrest, fun a ha => ⟨hin a ha, fun p hp => ?_⟩⟩
    by_contra hnot
    exact replay_staged_eq_none.mp (hpaths p hnot) a ha hp
  · rintro ⟨before, rest, hlog, hrest, hbefore⟩
    refine ⟨before, rest, hlog, hrest, fun a ha => (hbefore a ha).1, fun p hp => ?_⟩
    exact replay_staged_eq_none.mpr fun a ha hmem => hp ((hbefore a ha).2 hmem)

/-- In which sequences of calls every hit returns the package that building it now would give,
whatever `apply_fn` does. -/
theorem warm_apply_iff (sha256OfDict : ApplyInputs V → String) (workDir : String)
    (calls : List (ApplyCall V)) :
    (∀ applyFn : ApplyInput V → List (FileOp String String),
      Along ((stepApplyParameters sha256OfDict workDir).diskStep staged applyFn)
        ((stepApplyParameters sha256OfDict workDir).Warm staged applyFn)
        (Memo.Disk.start ⟨∅, []⟩) calls) ↔
      Along (stepApplyParameters sha256OfDict workDir).logStep
        (fun s call => ∀ hit ∈ (stepApplyParameters sha256OfDict workDir).hits s.base call,
          Owned hit.2 (((stepApplyParameters sha256OfDict workDir).logStep s call).log hit.1))
        (Memo.Logged.start ⟨∅, []⟩) calls := by
  rw [Memo.warm_iff]
  refine along_congr _ (I := fun _ => True) (fun _ _ _ => trivial) (fun s call _ => ?_) trivial calls
  exact forall₂_congr fun hit _ => settled_iff_owned

/-! ## An edited template -/

/-- Sample "0001" of a package with one file. -/
def seedSample (workflow : String) : ApplyInput Int where
  sampleId := "0001"
  templatePkg := [("workflow.osw", workflow)]
  resolvedParams := [("lpd", 10)]
  seedModel := none
  externalEpw := none

def seedCall (workflow : String) : ApplyCall Int where
  openstudioVersion := "3.9.0"
  codeHash := "c0de"
  pythonContainerDigest := "sha256:00"
  prebuiltWorkflow := false
  generation := 0
  samples := [(seedSample workflow, ⟨.completed, some 0, fun _ => rfl⟩)]

/-- The template package was edited between two runs, and the second one returns the package
of the first. -/
theorem edited_template_stale :
    ¬ ∃ sha256OfDict : ApplyInputs Int → String,
      ∀ (applyFn : ApplyInput Int → List (FileOp String String)) (calls : List (ApplyCall Int)),
        Along ((stepApplyParameters sha256OfDict "work").diskStep staged applyFn)
          ((stepApplyParameters sha256OfDict "work").Warm staged applyFn)
          (Memo.Disk.start ⟨∅, []⟩) calls := by
  rintro ⟨sha256OfDict, h⟩
  have hrun := h (fun _ => []) [seedCall "v1", seedCall "v2"]
  -- the second call finds the row of the first one, and does nothing
  have hchecked : checkAll sha256OfDict "work"
      ⟨SQLiteCache.store ∅ (cacheKey sha256OfDict (seedCall "v2") (seedSample "v2"))
        "work/apply/0001" 0, ["work/apply/0001"]⟩ (seedCall "v2") =
      ⟨["work/apply/0001"], [("work/apply/0001", seedSample "v2")], ∅⟩ := by
    simp [checkAll, checkSample, seedCall, SQLiteCache.lookup, SQLiteCache.store, CacheRow.hit]
  let b : ApplyState :=
    ⟨SQLiteCache.store ∅ (cacheKey sha256OfDict (seedCall "v2") (seedSample "v2"))
      "work/apply/0001" 0, ["work/apply/0001"]⟩
  have hhits : (stepApplyParameters sha256OfDict "work").hits b (seedCall "v2") =
      [("work/apply/0001", seedSample "v2")] := congrArg Checked.hits hchecked
  have htries : (stepApplyParameters sha256OfDict "work").tries b (seedCall "v2") = [] :=
    congrArg (fun r : Checked Int => r.pending.values.map fun s : ApplyInput Int × Handled =>
      (outDir "work" s.1.sampleId, (⟨s.1, s.2.stage⟩ : Attempt (ApplyInput Int)))) hchecked
  have hwarm : (stepApplyParameters sha256OfDict "work").Warm staged (fun _ => [])
      ⟨b, ((stepApplyParameters sha256OfDict "work").diskStep staged (fun _ => [])
        (Memo.Disk.start ⟨∅, []⟩) (seedCall "v1")).dirs⟩ (seedCall "v2") := hrun.2.1
  rw [Memo.Warm, hhits, Memo.diskStep, htries] at hwarm
  have hfile : some "v1" = some "v2" := congrFun (hwarm _ List.mem_cons_self) "workflow.osw"
  exact absurd hfile (by decide)

end OSimFlow.Campaign.WarmApply
