import Mathlib.Data.Finset.Card
import OSimFlow.Fanout.Script

/-!
# A fan-out step and the quota it watches

`APPLY_PARAMETERS`, `RUN_OPENSTUDIO_SIM` and `EXTRACT_KPIS` are one shape: look
every sample up, submit the others in chunks, await each chunk, and record a
failure for whatever did not come out "ok". Before each chunk
`check_quota_exceeded` counts the samples with any status key in
`_sample_state` — the dictionary these very steps, of all generations, leave
their status keys in.

The invariant is `Marks`: which samples have a row with a status. Only
`APPLY_PARAMETERS` ever adds one, since later steps are handed what came out of
it (`runStep_go`).
-/

namespace OSimFlow.Campaign

open OSimFlow.Lib
open OSimFlow.Fanout (setStatus recordSuccess recordFailure clearFailure)

/-! ## The quota guard -/

/-- The hard limits of `resource_quota` that a fan-out checks. -/
structure ResourceQuota where
  maxSamples : Option Nat
  maxCostUsd : Option ℚ
  maxWallTimeMin : Option ℚ

/-- The campaign's accrued cost and elapsed time at a check. -/
structure Spent where
  accruedCostUsd : ℚ
  elapsedMin : ℚ

/-- A key that ends in `_exit_code` or `_status`. -/
def StateKey.isStatusKey : StateKey → Bool
  | .exitCode _ | .status _ => true
  | _ => false

/-- Any step has left a status on the row. -/
def SampleRow.submitted (row : SampleRow) : Bool :=
  row.keys.any StateKey.isStatusKey

/-- `submitted` in `check_quota_exceeded`. -/
def submittedCount (state : SampleState) : Nat :=
  state.countValues SampleRow.submitted

/-- `check_quota_exceeded`. -/
def checkQuotaExceeded (quota : Option ResourceQuota) (state : SampleState)
    (spent : Spent) : Bool :=
  match quota with
  | none => false
  | some quota =>
    quota.maxSamples.any (fun limit => decide (limit ≤ submittedCount state)) ||
      quota.maxCostUsd.any (fun limit => decide (limit ≤ spent.accruedCostUsd)) ||
      quota.maxWallTimeMin.any (fun limit => decide (limit ≤ spent.elapsedMin))

/-- `enforce_start_quota`. -/
def enforceStartQuota (quota : Option ResourceQuota) (nSamples : Nat) :
    Except PyError Unit :=
  match quota.bind ResourceQuota.maxSamples with
  | none => .ok ()
  | some limit =>
    if limit < nSamples then .error (.exception
      s!"n_samples={nSamples} exceeds resource_quota.max_samples={limit}")
    else .ok ()

/-- The cost and wall-time limits are not reached. -/
def ResourceQuota.Affords (quota : ResourceQuota) (spent : Spent) : Prop :=
  (∀ limit, quota.maxCostUsd = some limit → spent.accruedCostUsd < limit) ∧
    ∀ limit, quota.maxWallTimeMin = some limit → spent.elapsedMin < limit

/-- Within these, the check is the one for `max_samples`. -/
theorem checkQuotaExceeded_eq {quota : ResourceQuota} {limit : Nat}
    (hm : quota.maxSamples = some limit) {spent : Spent} (ha : quota.Affords spent)
    (state : SampleState) :
    checkQuotaExceeded (some quota) state spent =
      decide (limit ≤ submittedCount state) := by
  have hcost : quota.maxCostUsd.any (fun c => decide (c ≤ spent.accruedCostUsd)) =
      false := by
    cases hc : quota.maxCostUsd with
    | none => rfl
    | some c => exact decide_eq_false (Rat.not_le.mpr (ha.1 c hc))
  have htime : quota.maxWallTimeMin.any (fun c => decide (c ≤ spent.elapsedMin)) =
      false := by
    cases ht : quota.maxWallTimeMin with
    | none => rfl
    | some c => exact decide_eq_false (Rat.not_le.mpr (ha.2 c ht))
  rw [checkQuotaExceeded, hcost, htime, hm]
  simp

/-! ## The step -/

/-- `_sample_state[sid]`, empty where there is none. -/
def SampleState.row (state : SampleState) (sid : String) : SampleRow :=
  (state.get? sid).getD ∅

/-- `state = _sample_state.setdefault(sid, {})`, and what is done to it. -/
def SampleState.updateRow (state : SampleState) (sid : String)
    (f : SampleRow → SampleRow) : SampleState :=
  state.set sid (f (state.row sid))

/-- A sample a step is handed, and whether the cache has its result. -/
structure Item where
  sid : String
  cached : Bool

/-- How awaiting a submitted sample leaves its row. -/
inductive Awaited where
  | succeeds
  | fails (error : PyError)
  /-- The accounting raised before it recorded anything. -/
  | lost
  /-- A recovery popped the status and raised. -/
  | cleared

namespace Awaited

def isSuccess : Awaited → Bool
  | succeeds => true
  | _ => false

/-- It leaves a status. -/
def settles : Awaited → Bool
  | succeeds | fails _ => true
  | _ => false

/-- The row afterwards. Only the simulation step has a recovery manager. -/
def apply (step : Step) : Awaited → SampleRow → SampleRow
  | succeeds, row => recordSuccess step row
  | fails error, row => recordFailure step error row
  | lost, row => row
  | cleared, row =>
    match step with
    | .runOpenstudioSim => clearFailure step row
    | .applyParameters | .extractKpis => row

end Awaited

/-- The chunks of `range(0, len(xs), size)`, for `size > 0`. -/
def chunksOf {α : Type} (size : Nat) : (fuel : Nat) → List α → List (List α)
  | 0, _ => []
  | fuel + 1, xs =>
    if xs.isEmpty then [] else xs.take size :: chunksOf size fuel (xs.drop size)

/-- What one step does with its samples is up to its surroundings. -/
structure StepEnv where
  awaited : String → Awaited
  /-- `_fanout_submit_chunk_size`. -/
  chunkSize : Nat → Nat
  chunkSize_pos : ∀ n, 0 < chunkSize n
  /-- The order in which the samples of a chunk complete. -/
  completion : List String → List String
  completion_perm : ∀ chunk, (completion chunk).Perm chunk
  /-- What has been spent when the `n`-th chunk is due. -/
  spent : Nat → Spent

/-- A step in progress: the state, the keys of `out`, and what was submitted. -/
structure StepRun where
  state : SampleState
  out : List String
  submitted : List String
  /-- A submission loop was stopped by the quota. -/
  stopped : Bool

/-- The samples to submit, in the order of the `pending` dictionary. -/
def pendingOf (items : List Item) : List String :=
  items.foldl (fun pending item =>
    if item.cached then pending else upsert id item.sid pending) []

/-- Phase 1, for one sample. -/
def lookupItem (step : Step) (r : StepRun) (item : Item) : StepRun :=
  if item.cached then
    { r with
      state := r.state.updateRow item.sid
        (fun row => setStatus row step.canonicalPrefix 0 "cached")
      out := upsert id item.sid r.out }
  else { r with state := r.state.updateRow item.sid id }

/-- One sample of a chunk, awaited. -/
def awaitItem (step : Step) (env : StepEnv) (r : StepRun) (sid : String) : StepRun :=
  { r with
    state := r.state.updateRow sid ((env.awaited sid).apply step)
    out := if (env.awaited sid).isSuccess then upsert id sid r.out else r.out }

/-- A chunk submitted and awaited. -/
def runChunk (step : Step) (env : StepEnv) (r : StepRun) (chunk : List String) :
    StepRun :=
  (env.completion chunk).foldl (awaitItem step env)
    { r with submitted := r.submitted ++ chunk }

/-- The submission loop. -/
def submitLoop (quota : Option ResourceQuota) (step : Step) (env : StepEnv) :
    List (List String) → Nat → StepRun → StepRun
  | [], _, r => r
  | chunk :: rest, n, r =>
    if checkQuotaExceeded quota r.state (env.spent n) then { r with stopped := true }
    else submitLoop quota step env rest (n + 1) (runChunk step env r chunk)

/-- `state.setdefault("error_summary", …)` of the step. -/
def Step.unknownError : Step → String
  | .applyParameters => "APPLY: unknown error during concurrent execution"
  | .runOpenstudioSim => "SIM: unknown error during concurrent execution"
  | .extractKpis => "EXTRACT: unknown error during concurrent execution"

/-- The row of a sample that did not succeed. -/
def markUnsuccessful (step : Step) (row : SampleRow) : SampleRow :=
  (setStatus row step.canonicalPrefix 1 "failed").setDefault .errorSummary
    (.str step.unknownError)

/-- The failure recording after the loop, for one pending sample. -/
def recordUnsuccessful (step : Step) (r : StepRun) (sid : String) : StepRun :=
  if (r.state.row sid).get? (.status step.canonicalPrefix) = some (.str "ok") then r
  else
    { r with
      state := r.state.updateRow sid (markUnsuccessful step)
      out := r.out.erase sid }

/-- The step: what it leaves, what comes out, what it submitted. -/
def runStep (quota : Option ResourceQuota) (step : Step) (env : StepEnv)
    (state : SampleState) (items : List Item) : StepRun :=
  let pending := pendingOf items
  let r := items.foldl (lookupItem step) ⟨state, [], [], false⟩
  let chunks := chunksOf (env.chunkSize pending.length) pending.length pending
  pending.foldl (recordUnsuccessful step) (submitLoop quota step env chunks 0 r)

/-! ## Which samples have a status -/

/-- The row has an apply status. -/
def Applied (row : SampleRow) : Prop := (row.get? (.status .apply)).isSome = true

theorem not_applied_empty : ¬ Applied ∅ := fun h => nomatch h

theorem submitted_empty : SampleRow.submitted ∅ = false := rfl

theorem Applied.submitted {row : SampleRow} (h : Applied row) :
    row.submitted = true := by
  obtain ⟨v, hv⟩ := Option.isSome_iff_exists.mp h
  have hm : StateKey.status .apply ∈ row.keys :=
    List.mem_map.mpr ⟨_, Dict.mem_items.mpr hv, rfl⟩
  exact List.any_eq_true.mpr ⟨_, hm, rfl⟩

theorem Applied.set {row : SampleRow} (h : Applied row) (k : StateKey) (v : Value) :
    Applied (row.set k v) := by
  unfold Applied
  rw [Dict.get?_set]
  split
  · rfl
  · exact h

theorem Applied.setStatus {row : SampleRow} (h : Applied row) (p : Prefix) (code : Int)
    (status : String) : Applied (setStatus row p code status) :=
  (h.set _ _).set _ _

theorem setStatus_applied (row : SampleRow) (code : Int) (status : String) :
    Applied (setStatus row .apply code status) := by
  unfold Applied Fanout.setStatus
  rw [Dict.get?_set_self]
  rfl

/-- Setting the step's own status keeps an apply status, or is one. -/
theorem setStatus_keeps {step : Step} {row : SampleRow}
    (h : step = .applyParameters ∨ Applied row) (code : Int) (status : String) :
    Applied (setStatus row step.canonicalPrefix code status) := by
  rcases h with rfl | h
  · exact setStatus_applied row code status
  · exact h.setStatus _ _ _

theorem recordFailure_keeps {step : Step} {row : SampleRow}
    (h : step = .applyParameters ∨ Applied row) (error : PyError) :
    Applied (recordFailure step error row) := by
  have hstatus : Applied (setStatus (setStatus row (.lower step) 1 "failed")
      step.canonicalPrefix 1 "failed") :=
    setStatus_keeps (h.imp_right fun h => h.setStatus _ _ _) _ _
  exact (hstatus.set _ _).set _ _

theorem markUnsuccessful_keeps {step : Step} {row : SampleRow}
    (h : step = .applyParameters ∨ Applied row) :
    Applied (markUnsuccessful step row) := by
  have hstatus := setStatus_keeps h 1 "failed"
  unfold markUnsuccessful Dict.setDefault
  split
  · exact hstatus
  · exact hstatus.set _ _

/-- A recovery pops the simulation's keys only. -/
theorem clearFailure_keeps {row : SampleRow} (h : Applied row) :
    Applied (clearFailure .runOpenstudioSim row) := by
  unfold Applied at h ⊢
  unfold clearFailure
  simp only [Dict.get?_erase, Step.canonicalPrefix]
  simpa using h

/-- The samples with a status are those of `S`, and theirs is an apply
status. -/
structure Marks (state : SampleState) (S : Finset String) : Prop where
  mem : ∀ sid, sid ∈ S ↔ Applied (state.row sid)
  submitted : ∀ sid, (state.row sid).submitted = true → Applied (state.row sid)

theorem marks_empty : Marks ∅ ∅ where
  mem := by
    intro sid
    exact ⟨fun h => absurd h (Finset.notMem_empty sid), fun h => absurd h not_applied_empty⟩
  submitted := by
    intro sid h
    have hrow : SampleState.row ∅ sid = ∅ := rfl
    rw [hrow, submitted_empty] at h
    cases h

section Marks

variable {state : SampleState} {S : Finset String}

theorem Marks.count (h : Marks state S) : submittedCount state = S.card := by
  refine Dict.countValues_eq_card fun sid => ?_
  rw [h.mem sid]
  unfold SampleState.row
  cases hr : state.get? sid with
  | none =>
    constructor
    · intro ha
      exact absurd ha not_applied_empty
    · rintro ⟨v, hv, -⟩
      exact nomatch hv
  | some row =>
    constructor
    · intro ha
      exact ⟨row, rfl, Applied.submitted ha⟩
    · rintro ⟨v, hv, hs⟩
      cases hv
      have := h.submitted sid
      unfold SampleState.row at this
      rw [hr] at this
      exact this hs

theorem row_updateRow (state : SampleState) (sid sid' : String)
    (f : SampleRow → SampleRow) :
    (state.updateRow sid f).row sid' =
      if sid' = sid then f (state.row sid) else state.row sid' := by
  unfold SampleState.updateRow
  by_cases h : sid' = sid
  · subst h
    rw [if_pos rfl]
    show ((Dict.set state sid' _).get? sid').getD ∅ = _
    rw [Dict.get?_set_self]
    rfl
  · rw [if_neg h]
    show ((Dict.set state sid _).get? sid').getD ∅ = _
    rw [Dict.get?_set_ne _ (Ne.symm h)]
    rfl

/-- An update that leaves an apply status adds its sample. -/
theorem Marks.update (h : Marks state S) {sid : String} {f : SampleRow → SampleRow}
    (hf : Applied (f (state.row sid))) :
    Marks (state.updateRow sid f) (insert sid S) where
  mem := by
    intro sid'
    rw [row_updateRow, Finset.mem_insert]
    by_cases hs : sid' = sid
    · simp [hs, hf]
    · simp [hs, h.mem sid']
  submitted := by
    intro sid'
    rw [row_updateRow]
    by_cases hs : sid' = sid
    · rw [if_pos hs]
      exact fun _ => hf
    · rw [if_neg hs]
      exact h.submitted sid'

/-- An update that changes no row adds none. -/
theorem Marks.touch (h : Marks state S) {sid : String} {f : SampleRow → SampleRow}
    (hf : f (state.row sid) = state.row sid) : Marks (state.updateRow sid f) S where
  mem := by
    intro sid'
    rw [row_updateRow]
    by_cases hs : sid' = sid
    · rw [if_pos hs, hf, hs]
      exact h.mem sid
    · rw [if_neg hs]
      exact h.mem sid'
  submitted := by
    intro sid'
    rw [row_updateRow]
    by_cases hs : sid' = sid
    · rw [if_pos hs, hf]
      exact h.submitted sid
    · rw [if_neg hs]
      exact h.submitted sid'

/-- A sample the step may leave a status on: `APPLY_PARAMETERS` any, the later
steps only a sample that has one. -/
def Admits (step : Step) (S : Finset String) (sid : String) : Prop :=
  step = .applyParameters ∨ sid ∈ S

variable {step : Step} {r : StepRun}

theorem Admits.row {sid : String} (ha : Admits step S sid) (h : Marks state S) :
    step = .applyParameters ∨ Applied (state.row sid) :=
  ha.imp_right (h.mem sid).mp

theorem Admits.mono {S' : Finset String} (hS : S ⊆ S') {sid : String}
    (ha : Admits step S sid) : Admits step S' sid :=
  ha.imp_right fun hs => hS hs

theorem lookupItem_marks (h : Marks r.state S) {item : Item}
    (ha : Admits step S item.sid) :
    Marks (lookupItem step r item).state
      (if item.cached then insert item.sid S else S) := by
  unfold lookupItem
  split
  · exact h.update (f := fun row => setStatus row step.canonicalPrefix 0 "cached")
      (setStatus_keeps (ha.row h) _ _)
  · exact h.touch rfl

theorem awaitItem_marks (env : StepEnv) (h : Marks r.state S) {sid : String}
    (ha : Admits step S sid) :
    Marks (awaitItem step env r sid).state
      (if (env.awaited sid).settles then insert sid S else S) := by
  have hrow := ha.row h
  show Marks (r.state.updateRow sid ((env.awaited sid).apply step)) _
  cases env.awaited sid with
  | succeeds => exact h.update (setStatus_keeps hrow _ _)
  | fails error => exact h.update (recordFailure_keeps hrow error)
  | lost => exact h.touch rfl
  | cleared =>
    cases step with
    | applyParameters => exact h.touch rfl
    | extractKpis => exact h.touch rfl
    | runOpenstudioSim =>
      -- popping the simulation's keys leaves the apply status in place
      have hs : sid ∈ S := ha.resolve_left (fun he => nomatch he)
      have hu := h.update (clearFailure_keeps ((h.mem sid).mp hs))
      rw [Finset.insert_eq_of_mem hs] at hu
      exact hu

theorem recordUnsuccessful_marks (h : Marks r.state S) {sid : String}
    (ha : Admits step S sid) :
    Marks (recordUnsuccessful step r sid).state (insert sid S) := by
  unfold recordUnsuccessful
  split
  next hok =>
    -- an "ok" is a status: of the apply step itself, or of a marked sample
    have hs : sid ∈ S := by
      rcases ha with rfl | hs
      · rw [h.mem sid, Applied, show Prefix.apply = Step.applyParameters.canonicalPrefix from rfl,
          hok]
        rfl
      · exact hs
    rw [Finset.insert_eq_of_mem hs]
    exact h
  next => exact h.update (markUnsuccessful_keeps (ha.row h))

/-- The samples phase 1 finds in the cache. -/
def cachedIds (items : List Item) : Finset String :=
  ((items.filter Item.cached).map Item.sid).toFinset

theorem lookups_marks {items : List Item} (h : Marks r.state S)
    (ha : ∀ item ∈ items, Admits step S item.sid) :
    Marks (items.foldl (lookupItem step) r).state (S ∪ cachedIds items) := by
  induction items generalizing r S with
  | nil => simpa [cachedIds] using h
  | cons item items ih =>
    have hstep := lookupItem_marks h (ha item List.mem_cons_self)
    have hrest := fun it hi => ha it (List.mem_cons_of_mem item hi)
    by_cases hc : item.cached
    · rw [if_pos hc] at hstep
      have := ih hstep fun it hi => (hrest it hi).mono (Finset.subset_insert _ _)
      rw [Finset.insert_union, ← Finset.union_insert] at this
      simpa [cachedIds, hc] using this
    · rw [if_neg hc] at hstep
      simpa [cachedIds, hc] using ih hstep hrest

theorem awaits_marks {env : StepEnv} {sids : List String} (h : Marks r.state S)
    (ha : ∀ sid ∈ sids, Admits step S sid) :
    Marks (sids.foldl (awaitItem step env) r).state
      (S ∪ (sids.filter fun sid => (env.awaited sid).settles).toFinset) := by
  induction sids generalizing r S with
  | nil => simpa using h
  | cons sid sids ih =>
    have hstep := awaitItem_marks env h (ha sid List.mem_cons_self)
    have hrest := fun sid' hi => ha sid' (List.mem_cons_of_mem sid hi)
    by_cases hc : (env.awaited sid).settles
    · rw [if_pos hc] at hstep
      have := ih hstep fun sid' hi => (hrest sid' hi).mono (Finset.subset_insert _ _)
      rw [Finset.insert_union, ← Finset.union_insert] at this
      simpa [hc] using this
    · rw [if_neg hc] at hstep
      simpa [hc] using ih hstep hrest

theorem unsuccessful_marks {sids : List String} (h : Marks r.state S)
    (ha : ∀ sid ∈ sids, Admits step S sid) :
    Marks (sids.foldl (recordUnsuccessful step) r).state (S ∪ sids.toFinset) := by
  induction sids generalizing r S with
  | nil => simpa using h
  | cons sid sids ih =>
    have hstep := recordUnsuccessful_marks h (ha sid List.mem_cons_self)
    have := ih hstep fun sid' hi =>
      (ha sid' (List.mem_cons_of_mem sid hi)).mono (Finset.subset_insert _ _)
    rw [Finset.insert_union, ← Finset.union_insert] at this
    simpa using this

/-! ## The submission loop -/

/-- At every chunk boundary fewer than `limit` samples have a status, if a chunk
leaves one on the samples of it that `settles` says. -/
def Boundaries (limit : Nat) (settles : String → Bool) :
    Finset String → List (List String) → Prop
  | _, [] => True
  | S, chunk :: rest =>
    S.card < limit ∧ Boundaries limit settles (S ∪ (chunk.filter settles).toFinset) rest

instance decidableBoundaries (limit : Nat) (settles : String → Bool) :
    (S : Finset String) → (chunks : List (List String)) →
      Decidable (Boundaries limit settles S chunks)
  | _, [] => inferInstanceAs (Decidable True)
  | S, chunk :: rest =>
    have := decidableBoundaries limit settles (S ∪ (chunk.filter settles).toFinset) rest
    inferInstanceAs (Decidable (S.card < limit ∧
      Boundaries limit settles (S ∪ (chunk.filter settles).toFinset) rest))

/-- Samples that have a status already change no boundary. -/
theorem boundaries_of_mem {limit : Nat} {settles : String → Bool}
    {chunks : List (List String)} (hc : ∀ sid ∈ chunks.flatten, sid ∈ S) :
    Boundaries limit settles S chunks ↔ (chunks ≠ [] → S.card < limit) := by
  induction chunks with
  | nil => simp [Boundaries]
  | cons chunk rest ih =>
    have hsub : (chunk.filter settles).toFinset ⊆ S := by
      intro sid hs
      exact hc sid (List.mem_append_left _ (List.mem_filter.mp (List.mem_toFinset.mp hs)).1)
    have hrest := ih fun sid hs => hc sid (List.mem_append_right _ hs)
    rw [Boundaries, Finset.union_eq_left.mpr hsub, hrest]
    constructor
    · intro h _
      exact h.1
    · intro h
      have hlt := h (List.cons_ne_nil _ _)
      exact ⟨hlt, fun _ => hlt⟩

theorem runChunk_marks (env : StepEnv) (h : Marks r.state S) {chunk : List String}
    (ha : ∀ sid ∈ chunk, Admits step S sid) :
    Marks (runChunk step env r chunk).state
      (S ∪ (chunk.filter fun sid => (env.awaited sid).settles).toFinset) := by
  have hperm := env.completion_perm chunk
  rw [← List.toFinset_eq_of_perm _ _ (hperm.filter _)]
  exact awaits_marks (r := { r with submitted := r.submitted ++ chunk }) h
    fun sid hs => ha sid (hperm.mem_iff.mp hs)

theorem awaits_frame (env : StepEnv) (sids : List String) (r : StepRun) :
    (sids.foldl (awaitItem step env) r).submitted = r.submitted ∧
      (sids.foldl (awaitItem step env) r).stopped = r.stopped := by
  induction sids generalizing r with
  | nil => exact ⟨rfl, rfl⟩
  | cons sid sids ih => exact ih (awaitItem step env r sid)

theorem unsuccessful_frame (sids : List String) (r : StepRun) :
    (sids.foldl (recordUnsuccessful step) r).submitted = r.submitted ∧
      (sids.foldl (recordUnsuccessful step) r).stopped = r.stopped := by
  induction sids generalizing r with
  | nil => exact ⟨rfl, rfl⟩
  | cons sid sids ih =>
    have hstep : (recordUnsuccessful step r sid).submitted = r.submitted ∧
        (recordUnsuccessful step r sid).stopped = r.stopped := by
      unfold recordUnsuccessful
      split
      · exact ⟨rfl, rfl⟩
      · exact ⟨rfl, rfl⟩
    have hrest := ih (recordUnsuccessful step r sid)
    exact ⟨hrest.1.trans hstep.1, hrest.2.trans hstep.2⟩

theorem lookups_frame (items : List Item) (r : StepRun) :
    (items.foldl (lookupItem step) r).submitted = r.submitted ∧
      (items.foldl (lookupItem step) r).stopped = r.stopped := by
  induction items generalizing r with
  | nil => exact ⟨rfl, rfl⟩
  | cons item items ih =>
    have hstep : (lookupItem step r item).submitted = r.submitted ∧
        (lookupItem step r item).stopped = r.stopped := by
      unfold lookupItem
      split
      · exact ⟨rfl, rfl⟩
      · exact ⟨rfl, rfl⟩
    have hrest := ih (lookupItem step r item)
    exact ⟨hrest.1.trans hstep.1, hrest.2.trans hstep.2⟩

/-- A loop the quota does not stop submits every chunk. -/
theorem submitLoop_eq {quota : Option ResourceQuota} {env : StepEnv}
    {chunks : List (List String)} {n : Nat}
    (h : (submitLoop quota step env chunks n r).stopped = false) :
    submitLoop quota step env chunks n r = chunks.foldl (runChunk step env) r := by
  induction chunks generalizing n r with
  | nil => rfl
  | cons chunk rest ih =>
    unfold submitLoop at h ⊢
    split
    next hq =>
      rw [if_pos hq] at h
      exact nomatch h
    next hq =>
      rw [if_neg hq] at h
      exact ih h

/-- Stopped or not, the loop marks no sample it was not handed. -/
theorem submitLoop_marks (quota : Option ResourceQuota) (env : StepEnv)
    {chunks : List (List String)} (n : Nat) (h : Marks r.state S)
    (ha : ∀ sid ∈ chunks.flatten, Admits step S sid) :
    ∃ S', S ⊆ S' ∧ S' ⊆ S ∪ chunks.flatten.toFinset ∧
      Marks (submitLoop quota step env chunks n r).state S' := by
  induction chunks generalizing n r S with
  | nil => exact ⟨S, Finset.Subset.refl S, Finset.subset_union_left, h⟩
  | cons chunk rest ih =>
    unfold submitLoop
    split
    · exact ⟨S, Finset.Subset.refl S, Finset.subset_union_left, h⟩
    · have hchunk := runChunk_marks env h
        fun sid hs => ha sid (List.mem_append_left _ hs)
      obtain ⟨S', hlo, hhi, hm⟩ := ih (n + 1) hchunk fun sid hs =>
        (ha sid (List.mem_append_right _ hs)).mono Finset.subset_union_left
      refine ⟨S', Finset.subset_union_left.trans hlo, hhi.trans ?_, hm⟩
      intro sid
      simp only [Finset.mem_union, List.mem_toFinset, List.mem_filter, List.flatten_cons,
        List.mem_append]
      rintro ((hs | hs) | hs)
      · exact Or.inl hs
      · exact Or.inr (Or.inl hs.1)
      · exact Or.inr (Or.inr hs)

/-- The loop is stopped exactly at a boundary that is not met. -/
theorem submitLoop_stopped_iff {quota : ResourceQuota} {limit : Nat}
    (hm : quota.maxSamples = some limit) {env : StepEnv}
    (haff : ∀ n, quota.Affords (env.spent n)) {chunks : List (List String)} {n : Nat}
    (h : Marks r.state S) (hs : r.stopped = false)
    (ha : ∀ sid ∈ chunks.flatten, Admits step S sid) :
    (submitLoop (some quota) step env chunks n r).stopped = false ↔
      Boundaries limit (fun sid => (env.awaited sid).settles) S chunks := by
  induction chunks generalizing n r S with
  | nil => exact ⟨fun _ => trivial, fun _ => hs⟩
  | cons chunk rest ih =>
    have hcheck := checkQuotaExceeded_eq hm (haff n) r.state
    rw [h.count] at hcheck
    unfold submitLoop Boundaries
    rw [hcheck]
    by_cases hlt : S.card < limit
    · have hchunk := runChunk_marks env h
        fun sid hs => ha sid (List.mem_append_left _ hs)
      have hrun : (runChunk step env r chunk).stopped = false :=
        (awaits_frame env _ _).2.trans hs
      rw [if_neg (by simpa using hlt), ih hchunk hrun fun sid hs =>
        (ha sid (List.mem_append_right _ hs)).mono Finset.subset_union_left]
      simp only [hlt, true_and]
    · rw [if_pos (by simpa using hlt)]
      simp [hlt]

end Marks

/-! ## The chunks -/

theorem flatten_chunksOf {α : Type} {size : Nat} (hs : 0 < size) {fuel : Nat}
    {xs : List α} (hf : xs.length ≤ fuel) : (chunksOf size fuel xs).flatten = xs := by
  induction fuel generalizing xs with
  | zero => rw [List.length_eq_zero_iff.mp (Nat.le_zero.mp hf)]; rfl
  | succ fuel ih =>
    unfold chunksOf
    cases xs with
    | nil => rfl
    | cons x xs =>
      have hlen : ((x :: xs).drop size).length ≤ fuel := by
        rw [List.length_drop]
        rw [List.length_cons] at hf ⊢
        omega
      rw [if_neg (by simp), List.flatten_cons, ih hlen, List.take_append_drop]

theorem mem_pendingOf {items : List Item} {sid : String} :
    sid ∈ pendingOf items ↔ ∃ item ∈ items, item.cached = false ∧ item.sid = sid := by
  have hfold : ∀ (its : List Item) (l : List String),
      sid ∈ its.foldl (fun pending item =>
        if item.cached then pending else upsert id item.sid pending) l ↔
      sid ∈ l ∨ ∃ item ∈ its, item.cached = false ∧ item.sid = sid := by
    intro its
    induction its with
    | nil => simp
    | cons item its ih =>
      intro l
      rw [List.foldl_cons, ih]
      by_cases hc : item.cached
      · simp [hc]
      · rw [if_neg hc, mem_upsert_id, or_comm (a := sid = item.sid), or_assoc,
          eq_comm (a := sid), List.exists_mem_cons_iff]
        simp [hc]
  rw [pendingOf, hfold]
  simp

theorem nodup_pendingOf (items : List Item) : (pendingOf items).Nodup := by
  have hfold : ∀ (its : List Item) (l : List String), l.Nodup →
      (its.foldl (fun pending item =>
        if item.cached then pending else upsert id item.sid pending) l).Nodup := by
    intro its
    induction its with
    | nil => exact fun _ h => h
    | cons item its ih =>
      intro l h
      rw [List.foldl_cons]
      split
      · exact ih l h
      · exact ih _ (nodup_upsert_id h)
  exact hfold items [] List.nodup_nil

theorem mem_cachedIds {items : List Item} {sid : String} :
    sid ∈ cachedIds items ↔ ∃ item ∈ items, item.cached = true ∧ item.sid = sid := by
  simp [cachedIds, and_assoc]

/-- Every sample handed to the step is looked up or submitted. -/
theorem cachedIds_union_pendingOf (items : List Item) :
    cachedIds items ∪ (pendingOf items).toFinset = (items.map Item.sid).toFinset := by
  ext sid
  rw [Finset.mem_union, List.mem_toFinset, List.mem_toFinset, List.mem_map, mem_cachedIds,
    mem_pendingOf]
  constructor
  · rintro (⟨item, hi, -, hs⟩ | ⟨item, hi, -, hs⟩)
    · exact ⟨item, hi, hs⟩
    · exact ⟨item, hi, hs⟩
  · rintro ⟨item, hi, hs⟩
    cases hc : item.cached with
    | true => exact Or.inl ⟨item, hi, hc, hs⟩
    | false => exact Or.inr ⟨item, hi, hc, hs⟩

/-! ## What comes out -/

/-- The step's own status is "ok". -/
def StepRun.Ok (step : Step) (r : StepRun) (sid : String) : Prop :=
  (r.state.row sid).get? (.status step.canonicalPrefix) = some (.str "ok")

theorem setStatus_status (row : SampleRow) (p : Prefix) (code : Int) (status : String) :
    (setStatus row p code status).get? (.status p) = some (.str status) :=
  Dict.get?_set_self _ _ _

theorem apply_ok (step : Step) {a : Awaited} (row : SampleRow)
    (h : a.isSuccess = true) :
    (a.apply step row).get? (.status step.canonicalPrefix) = some (.str "ok") := by
  cases a with
  | succeeds => exact setStatus_status row _ 0 "ok"
  | fails _ => exact nomatch h
  | lost => exact nomatch h
  | cleared => exact nomatch h

/-- Only a success makes the status "ok". -/
theorem apply_ok_of (step : Step) {a : Awaited} {row : SampleRow}
    (h : (a.apply step row).get? (.status step.canonicalPrefix) = some (.str "ok")) :
    a.isSuccess = true ∨ row.get? (.status step.canonicalPrefix) = some (.str "ok") := by
  cases a with
  | succeeds => exact Or.inl rfl
  | lost => exact Or.inr h
  | fails error =>
    -- the status is the "failed" that `mark_sample_failed` assigned
    cases step <;>
      simp [Awaited.apply, recordFailure, Fanout.setStatus, Step.canonicalPrefix] at h
  | cleared =>
    cases step with
    | applyParameters => exact Or.inr h
    | extractKpis => exact Or.inr h
    | runOpenstudioSim =>
      simp [Awaited.apply, clearFailure, Step.canonicalPrefix] at h

/-- `r'` is `r` after the samples `sids` were awaited. -/
structure AwaitedOver (step : Step) (env : StepEnv) (sids : List String)
    (r r' : StepRun) : Prop where
  mem_out : ∀ sid, sid ∈ r'.out ↔
    sid ∈ r.out ∨ sid ∈ sids ∧ (env.awaited sid).isSuccess = true
  nodup : r.out.Nodup → r'.out.Nodup
  ok : ∀ sid, (env.awaited sid).isSuccess = true → r.Ok step sid ∨ sid ∈ sids → r'.Ok step sid
  of_ok : ∀ sid, r'.Ok step sid →
    r.Ok step sid ∨ sid ∈ sids ∧ (env.awaited sid).isSuccess = true

section AwaitedOver

variable {step : Step} {env : StepEnv} {r r' r'' : StepRun} {sids sids' : List String}

theorem AwaitedOver.nil (r : StepRun) : AwaitedOver step env [] r r where
  mem_out := by simp
  nodup := id
  ok := by simp
  of_ok := by simp

theorem AwaitedOver.append (h : AwaitedOver step env sids r r')
    (h' : AwaitedOver step env sids' r' r'') :
    AwaitedOver step env (sids ++ sids') r r'' where
  mem_out := by
    intro sid
    rw [h'.mem_out, h.mem_out, List.mem_append, or_and_right, or_assoc]
  nodup := fun hn => h'.nodup (h.nodup hn)
  ok := by
    intro sid hsucc hs
    rw [List.mem_append, ← or_assoc] at hs
    exact h'.ok sid hsucc (hs.imp_left (h.ok sid hsucc))
  of_ok := by
    intro sid hok
    rw [List.mem_append, or_and_right, ← or_assoc]
    exact (h'.of_ok sid hok).imp_left (h.of_ok sid)

theorem AwaitedOver.perm (h : AwaitedOver step env sids r r') (hp : sids.Perm sids') :
    AwaitedOver step env sids' r r' where
  mem_out := fun sid => by rw [h.mem_out, hp.mem_iff]
  nodup := h.nodup
  ok := fun sid => by rw [← hp.mem_iff]; exact h.ok sid
  of_ok := fun sid => by rw [← hp.mem_iff]; exact h.of_ok sid

theorem awaitItem_over (step : Step) (env : StepEnv) (r : StepRun) (sid : String) :
    AwaitedOver step env [sid] r (awaitItem step env r sid) where
  mem_out := by
    intro sid'
    unfold awaitItem
    rw [List.mem_singleton]
    by_cases hsucc : (env.awaited sid).isSuccess
    · simp only [hsucc, if_true, mem_upsert_id]
      constructor
      · rintro (rfl | hm)
        · exact Or.inr ⟨rfl, hsucc⟩
        · exact Or.inl hm
      · rintro (hm | ⟨rfl, -⟩)
        · exact Or.inr hm
        · exact Or.inl rfl
    · simp only [hsucc]
      constructor
      · exact Or.inl
      · rintro (hm | ⟨rfl, hs⟩)
        · exact hm
        · exact absurd hs hsucc
  nodup := by
    intro hn
    unfold awaitItem
    dsimp only
    split
    · exact nodup_upsert_id hn
    · exact hn
  ok := by
    intro sid' hsucc hs
    unfold StepRun.Ok awaitItem at *
    rw [row_updateRow]
    by_cases he : sid' = sid
    · rw [if_pos he]
      exact apply_ok step _ (he ▸ hsucc)
    · rw [if_neg he]
      exact hs.resolve_right (by simpa using he)
  of_ok := by
    intro sid' hok
    unfold StepRun.Ok awaitItem at *
    rw [row_updateRow] at hok
    by_cases he : sid' = sid
    · rw [if_pos he] at hok
      rcases apply_ok_of step hok with hs | hs
      · exact Or.inr ⟨List.mem_singleton.mpr he, he ▸ hs⟩
      · exact Or.inl (he ▸ hs)
    · rw [if_neg he] at hok
      exact Or.inl hok

theorem awaits_over (step : Step) (env : StepEnv) (sids : List String) (r : StepRun) :
    AwaitedOver step env sids r (sids.foldl (awaitItem step env) r) := by
  induction sids generalizing r with
  | nil => exact AwaitedOver.nil r
  | cons sid sids ih => exact (awaitItem_over step env r sid).append (ih _)

theorem runChunks_over (step : Step) (env : StepEnv) (chunks : List (List String)) (r : StepRun) :
    AwaitedOver step env chunks.flatten r (chunks.foldl (runChunk step env) r) := by
  induction chunks generalizing r with
  | nil => exact AwaitedOver.nil r
  | cons chunk chunks ih =>
    have hchunk : AwaitedOver step env chunk r (runChunk step env r chunk) := by
      have h := awaits_over step env (env.completion chunk)
        { r with submitted := r.submitted ++ chunk }
      have hp := h.perm (env.completion_perm chunk)
      exact ⟨hp.mem_out, hp.nodup, hp.ok, hp.of_ok⟩
    exact hchunk.append (ih _)

theorem runChunks_submitted (chunks : List (List String)) (r : StepRun) :
    (chunks.foldl (runChunk step env) r).submitted = r.submitted ++ chunks.flatten := by
  induction chunks generalizing r with
  | nil => simp
  | cons chunk chunks ih =>
    rw [List.foldl_cons, ih, runChunk, (awaits_frame env _ _).1, List.flatten_cons,
      List.append_assoc]

/-- After phase 1: the cached samples are in `out`, and none of them is "ok". -/
theorem lookups_out (step : Step) (items : List Item) (r : StepRun) :
    (∀ sid, sid ∈ (items.foldl (lookupItem step) r).out ↔
        sid ∈ r.out ∨ sid ∈ cachedIds items) ∧
      (r.out.Nodup → (items.foldl (lookupItem step) r).out.Nodup) ∧
      ∀ sid, (items.foldl (lookupItem step) r).Ok step sid →
        r.Ok step sid ∧ sid ∉ cachedIds items := by
  induction items generalizing r with
  | nil => simp [cachedIds]
  | cons item items ih =>
    obtain ⟨hmem, hnodup, hok⟩ := ih (lookupItem step r item)
    rw [List.foldl_cons]
    by_cases hc : item.cached
    · have hr : lookupItem step r item = { r with
          state := r.state.updateRow item.sid
            (fun row => setStatus row step.canonicalPrefix 0 "cached")
          out := upsert id item.sid r.out } := if_pos hc
      have hids : ∀ sid, sid ∈ cachedIds (item :: items) ↔
          sid = item.sid ∨ sid ∈ cachedIds items := by
        intro sid
        simp [cachedIds, hc]
      refine ⟨fun sid => ?_, fun hn => hnodup ?_, fun sid h => ?_⟩
      · rw [hmem, hr, mem_upsert_id, hids]
        rw [or_comm (a := sid = item.sid), or_assoc]
      · rw [hr]
        exact nodup_upsert_id hn
      · obtain ⟨hr', hni⟩ := hok sid h
        rw [hr, StepRun.Ok, row_updateRow] at hr'
        by_cases he : sid = item.sid
        · rw [if_pos he, setStatus_status] at hr'
          exact absurd hr' (by decide)
        · rw [if_neg he] at hr'
          exact ⟨hr', fun hm => ((hids sid).mp hm).elim he hni⟩
    · have hrow : ∀ sid, (lookupItem step r item).state.row sid = r.state.row sid := by
        intro sid
        rw [lookupItem, if_neg hc, row_updateRow]
        split
        next he => rw [he]; rfl
        next => rfl
      have hout : (lookupItem step r item).out = r.out := by
        rw [lookupItem, if_neg hc]
      have hids : cachedIds (item :: items) = cachedIds items := by
        simp [cachedIds, hc]
      rw [hout] at hmem hnodup
      rw [hids]
      refine ⟨hmem, hnodup, fun sid h => ?_⟩
      obtain ⟨hr', hni⟩ := hok sid h
      rw [StepRun.Ok, hrow] at hr'
      exact ⟨hr', hni⟩

/-- The failure recording takes out what is pending and not "ok". -/
theorem unsuccessful_out (step : Step) (sids : List String) (r : StepRun) (hn : r.out.Nodup) :
    (sids.foldl (recordUnsuccessful step) r).out.Nodup ∧
      ∀ sid, sid ∈ (sids.foldl (recordUnsuccessful step) r).out ↔
        sid ∈ r.out ∧ (sid ∈ sids → r.Ok step sid) := by
  induction sids generalizing r with
  | nil => exact ⟨hn, fun sid => by simp⟩
  | cons s sids ih =>
    rw [List.foldl_cons]
    by_cases hok : r.Ok step s
    · have hr : recordUnsuccessful step r s = r := if_pos hok
      rw [hr]
      obtain ⟨hnodup, hmem⟩ := ih r hn
      refine ⟨hnodup, fun sid => ?_⟩
      rw [hmem, List.mem_cons]
      constructor
      · intro h
        refine ⟨h.1, fun hs => ?_⟩
        rcases hs with rfl | hs
        · exact hok
        · exact h.2 hs
      · intro h
        exact ⟨h.1, fun hs => h.2 (Or.inr hs)⟩
    · have hr : recordUnsuccessful step r s =
          { r with state := r.state.updateRow s (markUnsuccessful step)
                   out := r.out.erase s } := if_neg hok
      obtain ⟨hnodup, hmem⟩ := ih (recordUnsuccessful step r s) (by
        rw [hr]
        exact hn.erase s)
      refine ⟨hnodup, fun sid => ?_⟩
      rw [hmem, hr, List.mem_cons, StepRun.Ok, row_updateRow]
      dsimp only
      rw [hn.mem_erase_iff]
      by_cases he : sid = s
      · -- taken out, and back in only if it were "ok"
        constructor
        · intro h
          exact absurd he h.1.1
        · intro h
          exact absurd (he ▸ h.2 (Or.inl he)) hok
      · rw [if_neg he]
        simp only [he, ne_eq, not_false_eq_true, true_and, false_or]
        exact Iff.rfl

end AwaitedOver

/-! ## The step as a whole -/

section RunStep

variable {quota : Option ResourceQuota} {step : Step} {env : StepEnv}
  {state : SampleState} {S : Finset String} {items : List Item}

/-- The chunks of the step. -/
def chunksFor (env : StepEnv) (items : List Item) : List (List String) :=
  chunksOf (env.chunkSize (pendingOf items).length) (pendingOf items).length
    (pendingOf items)

theorem flatten_chunksFor (env : StepEnv) (items : List Item) :
    (chunksFor env items).flatten = pendingOf items :=
  flatten_chunksOf (env.chunkSize_pos _) (Nat.le_refl _)

theorem admits_pending (S' : Finset String) (hS : S ⊆ S')
    (ha : ∀ item ∈ items, Admits step S item.sid) :
    ∀ sid ∈ pendingOf items, Admits step S' sid := by
  intro sid hs
  obtain ⟨item, hi, -, rfl⟩ := mem_pendingOf.mp hs
  exact (ha item hi).mono hS

/-- Every sample handed to the step has a status after it. -/
theorem runStep_marks (quota : Option ResourceQuota) (env : StepEnv) (h : Marks state S)
    (ha : ∀ item ∈ items, Admits step S item.sid) :
    Marks (runStep quota step env state items).state
      (S ∪ (items.map Item.sid).toFinset) := by
  have hlook := lookups_marks (r := ⟨state, [], [], false⟩) h ha
  have hpend := admits_pending (S ∪ cachedIds items) Finset.subset_union_left ha
  rw [← flatten_chunksFor env items] at hpend
  obtain ⟨S', hlo, hhi, hm⟩ := submitLoop_marks quota env 0 hlook hpend
  rw [flatten_chunksFor] at hpend hhi
  have hend := unsuccessful_marks hm fun sid hs => (hpend sid hs).mono hlo
  -- between what the loop marked and all that is pending there is no gap
  have hset : S' ∪ (pendingOf items).toFinset = S ∪ (items.map Item.sid).toFinset := by
    rw [← cachedIds_union_pendingOf, ← Finset.union_assoc]
    apply Finset.Subset.antisymm
    · exact Finset.union_subset hhi Finset.subset_union_right
    · exact Finset.union_subset_union_left hlo
  rw [hset] at hend
  exact hend

/-- When the quota stops the step. -/
theorem runStep_stopped_iff {quota : ResourceQuota} {limit : Nat}
    (hm : quota.maxSamples = some limit) (haff : ∀ n, quota.Affords (env.spent n))
    (h : Marks state S) (ha : ∀ item ∈ items, Admits step S item.sid) :
    (runStep (some quota) step env state items).stopped = false ↔
      Boundaries limit (fun sid => (env.awaited sid).settles) (S ∪ cachedIds items)
        (chunksFor env items) := by
  have hlook := lookups_marks (r := ⟨state, [], [], false⟩) h ha
  have hpend := admits_pending (S ∪ cachedIds items) Finset.subset_union_left ha
  rw [← flatten_chunksFor env items] at hpend
  rw [← submitLoop_stopped_iff hm haff (n := 0) hlook (lookups_frame items _).2 hpend,
    runStep, (unsuccessful_frame _ _).2]
  rfl

/-- A step whose samples have a status already meets one boundary or all. -/
theorem runStep_stopped_iff_of_mem {quota : ResourceQuota} {limit : Nat}
    (hm : quota.maxSamples = some limit) (haff : ∀ n, quota.Affords (env.spent n))
    (h : Marks state S) (ha : ∀ item ∈ items, item.sid ∈ S) :
    (runStep (some quota) step env state items).stopped = false ↔
      (pendingOf items ≠ [] → S.card < limit) := by
  have hids : cachedIds items ⊆ S := by
    intro sid hs
    obtain ⟨item, hi, -, rfl⟩ := mem_cachedIds.mp hs
    exact ha item hi
  have hpend : ∀ sid ∈ (chunksFor env items).flatten, sid ∈ S := by
    rw [flatten_chunksFor]
    intro sid hs
    obtain ⟨item, hi, -, rfl⟩ := mem_pendingOf.mp hs
    exact ha item hi
  rw [runStep_stopped_iff hm haff h fun item hi => Or.inr (ha item hi),
    Finset.union_eq_left.mpr hids, boundaries_of_mem hpend]
  have hnil : chunksFor env items ≠ [] ↔ pendingOf items ≠ [] := by
    rw [not_iff_not, chunksFor]
    cases hp : pendingOf items with
    | nil => exact ⟨fun _ => rfl, fun _ => rfl⟩
    | cons sid rest => simp [chunksOf]
  rw [hnil]

/-- The step from phase 1 on, when the quota does not stop it. -/
theorem runStep_eq (h : (runStep quota step env state items).stopped = false) :
    runStep quota step env state items =
      (pendingOf items).foldl (recordUnsuccessful step)
        ((chunksFor env items).foldl (runChunk step env)
          (items.foldl (lookupItem step) ⟨state, [], [], false⟩)) := by
  have hloop : (submitLoop quota step env (chunksFor env items) 0
      (items.foldl (lookupItem step) ⟨state, [], [], false⟩)).stopped = false := by
    rw [runStep, (unsuccessful_frame _ _).2] at h
    exact h
  rw [← submitLoop_eq hloop]
  rfl

/-- Not stopped, the step submits everything the cache does not have. -/
theorem runStep_submitted (h : (runStep quota step env state items).stopped = false) :
    (runStep quota step env state items).submitted = pendingOf items := by
  rw [runStep_eq h, (unsuccessful_frame _ _).1, runChunks_submitted, flatten_chunksFor,
    (lookups_frame items _).1]
  rfl

/-- A sample comes out of a step that was not stopped. -/
def Passes (env : StepEnv) (items : List Item) (sid : String) : Prop :=
  if sid ∈ pendingOf items then (env.awaited sid).isSuccess = true
  else sid ∈ cachedIds items

theorem runStep_out (h : (runStep quota step env state items).stopped = false) :
    (runStep quota step env state items).out.Nodup ∧
      ∀ sid, sid ∈ (runStep quota step env state items).out ↔ Passes env items sid := by
  obtain ⟨hlook, hlookn, hlookok⟩ :=
    lookups_out step items ⟨state, [], [], false⟩
  have hrun := runChunks_over step env (chunksFor env items)
    (items.foldl (lookupItem step) ⟨state, [], [], false⟩)
  rw [flatten_chunksFor] at hrun
  have hend := unsuccessful_out step (pendingOf items) _
    (hrun.nodup (hlookn List.nodup_nil))
  rw [runStep_eq h]
  refine ⟨hend.1, fun sid => ?_⟩
  rw [hend.2, hrun.mem_out, hlook, Passes]
  by_cases hp : sid ∈ pendingOf items
  · rw [if_pos hp]
    constructor
    · rintro ⟨hout, hok⟩
      rcases hrun.of_ok sid (hok hp) with hbefore | hs
      · rcases hout with (hm | hc) | hs
        · exact nomatch hm
        · exact absurd hc (hlookok sid hbefore).2
        · exact hs.2
      · exact hs.2
    · intro hs
      exact ⟨Or.inr ⟨hp, hs⟩, fun _ => hrun.ok sid hs (Or.inr hp)⟩
  · rw [if_neg hp]
    constructor
    · rintro ⟨(hm | hc) | hs, -⟩
      · exact nomatch hm
      · exact hc
      · exact absurd hs.1 hp
    · intro hc
      exact ⟨Or.inl (Or.inr hc), fun hs => absurd hs hp⟩

end RunStep

end OSimFlow.Campaign
