import Mathlib.Algebra.Order.Field.Rat
import OSimFlow.Lib.Run

/-!
# The Spot price ceiling of AWS Batch

`_do_submit` looks the Spot price up, in a cache with a lifetime, and submits to the Spot
queue only if it is not above the ceiling; above it the job goes to the on-demand route, or
the call raises. A job that is interrupted is submitted again with the parameters of the
first time, and when the retries are used up to the on-demand route. Neither looks the price
up again.

> `Proper`: a submission to the Spot route is one of a job that was not priced out, and the
> price obtained last is within the ceiling and its lifetime.
>
> `proper_iff`: a run makes proper submissions only, exactly if no interrupted job on the
> Spot route is submitted again when that is not so, and no job is priced out to an
> on-demand route that is the Spot route.

The constructor compares the routes before the default of the definition is filled in. A
submission takes one moment, and one that AWS rejects counts.
-/

namespace OSimFlow.Executors.SpotCeiling

open OSimFlow.Lib (Always Along always_iff_along_within)

/-! ## Routes -/

/-- A string that is there and not empty. -/
def Truthy (s : Option String) : Prop := s ≠ none ∧ s ≠ some ""

instance (s : Option String) : Decidable (Truthy s) :=
  inferInstanceAs (Decidable (_ ∧ _))

/-- `s or default`. -/
def orDefault (s : Option String) (default : String) : String :=
  if Truthy s then s.getD default else default

/-- The queue and the definition that a job is submitted to. -/
structure Route where
  queue : String
  definition : String
deriving DecidableEq

/-- `job_queue` and `job_definition` in the parameters of a submission. -/
structure Overrides where
  jobQueue : Option String
  jobDefinition : Option String
deriving DecidableEq

/-- `{**params, **route}`. -/
def Overrides.merge (params route : Overrides) : Overrides where
  jobQueue := route.jobQueue.or params.jobQueue
  jobDefinition := route.jobDefinition.or params.jobDefinition

/-- The executor as it is constructed, with a ceiling; `checked` is what the constructor
checks. -/
structure AWSBatchExecutor where
  jobQueue : String
  jobDefinition : Option String
  maxSpotPriceUsd : ℚ
  fallbackToOnDemand : Bool
  maxRetries : Nat
  onDemandJobQueue : Option String
  onDemandJobDefinition : Option String
  checked : fallbackToOnDemand = true → Truthy onDemandJobQueue ∧
    ¬ (onDemandJobQueue = some jobQueue ∧
      (¬ Truthy onDemandJobDefinition ∨ onDemandJobDefinition = jobDefinition))

namespace AWSBatchExecutor

variable (ex : AWSBatchExecutor)

/-- The route that `_submit_job` takes. -/
def route (params : Overrides) : Route where
  queue := orDefault params.jobQueue ex.jobQueue
  definition := orDefault params.jobDefinition (orDefault ex.jobDefinition "osimflow-job-def")

/-- Where a job goes whose parameters name no route. -/
def spotRoute : Route := ex.route ⟨none, none⟩

/-- `_on_demand_route`. -/
def onDemandRoute : Overrides where
  jobQueue := if Truthy ex.onDemandJobQueue then ex.onDemandJobQueue else none
  jobDefinition := if Truthy ex.onDemandJobDefinition then ex.onDemandJobDefinition else none

end AWSBatchExecutor

/-! ## Prices and submissions -/

/-- A price and when it was obtained. -/
abbrev Quote := ℚ × ℚ

/-- `ttl_s`. -/
def ttl : ℚ := 60

/-- A job that was submitted; `attempt` is that of the running `result`. -/
structure Handle where
  submitParams : Overrides
  pricedOut : Bool
  attempt : Option Nat

/-- A call of `submit_job`, with the price obtained last for the account. -/
structure Submission where
  handle : Nat
  route : Route
  now : ℚ
  pricedOut : Bool
  obtained : Option Quote
deriving DecidableEq

/-- The price cache, the price obtained last for the account, and the jobs. -/
structure State where
  cache : Option Quote
  obtained : Option Quote
  handles : List Handle
  submissions : List Submission

def State.empty : State := ⟨none, none, [], []⟩

/-- What EC2 answers with, and `None` for a query that fails; `existing` is a live job of
the same name that is taken instead. -/
inductive Event where
  /-- The price is looked up, for the cost of a job. -/
  | lookup (now : ℚ) (answer : Option ℚ)
  | submit (now : ℚ) (answer : Option ℚ) (existing : Bool)
  /-- `result` is called. -/
  | result (handle : Nat)
  /-- `result` finds the job interrupted, and has slept. -/
  | interrupted (handle : Nat) (now : ℚ)

/-- The query of `_get_spot_price`. -/
def State.query (s : State) (now : ℚ) : Option ℚ → State × Option ℚ
  | none => ({ s with cache := none }, none)
  | some price => ({ s with cache := some (price, now), obtained := some (price, now) }, some price)

/-- `_get_spot_price`. -/
def State.getSpotPrice (s : State) (now : ℚ) (answer : Option ℚ) : State × Option ℚ :=
  match s.cache with
  | some (price, ts) => if ttl ≤ now - ts then s.query now answer else (s, some price)
  | none => s.query now answer

variable (ex : AWSBatchExecutor)

/-- `_submit_job`. -/
def State.submitJob (s : State) (handle : Nat) (now : ℚ) (params : Overrides)
    (pricedOut : Bool) : State :=
  { s with submissions :=
      s.submissions ++ [⟨handle, ex.route params, now, pricedOut, s.obtained⟩] }

/-- The end of `_do_submit`. -/
def State.start (s : State) (now : ℚ) (existing : Bool) (params : Overrides)
    (pricedOut : Bool) : State :=
  let submitted := if existing then s else s.submitJob ex s.handles.length now params pricedOut
  { submitted with handles := s.handles ++ [⟨params, pricedOut, none⟩] }

/-- The handle goes on with another attempt, or with none. -/
def State.setAttempt (s : State) (handle : Nat) (attempt : Option Nat) : State :=
  { s with handles := s.handles.modify handle fun h => { h with attempt := attempt } }

/-- What `result` does with the parameters of an interrupted job: a retry, or the fallback;
and the next attempt. -/
def AWSBatchExecutor.again (h : Handle) : Option Overrides × Option Nat :=
  match h.attempt with
  | none => (none, none)
  | some attempt =>
    if attempt < ex.maxRetries then (some h.submitParams, some (attempt + 1))
    else if ex.fallbackToOnDemand then (some (h.submitParams.merge ex.onDemandRoute), none)
    else (none, none)

def step (s : State) : Event → State
  | .lookup now answer => (s.getSpotPrice now answer).1
  | .submit now answer existing =>
    match s.getSpotPrice now answer with
    | (s, none) => s
    | (s, some price) =>
      if ex.maxSpotPriceUsd < price then
        if ex.fallbackToOnDemand then
          s.start ex now existing (Overrides.merge ⟨none, none⟩ ex.onDemandRoute) true
        else s
      else s.start ex now existing ⟨none, none⟩ false
  | .result handle => s.setAttempt handle (some 0)
  | .interrupted handle now =>
    match s.handles[handle]? with
    | none => s
    | some h =>
      match ex.again h with
      | (none, next) => s.setAttempt handle next
      | (some params, next) =>
        (s.submitJob ex handle now params h.pricedOut).setAttempt handle next

/-! ## What a submission should be, and what it takes -/

/-- The price obtained last is within its lifetime, and within the ceiling. -/
def Affordable (now : ℚ) (obtained : Option Quote) : Prop :=
  ∃ price ts, obtained = some (price, ts) ∧ now - ts ≤ ttl ∧ price ≤ ex.maxSpotPriceUsd

/-- A submission to the Spot route is affordable, and its job was not priced out. -/
def Proper (sub : Submission) : Prop :=
  sub.route = ex.spotRoute → sub.pricedOut = false ∧ Affordable ex sub.now sub.obtained

def Safe (s : State) : Prop := ∀ sub ∈ s.submissions, Proper ex sub

/-- The on-demand route that a job takes which is priced out. -/
def AWSBatchExecutor.pricedOutRoute : Route :=
  ex.route (Overrides.merge ⟨none, none⟩ ex.onDemandRoute)

/-- No job is priced out to the Spot route, and none that was interrupted goes there
again unless it was not priced out and the price is known to be affordable. -/
def Guarded (s : State) : Event → Prop
  | .lookup _ _ => True
  | .submit now answer existing => ∀ price, (s.getSpotPrice now answer).2 = some price →
      ex.maxSpotPriceUsd < price → ex.fallbackToOnDemand = true → existing = false →
        ex.pricedOutRoute ≠ ex.spotRoute
  | .result _ => True
  | .interrupted handle now => ∀ h params next, s.handles[handle]? = some h →
      ex.again h = (some params, next) → ex.route params = ex.spotRoute →
        h.pricedOut = false ∧ Affordable ex now s.obtained

/-! ## One step -/

variable {ex : AWSBatchExecutor} {s : State}

/-- What is cached was obtained last. -/
def Current (s : State) : Prop := ∀ quote, s.cache = some quote → s.obtained = some quote

/-- All that a lookup does. -/
theorem getSpotPrice_spec (h : Current s) (now : ℚ) (answer : Option ℚ) :
    Current (s.getSpotPrice now answer).1 ∧
      (s.getSpotPrice now answer).1.handles = s.handles ∧
      (s.getSpotPrice now answer).1.submissions = s.submissions ∧
      ∀ price, (s.getSpotPrice now answer).2 = some price →
        ∃ ts, (s.getSpotPrice now answer).1.obtained = some (price, ts) ∧ now - ts ≤ ttl := by
  have hquery : Current (s.query now answer).1 ∧ (s.query now answer).1.handles = s.handles ∧
      (s.query now answer).1.submissions = s.submissions ∧
      ∀ price, (s.query now answer).2 = some price →
        ∃ ts, (s.query now answer).1.obtained = some (price, ts) ∧ now - ts ≤ ttl := by
    cases answer with
    | none => exact ⟨fun _ hcache => (nomatch hcache), rfl, rfl, fun _ hprice => (nomatch hprice)⟩
    | some price =>
      refine ⟨fun _ hcache => hcache, rfl, rfl, fun price' hprice => ⟨now, ?_, ?_⟩⟩
      · cases hprice
        rfl
      · rw [sub_self]
        decide
  rw [State.getSpotPrice]
  split
  next price ts hcache =>
    split
    next => exact hquery
    next hfresh =>
      refine ⟨h, rfl, rfl, fun price' hprice => ⟨ts, ?_, (not_le.mp hfresh).le⟩⟩
      cases hprice
      exact h _ hcache
  next => exact hquery

theorem safe_submitJob_iff (hsafe : Safe ex s) (handle : Nat) (now : ℚ) (params : Overrides)
    (pricedOut : Bool) :
    Safe ex (s.submitJob ex handle now params pricedOut) ↔
      (ex.route params = ex.spotRoute → pricedOut = false ∧ Affordable ex now s.obtained) := by
  constructor
  · intro h
    exact h _ (List.mem_append_right _ List.mem_cons_self)
  · intro h sub hsub
    rcases List.mem_append.mp hsub with hsub | hsub
    · exact hsafe sub hsub
    · rw [List.mem_singleton.mp hsub]
      exact h

/-- The end of `_do_submit` submits, or finds the job. -/
theorem safe_start_iff (hsafe : Safe ex s) (now : ℚ) (existing : Bool) (params : Overrides)
    (pricedOut : Bool) :
    Safe ex (s.start ex now existing params pricedOut) ↔
      (existing = false → ex.route params = ex.spotRoute →
        pricedOut = false ∧ Affordable ex now s.obtained) := by
  cases existing with
  | true => exact iff_of_true hsafe fun h => nomatch h
  | false =>
    rw [← safe_submitJob_iff hsafe s.handles.length now params pricedOut]
    exact ⟨fun h _ => h, fun h => h rfl⟩

/-- A first submission to the Spot route follows a lookup. -/
theorem step_submit_safe_iff (hcurrent : Current s) (hsafe : Safe ex s) (now : ℚ)
    (answer : Option ℚ) (existing : Bool) :
    Safe ex (step ex s (.submit now answer existing)) ↔
      Guarded ex s (.submit now answer existing) := by
  obtain ⟨_, _, hsubmissions, hprice⟩ := getSpotPrice_spec hcurrent now answer
  have hsafe' : Safe ex (s.getSpotPrice now answer).1 := by
    rw [Safe, hsubmissions]
    exact hsafe
  rw [step, Guarded]
  generalize s.getSpotPrice now answer = found at hprice hsafe'
  obtain ⟨s', price⟩ := found
  cases price with
  | none => exact iff_of_true hsafe' fun _ h => nomatch h
  | some price =>
    dsimp only
    split
    next habove =>
      split
      next hfallback =>
        rw [safe_start_iff hsafe']
        constructor
        · intro h price' hsame _ _ hexisting hroute
          exact nomatch (h hexisting hroute).1
        · intro h hexisting hroute
          exact absurd hroute (h price rfl habove hfallback hexisting)
      next hfallback =>
        refine iff_of_true hsafe' fun price' _ _ htrue => absurd htrue hfallback
    next hwithin =>
      obtain ⟨ts, hobtained, hfresh⟩ := hprice price rfl
      refine iff_of_true ((safe_start_iff hsafe' ..).mpr fun _ _ => ⟨rfl, ?_⟩) ?_
      · exact ⟨price, ts, hobtained, hfresh, not_lt.mp hwithin⟩
      · intro price' hsame habove
        cases hsame
        exact absurd habove hwithin

/-- An interrupted job is submitted again without one. -/
theorem step_interrupted_safe_iff (hsafe : Safe ex s) (handle : Nat) (now : ℚ) :
    Safe ex (step ex s (.interrupted handle now)) ↔ Guarded ex s (.interrupted handle now) := by
  rw [step, Guarded]
  split
  next hnone =>
    refine iff_of_true hsafe fun h _ _ hsome => ?_
    rw [hnone] at hsome
    exact nomatch hsome
  next h hsome =>
    split
    next next hagain =>
      refine iff_of_true hsafe fun h' params next' hsome' hagain' => ?_
      rw [hsome] at hsome'
      cases hsome'
      rw [hagain] at hagain'
      exact nomatch hagain'
    next params next hagain =>
      refine (safe_submitJob_iff hsafe handle now params h.pricedOut).trans ?_
      constructor
      · intro hproper h' params' next' hsome' hagain'
        rw [hsome] at hsome'
        cases hsome'
        rw [hagain] at hagain'
        cases hagain'
        exact hproper
      · intro hguard
        exact hguard h params next hsome hagain

theorem step_safe_iff (e : Event) (hcurrent : Current s) (hsafe : Safe ex s) :
    Safe ex (step ex s e) ↔ Guarded ex s e := by
  cases e with
  | lookup now answer =>
    obtain ⟨_, _, hsubmissions, _⟩ := getSpotPrice_spec hcurrent now answer
    refine iff_of_true ?_ trivial
    rw [Safe, step, hsubmissions]
    exact hsafe
  | submit now answer existing => exact step_submit_safe_iff hcurrent hsafe now answer existing
  | result handle => exact iff_of_true hsafe trivial
  | interrupted handle now => exact step_interrupted_safe_iff hsafe handle now

theorem step_current (e : Event) (h : Current s) : Current (step ex s e) := by
  cases e with
  | lookup now answer => exact (getSpotPrice_spec h now answer).1
  | submit now answer existing =>
    obtain ⟨hcurrent, _⟩ := getSpotPrice_spec h now answer
    rw [step]
    generalize s.getSpotPrice now answer = found at hcurrent
    obtain ⟨s', price⟩ := found
    cases price with
    | none => exact hcurrent
    | some price =>
      dsimp only
      have hstart : ∀ params pricedOut, Current (s'.start ex now existing params pricedOut) := by
        intro params pricedOut
        cases existing with
        | true => exact hcurrent
        | false => exact hcurrent
      split
      next =>
        split
        next => exact hstart _ _
        next => exact hcurrent
      next => exact hstart _ _
  | result handle => exact h
  | interrupted handle now =>
    rw [step]
    split
    next => exact h
    next =>
      split
      next => exact h
      next => exact h

/-! ## The on-demand route -/

/-! ## Runs -/

/-- A run makes proper submissions only, exactly if every step of it is guarded. -/
theorem proper_iff (ex : AWSBatchExecutor) (events : List Event) :
    Always (step ex) (Safe ex) State.empty events ↔
      Along (step ex) (Guarded ex) State.empty events :=
  always_iff_along_within (step ex) (I := Current)
    (fun _ e hcurrent _ => step_current e hcurrent)
    (fun _ e hcurrent hsafe => step_safe_iff e hcurrent hsafe)
    (show Current State.empty from fun _ h => (nomatch h)) (fun _ h => (nomatch h)) events

/-- A ceiling of one dollar, without a fallback. -/
def oneDollar : AWSBatchExecutor where
  jobQueue := "spot"
  jobDefinition := none
  maxSpotPriceUsd := 1
  fallbackToOnDemand := false
  maxRetries := 3
  onDemandJobQueue := none
  onDemandJobDefinition := none
  checked h := nomatch h

/-- The job is submitted at half a dollar. It is interrupted when the price obtained last
is two, and goes to the Spot queue again. -/
theorem retry_above_ceiling :
    ¬ Always (step oneDollar) (Safe oneDollar) State.empty
      [.submit 0 (some (1 / 2)) false, .result 0, .lookup 100 (some 2), .interrupted 0 110] := by
  intro h
  have hproper := Always.last _ h ⟨0, oneDollar.spotRoute, 110, false, some (2, 100)⟩
    (by decide +kernel) rfl
  obtain ⟨_, price, ts, hobtained, _, hle⟩ := hproper
  cases hobtained
  exact absurd hle (by decide +kernel)

end OSimFlow.Executors.SpotCeiling
