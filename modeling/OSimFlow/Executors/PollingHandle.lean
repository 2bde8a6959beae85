import Mathlib.Data.Rat.Defs
import Mathlib.Algebra.Order.Ring.Rat
import Mathlib.Tactic.Linarith

/-!
# `PollingHandle.result`

One call waits for a job, classifies it, and for a spot interruption sleeps, submits the job
again and waits again, as often as `max_retries` says; after that it may submit an on-demand job
and wait for that. The mirror future is set at some of the exits; a future that is done refuses
a second outcome.

What the substrate does during a call is its `Script`: how each wait takes and ends, what the
random draws, submissions and downloads give. `Reached` says which attempts a call gets to.

> `result_ends`: the call ends at an attempt it gets to, with the exit of that iteration.

Times are exact. Log lines are left out.
-/

namespace OSimFlow.Executors.PollingHandle

/-! ## The hooks and the settings -/

inductive PollOutcome where
  | succeeded
  | failed
  | indeterminate
deriving DecidableEq, Repr

/-- The attributes of the executor; `maxRetries` is `none` where `int()` refuses it. -/
structure Settings where
  maxRetries : Option Int
  fallbackToOnDemand : Bool

/-- `_retry_limit()`. -/
def retryLimit (s : Settings) : Nat :=
  match s.maxRetries with
  | some n => (max 0 n).toNat
  | none => 0

/-- `_has_on_demand_fallback()`. -/
def hasOnDemandFallback (s : Settings) : Bool := s.fallbackToOnDemand

/-- The substrate's view of a terminal job. -/
structure Hooks (J : Type) where
  classify : J → PollOutcome × Option String
  isSpotInterruption : Option String → Bool

/-- What happens during a call: for each attempt the wait with its duration, the random number in
`[0, 1)`, the download of a result and the submission after it, and the same for the on-demand
job. -/
structure Script (J ε β : Type) where
  wait : Nat → Rat × Except ε J
  random : Nat → Rat
  resolve : Nat → Except ε β
  resubmit : Nat → Option ε
  submitOnDemand : Option ε
  fallbackWait : Rat × Except ε J
  fallbackResolve : Except ε β

/-! ## Exits -/

/-- What `result` raises. -/
inductive Failure (J ε : Type) where
  /-- `Timed out after …s waiting for job …` -/
  | timedOut
  | waitRaised (e : ε)
  | resolveRaised (e : ε)
  | submitRaised (e : ε)
  /-- `_failure_error(job)` -/
  | failureError (job : J)
  /-- `_fallback_failure_error(job)` -/
  | fallbackFailureError (job : J)
  /-- `Spot retries exhausted (…): …` -/
  | spotRetriesExhausted (limit : Nat) (reason : Option String)
  /-- A future that is done was set again. -/
  | invalidStateError
  /-- `result loop exited unexpectedly` -/
  | loopExited
deriving DecidableEq

inductive Outcome (J ε β : Type) where
  | value (v : Option β)
  | raised (f : Failure J ε)
deriving DecidableEq

/-- How a call ends: its outcome, the mirror future after it, the seconds it took, the number of
calls of `_resubmit` and `_submit_on_demand`, and the last wait. -/
structure Exit (J ε β : Type) where
  outcome : Outcome J ε β
  mirror : Option (Outcome J ε β)
  clock : Rat
  resubmits : Nat
  onDemand : Nat
  awaited : Option (Except ε J)

variable {J ε β : Type}

/-- `self._future.set_result` or `set_exception`, and the same outcome for the caller. -/
def settle (mirror : Option (Outcome J ε β)) (o : Outcome J ε β) :
    Option (Outcome J ε β) × Outcome J ε β :=
  match mirror with
  | none => (some o, o)
  | some settled => (some settled, .raised .invalidStateError)

/-- An exit that sets the mirror. -/
def settledExit (mirror : Option (Outcome J ε β)) (o : Outcome J ε β) (clock : Rat)
    (resubmits onDemand : Nat) (awaited : Option (Except ε J)) : Exit J ε β :=
  ⟨(settle mirror o).2, (settle mirror o).1, clock, resubmits, onDemand, awaited⟩

/-- An exit that only raises. -/
def raisedExit (mirror : Option (Outcome J ε β)) (f : Failure J ε) (clock : Rat)
    (resubmits onDemand : Nat) (awaited : Option (Except ε J)) : Exit J ε β :=
  ⟨.raised f, mirror, clock, resubmits, onDemand, awaited⟩

/-! ## The loop -/

/-- `min(5.0 * (2**attempt), 60.0)`. -/
def backoff (attempt : Nat) : Rat := min (5 * 2 ^ attempt) 60

section

variable (hooks : Hooks J) (settings : Settings) (script : Script J ε β)

/-- `random.uniform(0, backoff)`. -/
def jitteredBackoff (attempt : Nat) : Rat := 0 + (backoff attempt - 0) * script.random attempt

/-- The on-demand job, submitted `clock` seconds into the call after `resubmits` submissions. -/
def onDemandExit (mirror : Option (Outcome J ε β)) (clock : Rat) (resubmits : Nat)
    (interrupted : J) : Exit J ε β :=
  match script.submitOnDemand with
  | some e => raisedExit mirror (.submitRaised e) clock resubmits 1 (some (.ok interrupted))
  | none =>
    let (duration, ended) := script.fallbackWait
    match ended with
    | .error e =>
      settledExit mirror (.raised (.waitRaised e)) (clock + duration) resubmits 1 (some (.error e))
    | .ok job =>
      match (hooks.classify job).1 with
      | .succeeded =>
        match script.fallbackResolve with
        | .error e =>
          raisedExit mirror (.resolveRaised e) (clock + duration) resubmits 1 (some (.ok job))
        | .ok v => settledExit mirror (.value (some v)) (clock + duration) resubmits 1 (some (.ok job))
      | _ =>
        settledExit mirror (.raised (.fallbackFailureError job)) (clock + duration) resubmits 1
          (some (.ok job))

/-- What one iteration of the loop comes to: the call ends, or there is another one `clock` seconds
into the call. -/
inductive Iteration (J ε β : Type) where
  | exit (x : Exit J ε β)
  | again (clock : Rat) (awaited : Option (Except ε J))

/-- The body of the loop. -/
def iteration (timeout : Option Rat) (mirror : Option (Outcome J ε β)) (attempt : Nat)
    (clock : Rat) (awaited : Option (Except ε J)) : Iteration J ε β :=
  if timeout.any fun t => decide (t - clock ≤ 0) then
    .exit (raisedExit mirror .timedOut clock attempt 0 awaited)
  else
    let ended := (script.wait attempt).2
    let waited := clock + (script.wait attempt).1
    match ended with
    | .error e =>
      .exit (settledExit mirror (.raised (.waitRaised e)) waited attempt 0 (some ended))
    | .ok job =>
      match hooks.classify job with
      | (.succeeded, _) =>
        match script.resolve attempt with
        | .error e => .exit (raisedExit mirror (.resolveRaised e) waited attempt 0 (some ended))
        | .ok v => .exit (settledExit mirror (.value (some v)) waited attempt 0 (some ended))
      | (.indeterminate, _) =>
        .exit (settledExit mirror (.value none) waited attempt 0 (some ended))
      | (.failed, reason) =>
        if hooks.isSpotInterruption reason then
          if attempt < retryLimit settings then
            let slept := waited + jitteredBackoff script attempt
            match script.resubmit attempt with
            | some e =>
              .exit (raisedExit mirror (.submitRaised e) slept (attempt + 1) 0 (some ended))
            | none => .again slept (some ended)
          else if hasOnDemandFallback settings then
            .exit (onDemandExit hooks script mirror waited attempt job)
          else
            .exit (raisedExit mirror (.spotRetriesExhausted (retryLimit settings) reason) waited
              attempt 0 (some ended))
        else
          .exit (settledExit mirror (.raised (.failureError job)) waited attempt 0 (some ended))

/-- `left` iterations, from `attempt` on. -/
def loop (timeout : Option Rat) (mirror : Option (Outcome J ε β)) :
    (left attempt : Nat) → (clock : Rat) → (awaited : Option (Except ε J)) → Exit J ε β
  | 0, attempt, clock, awaited => raisedExit mirror .loopExited clock attempt 0 awaited
  | left + 1, attempt, clock, awaited =>
    match iteration hooks settings script timeout mirror attempt clock awaited with
    | .exit x => x
    | .again clock awaited => loop timeout mirror left (attempt + 1) clock awaited

/-- `result(timeout)` on a handle with the given mirror future. -/
def result (timeout : Option Rat) (mirror : Option (Outcome J ε β)) : Exit J ε β :=
  loop hooks settings script timeout mirror (retryLimit settings + 1) 0 0 none

/-! ## The attempts a call gets to -/

/-- Seconds into the call when `attempt` begins, if there is one. -/
def clockAt : (attempt : Nat) → Rat
  | 0 => 0
  | attempt + 1 => clockAt attempt + (script.wait attempt).1 + jitteredBackoff script attempt

/-- The last wait before `attempt`. -/
def awaitedAt : (attempt : Nat) → Option (Except ε J)
  | 0 => none
  | attempt + 1 => some (script.wait attempt).2

/-- The caller's deadline is not over when `attempt` begins. -/
def InTime (timeout : Option Rat) (attempt : Nat) : Prop :=
  ∀ t, timeout = some t → clockAt script attempt < t

/-- The job of `attempt` fails by a spot interruption. -/
def Interrupted (attempt : Nat) : Prop :=
  ∃ job reason, (script.wait attempt).2 = .ok job ∧ hooks.classify job = (.failed, reason) ∧
    hooks.isSpotInterruption reason = true

/-- `attempt` is followed by another one. -/
structure Retried (timeout : Option Rat) (attempt : Nat) : Prop where
  inTime : InTime script timeout attempt
  interrupted : Interrupted hooks script attempt
  below : attempt < retryLimit settings
  resubmitted : script.resubmit attempt = none

/-- The loop gets to `attempt`. -/
structure Reached (timeout : Option Rat) (attempt : Nat) : Prop where
  le : attempt ≤ retryLimit settings
  retried : ∀ j < attempt, Retried hooks settings script timeout j

end

section

variable {hooks : Hooks J} {settings : Settings} {script : Script J ε β} {timeout : Option Rat}
  {mirror : Option (Outcome J ε β)}

theorem timedOut_iff (attempt : Nat) :
    (timeout.any fun t => decide (t - clockAt script attempt ≤ 0)) = true ↔
      ¬ InTime script timeout attempt := by
  unfold InTime
  cases timeout with
  | none => exact ⟨fun h => (nomatch h), fun h => (h nofun).elim⟩
  | some t =>
    show decide (t - clockAt script attempt ≤ 0) = true ↔ _
    rw [decide_eq_true_iff, sub_nonpos]
    constructor
    · intro hle hlt
      exact absurd (hlt t rfl) (not_lt.mpr hle)
    · intro hnot
      by_contra hlt
      refine hnot fun t' ht => ?_
      cases ht
      exact not_le.mp hlt

/-- An iteration is followed by another one if and only if it ends with a resubmission. -/
theorem iteration_again_iff {attempt : Nat} {awaited awaited' : Option (Except ε J)}
    {clock : Rat} :
    iteration hooks settings script timeout mirror attempt (clockAt script attempt) awaited =
        .again clock awaited' ↔
      Retried hooks settings script timeout attempt ∧ clock = clockAt script (attempt + 1) ∧
        awaited' = awaitedAt script (attempt + 1) := by
  constructor
  · intro h
    unfold iteration at h
    split at h
    next => exact nomatch h
    next htime =>
      have hin : InTime script timeout attempt := by
        by_contra hnot
        exact htime ((timedOut_iff attempt).mpr hnot)
      dsimp only at h
      split at h
      next => exact nomatch h
      next job hjob =>
        split at h
        next => split at h <;> exact nomatch h
        next => exact nomatch h
        next reason hclass =>
          split at h
          next hspot =>
            split at h
            next hlt =>
              split at h
              next => exact nomatch h
              next hsub =>
                cases h
                exact ⟨⟨hin, ⟨job, reason, hjob, hclass, hspot⟩, hlt, hsub⟩, rfl, rfl⟩
            next => split at h <;> exact nomatch h
          next => exact nomatch h
  · rintro ⟨⟨hin, ⟨job, reason, hjob, hclass, hspot⟩, hlt, hsub⟩, rfl, rfl⟩
    have htime : ¬ (timeout.any fun t => decide (t - clockAt script attempt ≤ 0)) = true :=
      fun h => (timedOut_iff attempt).mp h hin
    unfold iteration
    rw [if_neg htime]
    dsimp only
    rw [hjob]
    dsimp only
    rw [hclass]
    dsimp only
    rw [if_pos hspot, if_pos hlt, hsub]
    show Iteration.again _ (some (Except.ok job)) =
      Iteration.again (clockAt script (attempt + 1)) (some (script.wait attempt).2)
    rw [hjob]
    rfl

/-- The loop ends at an attempt it gets to, with the exit of that iteration. -/
theorem loop_ends (left attempt : Nat) (hleft : attempt + left = retryLimit settings)
    (hreached : Reached hooks settings script timeout attempt) :
    ∃ k x, Reached hooks settings script timeout k ∧
      iteration hooks settings script timeout mirror k (clockAt script k) (awaitedAt script k) =
        .exit x ∧
      loop hooks settings script timeout mirror (left + 1) attempt (clockAt script attempt)
        (awaitedAt script attempt) = x := by
  induction left generalizing attempt with
  | zero =>
    rw [loop]
    cases hit : iteration hooks settings script timeout mirror attempt (clockAt script attempt)
        (awaitedAt script attempt) with
    | exit x => exact ⟨attempt, x, hreached, hit, rfl⟩
    | again clock awaited =>
      -- the last attempt is not retried
      have hbelow := (iteration_again_iff.mp hit).1.below
      omega
  | succ left ih =>
    rw [loop]
    cases hit : iteration hooks settings script timeout mirror attempt (clockAt script attempt)
        (awaitedAt script attempt) with
    | exit x => exact ⟨attempt, x, hreached, hit, rfl⟩
    | again clock awaited =>
      obtain ⟨hretried, rfl, rfl⟩ := iteration_again_iff.mp hit
      refine ih (attempt + 1) (by omega) ⟨hretried.below, fun j hj => ?_⟩
      rcases Nat.lt_succ_iff_lt_or_eq.mp hj with hlt | rfl
      · exact hreached.retried j hlt
      · exact hretried

/-- The call ends at an attempt it gets to, with the exit of that iteration. -/
theorem result_ends (timeout : Option Rat) (mirror : Option (Outcome J ε β)) :
    ∃ k, Reached hooks settings script timeout k ∧
      iteration hooks settings script timeout mirror k (clockAt script k) (awaitedAt script k) =
        .exit (result hooks settings script timeout mirror) := by
  obtain ⟨k, x, hreached, hit, hx⟩ := loop_ends (retryLimit settings) 0
    (Nat.zero_add _) ⟨Nat.zero_le _, fun j hj => absurd hj (Nat.not_lt_zero j)⟩
  refine ⟨k, hreached, ?_⟩
  rw [hit, ← hx]
  rfl

/-- No attempt after the one at which the call ends is reached. -/
theorem le_of_reached {k j : Nat} {x : Exit J ε β}
    (hit : iteration hooks settings script timeout mirror k (clockAt script k)
      (awaitedAt script k) = .exit x) (h : Reached hooks settings script timeout j) : j ≤ k := by
  by_contra hlt
  have hretried := h.retried k (Nat.lt_of_not_le hlt)
  rw [iteration_again_iff.mpr ⟨hretried, rfl, rfl⟩] at hit
  exact nomatch hit

/-! ## The exits -/

variable (hooks settings script timeout mirror) in
/-- The exits of `attempt`, each with what leads to it. -/
inductive Ends (k : Nat) : Exit J ε β → Prop
  | timedOut : ¬ InTime script timeout k →
      Ends k (raisedExit mirror .timedOut (clockAt script k) k 0 (awaitedAt script k))
  | waitRaised (e : ε) : InTime script timeout k → (script.wait k).2 = .error e →
      Ends k (settledExit mirror (.raised (.waitRaised e))
        (clockAt script k + (script.wait k).1) k 0 (some (.error e)))
  | resolveRaised (job : J) (e : ε) : InTime script timeout k → (script.wait k).2 = .ok job →
      (hooks.classify job).1 = .succeeded → script.resolve k = .error e →
      Ends k (raisedExit mirror (.resolveRaised e)
        (clockAt script k + (script.wait k).1) k 0 (some (.ok job)))
  | succeeded (job : J) (v : β) : InTime script timeout k → (script.wait k).2 = .ok job →
      (hooks.classify job).1 = .succeeded → script.resolve k = .ok v →
      Ends k (settledExit mirror (.value (some v))
        (clockAt script k + (script.wait k).1) k 0 (some (.ok job)))
  | indeterminate (job : J) : InTime script timeout k → (script.wait k).2 = .ok job →
      (hooks.classify job).1 = .indeterminate →
      Ends k (settledExit mirror (.value none)
        (clockAt script k + (script.wait k).1) k 0 (some (.ok job)))
  | failed (job : J) (reason : Option String) : InTime script timeout k →
      (script.wait k).2 = .ok job → hooks.classify job = (.failed, reason) →
      hooks.isSpotInterruption reason = false →
      Ends k (settledExit mirror (.raised (.failureError job))
        (clockAt script k + (script.wait k).1) k 0 (some (.ok job)))
  | submitRaised (job : J) (reason : Option String) (e : ε) : InTime script timeout k →
      (script.wait k).2 = .ok job → hooks.classify job = (.failed, reason) →
      hooks.isSpotInterruption reason = true → k < retryLimit settings →
      script.resubmit k = some e →
      Ends k (raisedExit mirror (.submitRaised e) (clockAt script (k + 1)) (k + 1) 0
        (some (.ok job)))
  | onDemand (job : J) (reason : Option String) : InTime script timeout k →
      (script.wait k).2 = .ok job → hooks.classify job = (.failed, reason) →
      hooks.isSpotInterruption reason = true → ¬ k < retryLimit settings →
      hasOnDemandFallback settings = true →
      Ends k (onDemandExit hooks script mirror (clockAt script k + (script.wait k).1) k job)
  | exhausted (job : J) (reason : Option String) : InTime script timeout k →
      (script.wait k).2 = .ok job → hooks.classify job = (.failed, reason) →
      hooks.isSpotInterruption reason = true → ¬ k < retryLimit settings →
      hasOnDemandFallback settings = false →
      Ends k (raisedExit mirror (.spotRetriesExhausted (retryLimit settings) reason)
        (clockAt script k + (script.wait k).1) k 0 (some (.ok job)))

theorem ends_of_exit {k : Nat} {x : Exit J ε β}
    (h : iteration hooks settings script timeout mirror k (clockAt script k)
      (awaitedAt script k) = .exit x) : Ends hooks settings script timeout mirror k x := by
  unfold iteration at h
  split at h
  next htime =>
    cases h
    exact .timedOut ((timedOut_iff k).mp htime)
  next htime =>
    have hin : InTime script timeout k := by
      by_contra hnot
      exact htime ((timedOut_iff k).mpr hnot)
    dsimp only at h
    split at h
    next e hwait =>
      cases h
      rw [hwait]
      exact .waitRaised e hin hwait
    next job hwait =>
      rw [hwait] at h
      split at h
      next reason hclass =>
        have hsucceeded : (hooks.classify job).1 = .succeeded := by rw [hclass]
        split at h
        next e hresolve =>
          cases h
          exact .resolveRaised job e hin hwait hsucceeded hresolve
        next v hresolve =>
          cases h
          exact .succeeded job v hin hwait hsucceeded hresolve
      next reason hclass =>
        cases h
        exact .indeterminate job hin hwait (by rw [hclass])
      next reason hclass =>
        split at h
        next hspot =>
          split at h
          next hlt =>
            split at h
            next e hsub =>
              cases h
              exact .submitRaised job reason e hin hwait hclass hspot hlt hsub
            next => exact nomatch h
          next hlt =>
            split at h
            next hfallback =>
              cases h
              exact .onDemand job reason hin hwait hclass hspot hlt hfallback
            next hfallback =>
              cases h
              exact .exhausted job reason hin hwait hclass hspot hlt
                (Bool.eq_false_iff.mpr hfallback)
        next hspot =>
          cases h
          exact .failed job reason hin hwait hclass (Bool.eq_false_iff.mpr hspot)

/-- The exits after a spot interruption. -/
theorem Ends.of_interrupted {k : Nat} {x : Exit J ε β} {job : J} {reason : Option String}
    (h : Ends hooks settings script timeout mirror k x) (hin : InTime script timeout k)
    (hwait : (script.wait k).2 = .ok job) (hclass : hooks.classify job = (.failed, reason))
    (hspot : hooks.isSpotInterruption reason = true) :
    (∃ e, k < retryLimit settings ∧ script.resubmit k = some e ∧
      x = raisedExit mirror (.submitRaised e) (clockAt script (k + 1)) (k + 1) 0
        (some (.ok job))) ∨
    (¬ k < retryLimit settings ∧ hasOnDemandFallback settings = true ∧
      x = onDemandExit hooks script mirror (clockAt script k + (script.wait k).1) k job) ∨
    (¬ k < retryLimit settings ∧ hasOnDemandFallback settings = false ∧
      x = raisedExit mirror (.spotRetriesExhausted (retryLimit settings) reason)
        (clockAt script k + (script.wait k).1) k 0 (some (.ok job))) := by
  -- the job of the exit is the one that was awaited
  have hjob : ∀ {job'}, (script.wait k).2 = .ok job' → job' = job := fun hwait' =>
    Except.ok.inj (hwait'.symm.trans hwait)
  have hne : ∀ {job' outcome}, (script.wait k).2 = .ok job' →
      (hooks.classify job').1 = outcome → outcome = .failed := fun hwait' hclass' => by
    rw [← hclass', hjob hwait', hclass]
  cases h with
  | timedOut hnot => exact absurd hin hnot
  | waitRaised e _ hwait' =>
    rw [hwait] at hwait'
    exact nomatch hwait'
  | resolveRaised _ _ _ hwait' hclass' _ => exact nomatch hne hwait' hclass'
  | succeeded _ _ _ hwait' hclass' _ => exact nomatch hne hwait' hclass'
  | indeterminate _ _ hwait' hclass' => exact nomatch hne hwait' hclass'
  | failed job' reason' _ hwait' hclass' hspot' =>
    rw [hjob hwait', hclass] at hclass'
    cases hclass'
    rw [hspot] at hspot'
    exact nomatch hspot'
  | submitRaised job' reason' e _ hwait' _ _ hlt hsub =>
    rw [hjob hwait']
    exact .inl ⟨e, hlt, hsub, rfl⟩
  | onDemand job' reason' _ hwait' _ _ hlt hfallback =>
    rw [hjob hwait']
    exact .inr (.inl ⟨hlt, hfallback, rfl⟩)
  | exhausted job' reason' _ hwait' hclass' _ hlt hfallback =>
    rw [hjob hwait', hclass] at hclass'
    cases hclass'
    rw [hjob hwait']
    exact .inr (.inr ⟨hlt, hfallback, rfl⟩)

/-- The exits after a job that succeeded. -/
theorem Ends.of_succeeded {k : Nat} {x : Exit J ε β} {job : J}
    (h : Ends hooks settings script timeout mirror k x) (hin : InTime script timeout k)
    (hwait : (script.wait k).2 = .ok job) (hclass : (hooks.classify job).1 = .succeeded) :
    (∃ e, script.resolve k = .error e ∧ x = raisedExit mirror (.resolveRaised e)
      (clockAt script k + (script.wait k).1) k 0 (some (.ok job))) ∨
    (∃ v, script.resolve k = .ok v ∧ x = settledExit mirror (.value (some v))
      (clockAt script k + (script.wait k).1) k 0 (some (.ok job))) := by
  have hjob : ∀ {job'}, (script.wait k).2 = .ok job' → job' = job := fun hwait' =>
    Except.ok.inj (hwait'.symm.trans hwait)
  have hnot : ∀ {job' reason}, (script.wait k).2 = .ok job' →
      hooks.classify job' ≠ (.failed, reason) := fun hwait' hclass' => by
    rw [← hjob hwait', hclass'] at hclass
    exact nomatch hclass
  cases h with
  | timedOut hlate => exact absurd hin hlate
  | waitRaised e _ hwait' =>
    rw [hwait] at hwait'
    exact nomatch hwait'
  | resolveRaised job' e _ hwait' _ hresolve =>
    rw [hjob hwait']
    exact .inl ⟨e, hresolve, rfl⟩
  | succeeded job' v _ hwait' _ hresolve =>
    rw [hjob hwait']
    exact .inr ⟨v, hresolve, rfl⟩
  | indeterminate job' _ hwait' hclass' =>
    rw [hjob hwait', hclass] at hclass'
    exact nomatch hclass'
  | failed _ _ _ hwait' hclass' _ => exact absurd hclass' (hnot hwait')
  | submitRaised _ _ _ _ hwait' hclass' _ _ _ => exact absurd hclass' (hnot hwait')
  | onDemand _ _ _ hwait' hclass' _ _ _ => exact absurd hclass' (hnot hwait')
  | exhausted _ _ _ hwait' hclass' _ _ _ => exact absurd hclass' (hnot hwait')

/-- The call ends at an attempt it gets to, by one of the exits. -/
theorem result_ends_by (timeout : Option Rat) (mirror : Option (Outcome J ε β)) :
    ∃ k, Reached hooks settings script timeout k ∧
      (∀ j, Reached hooks settings script timeout j → j ≤ k) ∧
      Ends hooks settings script timeout mirror k
        (result hooks settings script timeout mirror) := by
  obtain ⟨k, hreached, hit⟩ : ∃ k, Reached hooks settings script timeout k ∧
      iteration hooks settings script timeout mirror k (clockAt script k) (awaitedAt script k) =
        .exit (result hooks settings script timeout mirror) := result_ends timeout mirror
  exact ⟨k, hreached, fun j hj => le_of_reached hit hj, ends_of_exit hit⟩

end

end OSimFlow.Executors.PollingHandle
