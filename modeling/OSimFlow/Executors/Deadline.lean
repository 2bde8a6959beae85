import OSimFlow.Executors.PollingHandle
import Mathlib.Tactic.NormNum

/-!
# The caller's deadline

`PollingHandle.result(timeout)` computes what is left of the budget when an attempt begins. The
sleep before a resubmission does not look at it, and the wait for the on-demand job gets what was
left before the wait that was interrupted. `poll_until_terminal` cuts each sleep of its default
policy to what is left; a transient probe is followed by a whole delay.

> `deadline_iff`: the two keep to the deadline exactly if no such sleep and no such wait takes
> more than is left.
-/

namespace OSimFlow.Executors.Deadline

open PollingHandle

/-! ## The polling loop -/

/-- The arguments of `poll_until_terminal` with the default sleep policy. -/
structure PollSettings (S : Type) where
  isTerminal : S → Bool
  isTransient : Option (S → Bool)
  pollInterval : Rat
  maxPollInterval : Rat
  nextDelay : Option (Rat → Rat)
  growBeforeSleep : Bool
  tolerateProbeErrors : Bool

/-- One call of `time.sleep`. -/
structure Sleep where
  start : Rat
  amount : Rat

/-- What one iteration comes to: the loop ends, or it sleeps and goes on with another delay. -/
inductive PollStep where
  | ended
  | slept (sleep : Sleep) (delay : Rat)

section

variable {S ε : Type} (settings : PollSettings S)

/-- `_grow(current)`. -/
def grow (current : Rat) : Rat :=
  match settings.nextDelay with
  | some nextDelay => nextDelay current
  | none => min (current * 2) settings.maxPollInterval

/-- `is_transient is not None and is_transient(status)`. -/
def transient (status : S) : Bool :=
  match settings.isTransient with
  | some isTransient => isTransient status
  | none => false

/-- The sleep of the default policy, `elapsed` seconds after the start: `min(delay, remaining)`. -/
def pendingStep (timeout elapsed delay : Rat) : PollStep :=
  if timeout - elapsed ≤ 0 then .ended
  else if settings.growBeforeSleep then
    .slept ⟨elapsed, min (grow settings delay) (timeout - elapsed)⟩ (grow settings delay)
  else .slept ⟨elapsed, min delay (timeout - elapsed)⟩ (grow settings delay)

/-- One iteration, where the probe has answered `elapsed` seconds after the start. -/
def pollStep (timeout : Rat) (probed : Except ε S) (elapsed delay : Rat) : PollStep :=
  match probed with
  | .error _ =>
    if settings.tolerateProbeErrors then pendingStep settings timeout elapsed delay else .ended
  | .ok status =>
    if settings.isTerminal status then .ended
    else if transient settings status then
      if elapsed ≥ timeout then .ended else .slept ⟨elapsed, delay⟩ delay
    else pendingStep settings timeout elapsed delay

variable (timeout : Rat) (probe : Nat → Rat × Except ε S)

/-- The seconds since the start and the delay when iteration `k` begins; `none` if the loop has
ended. `probe k` is how long the probe takes and what it gives. -/
def pollState : (k : Nat) → Option (Rat × Rat)
  | 0 => some (0, settings.pollInterval)
  | k + 1 =>
    match pollState k with
    | none => none
    | some (clock, delay) =>
      match pollStep settings timeout (probe k).2 (clock + (probe k).1) delay with
      | .ended => none
      | .slept sleep delay => some (sleep.start + sleep.amount, delay)

/-- The sleep of iteration `k`. -/
def sleepAt (k : Nat) : Option Sleep :=
  match pollState settings timeout probe k with
  | none => none
  | some (clock, delay) =>
    match pollStep settings timeout (probe k).2 (clock + (probe k).1) delay with
    | .ended => none
    | .slept sleep _ => some sleep

/-- After a transient probe that comes before the deadline there is room for a delay. -/
def TransientFits : Prop :=
  ∀ k clock delay status, pollState settings timeout probe k = some (clock, delay) →
    (probe k).2 = .ok status → settings.isTerminal status = false →
    transient settings status = true → clock + (probe k).1 < timeout →
    clock + (probe k).1 + delay ≤ timeout

variable {settings timeout probe}

theorem pendingStep_fits {elapsed delay : Rat} {sleep : Sleep} {delay' : Rat}
    (h : pendingStep settings timeout elapsed delay = .slept sleep delay') :
    sleep.start + sleep.amount ≤ timeout := by
  have hcut : ∀ d : Rat, elapsed + min d (timeout - elapsed) ≤ timeout := by
    intro d
    have hle := min_le_right d (timeout - elapsed)
    linarith
  unfold pendingStep at h
  split at h
  next => exact nomatch h
  next =>
    split at h
    next =>
      cases h
      exact hcut _
    next =>
      cases h
      exact hcut _

/-- No sleep goes past the deadline if and only if those after transient probes do not. -/
theorem sleeps_fit_iff : (∀ k sleep, sleepAt settings timeout probe k = some sleep →
      sleep.start + sleep.amount ≤ timeout) ↔ TransientFits settings timeout probe := by
  constructor
  · intro hall k clock delay status hstate hprobe hterminal htransient hlt
    refine hall k ⟨clock + (probe k).1, delay⟩ ?_
    unfold sleepAt
    rw [hstate]
    dsimp only
    rw [hprobe, pollStep, if_neg (by rw [hterminal]; exact Bool.false_ne_true), if_pos htransient,
      if_neg (not_le.mpr hlt)]
  · intro hfits k sleep hsleep
    unfold sleepAt at hsleep
    split at hsleep
    next => exact nomatch hsleep
    next clock delay hstate =>
      split at hsleep
      next => exact nomatch hsleep
      next s delay' hstep =>
        cases hsleep
        unfold pollStep at hstep
        split at hstep
        next =>
          split at hstep
          next => exact pendingStep_fits hstep
          next => exact nomatch hstep
        next status hprobe =>
          split at hstep
          next => exact nomatch hstep
          next hterminal =>
            split at hstep
            next htransient =>
              split at hstep
              next => exact nomatch hstep
              next hlt =>
                cases hstep
                exact hfits k clock delay status hstate hprobe (Bool.eq_false_iff.mpr hterminal)
                  htransient (not_le.mp hlt)
            next => exact pendingStep_fits hstep

end

/-! ## The handle -/

section

variable {J ε β : Type} (hooks : Hooks J) (settings : Settings) (script : Script J ε β)

/-- Each wait returns or raises within the seconds it is given: what is left when the attempt
begins. -/
def WaitsInBudget (timeout : Rat) : Prop :=
  ∀ k, Reached hooks settings script (some timeout) k → InTime script (some timeout) k →
    (script.wait k).1 ≤ timeout - clockAt script k

/-- The sleeps before a resubmission and the wait for the on-demand job take no more than what is
left when they begin. -/
structure Fits (timeout : Rat) : Prop where
  backoff : ∀ k, Reached hooks settings script (some timeout) k →
    InTime script (some timeout) k → Interrupted hooks script k → k < retryLimit settings →
    clockAt script k + (script.wait k).1 + jitteredBackoff script k ≤ timeout
  fallback : Reached hooks settings script (some timeout) (retryLimit settings) →
    InTime script (some timeout) (retryLimit settings) →
    Interrupted hooks script (retryLimit settings) → hasOnDemandFallback settings = true →
    script.submitOnDemand = none →
    clockAt script (retryLimit settings) + (script.wait (retryLimit settings)).1 +
      script.fallbackWait.1 ≤ timeout

variable {hooks settings script}

/-- The time of a call that ends with the on-demand job. -/
theorem onDemandExit_clock (mirror : Option (Outcome J ε β)) (clock : Rat) (resubmits : Nat)
    (job : J) : (onDemandExit hooks script mirror clock resubmits job).clock =
      if script.submitOnDemand = none then clock + script.fallbackWait.1 else clock := by
  unfold onDemandExit
  split
  next e he =>
    rw [if_neg (by rw [he]; exact nofun)]
    rfl
  next hnone =>
    rw [if_pos hnone]
    dsimp only
    split
    next => rfl
    next =>
      split
      next => split <;> rfl
      next => rfl

theorem pos_of_inTime {timeout : Rat} {k : Nat}
    (hreached : Reached hooks settings script (some timeout) k)
    (hin : InTime script (some timeout) k) : 0 < timeout := by
  cases k with
  | zero => exact hin timeout rfl
  | succ k => exact (hreached.retried 0 (Nat.succ_pos k)).inTime timeout rfl

/-- An attempt that begins after the deadline takes no time. -/
theorem clock_of_late {timeout : Option Rat} {mirror : Option (Outcome J ε β)} {k : Nat}
    {x : Exit J ε β} (hends : Ends hooks settings script timeout mirror k x)
    (hlate : ¬ InTime script timeout k) : x.clock = clockAt script k := by
  cases hends with
  | timedOut _ => rfl
  | waitRaised e hin => exact absurd hin hlate
  | resolveRaised job e hin => exact absurd hin hlate
  | succeeded job v hin => exact absurd hin hlate
  | indeterminate job hin => exact absurd hin hlate
  | failed job reason hin => exact absurd hin hlate
  | submitRaised job reason e hin => exact absurd hin hlate
  | onDemand job reason hin => exact absurd hin hlate
  | exhausted job reason hin => exact absurd hin hlate

/-- A call takes at most the timeout if and only if its sleeps and its last wait fit. -/
theorem clock_le_iff {timeout : Rat} (hbudget : WaitsInBudget hooks settings script timeout)
    (mirror : Option (Outcome J ε β)) :
    (result hooks settings script (some timeout) mirror).clock ≤ max timeout 0 ↔
      Fits hooks settings script timeout := by
  obtain ⟨k, hreached, hlast, hends⟩ : ∃ k, Reached hooks settings script (some timeout) k ∧
      (∀ j, Reached hooks settings script (some timeout) j → j ≤ k) ∧
      Ends hooks settings script (some timeout) mirror k
        (result hooks settings script (some timeout) mirror) := result_ends_by _ mirror
  generalize result hooks settings script (some timeout) mirror = x at hends
  constructor
  · intro hclock
    have hbound : 0 < timeout → x.clock ≤ timeout := fun hpos => by
      rwa [max_eq_left (le_of_lt hpos)] at hclock
    refine ⟨fun j hj hin hint hlt => ?_, fun hj hin hint hfallback hsub => ?_⟩
    · show clockAt script (j + 1) ≤ timeout
      have hx := hbound (pos_of_inTime hj hin)
      obtain ⟨job, reason, hwait, hclass, hspot⟩ := hint
      rcases Nat.lt_or_eq_of_le (hlast j hj) with hjk | rfl
      · -- another attempt begins: in time, or it is what the call ends with
        rcases Nat.lt_or_eq_of_le (Nat.succ_le_of_lt hjk) with hsucc | rfl
        · exact le_of_lt ((hreached.retried (j + 1) hsucc).inTime timeout rfl)
        · by_cases hin' : InTime script (some timeout) (j + 1)
          · exact le_of_lt (hin' timeout rfl)
          · exact clock_of_late hends hin' ▸ hx
      · -- the call ends with the submission
        rcases hends.of_interrupted hin hwait hclass hspot with ⟨e, -, -, rfl⟩ | ⟨hnlt, -⟩ | ⟨hnlt, -⟩
        · exact hx
        · exact absurd hlt hnlt
        · exact absurd hlt hnlt
    · have hx := hbound (pos_of_inTime hj hin)
      obtain ⟨job, reason, hwait, hclass, hspot⟩ := hint
      have hk : k = retryLimit settings := Nat.le_antisymm hreached.le (hlast _ hj)
      subst hk
      rcases hends.of_interrupted hin hwait hclass hspot with
        ⟨e, hlt, -⟩ | ⟨-, -, rfl⟩ | ⟨-, hnot, -⟩
      · exact absurd hlt (Nat.lt_irrefl _)
      · rwa [onDemandExit_clock, if_pos hsub] at hx
      · rw [hfallback] at hnot
        exact nomatch hnot
  · intro hfits
    -- a wait that was in time ends before the deadline
    have hwaited : InTime script (some timeout) k →
        clockAt script k + (script.wait k).1 ≤ max timeout 0 := by
      intro hin
      have hle := hbudget k hreached hin
      refine le_trans ?_ (le_max_left timeout 0)
      linarith
    cases hends with
    | timedOut hnot =>
      show clockAt script k ≤ max timeout 0
      cases k with
      | zero => exact le_max_right timeout 0
      | succ j =>
        obtain ⟨hin, hint, hlt, -⟩ := hreached.retried j (Nat.lt_succ_self j)
        have hj : Reached hooks settings script (some timeout) j :=
          ⟨le_of_lt hlt, fun i hi => hreached.retried i (Nat.lt_succ_of_lt hi)⟩
        exact le_trans (hfits.backoff j hj hin hint hlt) (le_max_left timeout 0)
    | waitRaised e hin hwait => exact hwaited hin
    | resolveRaised job e hin => exact hwaited hin
    | succeeded job v hin => exact hwaited hin
    | indeterminate job hin => exact hwaited hin
    | failed job reason hin => exact hwaited hin
    | submitRaised job reason e hin hwait hclass hspot hlt hsub =>
      exact le_trans (hfits.backoff k hreached hin ⟨job, reason, hwait, hclass, hspot⟩ hlt)
        (le_max_left timeout 0)
    | onDemand job reason hin hwait hclass hspot hnlt hfallback =>
      have hk : k = retryLimit settings := Nat.le_antisymm hreached.le (Nat.le_of_not_lt hnlt)
      rw [onDemandExit_clock]
      split
      next hsub =>
        subst hk
        exact le_trans (hfits.fallback hreached hin ⟨job, reason, hwait, hclass, hspot⟩ hfallback
          hsub) (le_max_left timeout 0)
      next => exact hwaited hin
    | exhausted job reason hin => exact hwaited hin

end

/-- The two keep to their deadlines if and only if the sleeps that are not cut, and the wait for
the on-demand job, take no more than is left. -/
theorem deadline_iff {J ε β S ε' : Type} (hooks : Hooks J) (settings : Settings)
    (script : Script J ε β) (mirror : Option (Outcome J ε β)) (timeout : Rat)
    (hbudget : WaitsInBudget hooks settings script timeout) (poll : PollSettings S)
    (pollTimeout : Rat) (probe : Nat → Rat × Except ε' S) :
    ((result hooks settings script (some timeout) mirror).clock ≤ max timeout 0 ∧
      ∀ k sleep, sleepAt poll pollTimeout probe k = some sleep →
        sleep.start + sleep.amount ≤ pollTimeout) ↔
    Fits hooks settings script timeout ∧ TransientFits poll pollTimeout probe := by
  rw [clock_le_iff hbudget, sleeps_fit_iff]

/-! ## Two calls -/

/-- A job is `true` if it succeeds, and else interrupted. -/
def spotHooks : Hooks Bool where
  classify job := (if job then .succeeded else .failed, none)
  isSpotInterruption _ := true

/-- An interruption after half a second, a sleep of `5 * draw` seconds, and a job that succeeds
within a quarter of a second. -/
def interruptedOnce (draw : Rat) : Script Bool Unit Unit where
  wait k := if k = 0 then (1 / 2, .ok false) else (1 / 4, .ok true)
  random _ := draw
  resolve _ := .ok ()
  resubmit _ := none
  submitOnDemand := none
  fallbackWait := (0, .ok true)
  fallbackResolve := .ok ()

/-- A polling loop without transient probes. -/
def plainPoll : PollSettings Bool := ⟨id, none, 1, 30, none, false, false⟩

/-- A draw of one tenth leaves room for the second attempt. -/
theorem deadline_short_backoff :
    (result spotHooks ⟨some 1, false⟩ (interruptedOnce (1 / 10)) (some 2) none).clock ≤ max 2 0 ∧
      ∀ k sleep, sleepAt plainPoll 10 (fun _ => (0, (.ok false : Except Unit Bool))) k =
        some sleep → sleep.start + sleep.amount ≤ 10 := by
  have hfirst : clockAt (interruptedOnce (1 / 10)) 1 = 1 := by
    norm_num [clockAt, interruptedOnce, jitteredBackoff, backoff]
  refine (deadline_iff spotHooks ⟨some 1, false⟩ (interruptedOnce (1 / 10)) none 2 ?_ plainPoll 10
    _).mpr ⟨⟨fun k hk hin hint hlt => ?_, fun _ _ _ hfallback _ => (nomatch hfallback)⟩,
      fun k clock delay status _ _ _ htransient _ => (nomatch htransient)⟩
  · intro k hk hin
    rcases Nat.le_one_iff_eq_zero_or_eq_one.mp hk.le with rfl | rfl
    · norm_num [clockAt, interruptedOnce]
    · rw [hfirst]
      norm_num [interruptedOnce]
  · have hzero : k = 0 := Nat.lt_one_iff.mp hlt
    subst hzero
    show clockAt (interruptedOnce (1 / 10)) 1 ≤ 2
    rw [hfirst]
    norm_num

/-- With a timeout of one second and a draw of nine tenths the call raises after five seconds. -/
theorem backoff_outlives_deadline :
    WaitsInBudget spotHooks ⟨some 1, false⟩ (interruptedOnce (9 / 10)) 1 ∧
      (result spotHooks ⟨some 1, false⟩ (interruptedOnce (9 / 10)) (some 1) none).outcome =
        .raised .timedOut ∧
      (result spotHooks ⟨some 1, false⟩ (interruptedOnce (9 / 10)) (some 1) none).clock = 5 ∧
      ¬ (5 : Rat) ≤ max 1 0 := by
  refine ⟨fun k hk hin => ?_, by decide +kernel, by decide +kernel, by norm_num⟩
  rcases Nat.le_one_iff_eq_zero_or_eq_one.mp hk.le with rfl | rfl
  · norm_num [clockAt, interruptedOnce]
  · have hlate := hin 1 rfl
    norm_num [clockAt, interruptedOnce, jitteredBackoff, backoff] at hlate

end OSimFlow.Executors.Deadline
