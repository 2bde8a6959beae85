import OSimFlow.Executors.PollingHandle

/-!
# A handle settles once

Each exit of `PollingHandle.result` is to leave the mirror future settled with the outcome that
the caller sees, and every later call is to give that outcome again. The future takes one
outcome and refuses the next, so a second call cannot give the first one's; and some exits only
raise.

> `settles_iff`: a sequence of calls settles the handle as it should exactly if no call comes
> after one that has settled it, and no call runs out of retries without a fallback, gets an
> indeterminate on-demand job, or fails to submit a job or to fetch a result.
-/

namespace OSimFlow.Executors.PollingHandle

variable {J ε β : Type}

/-! ## What is asked of a call -/

section

variable (hooks : Hooks J) (settings : Settings)

/-- The call tells the caller how the job ended, not only that the deadline is over. -/
def Reports (x : Exit J ε β) : Prop := x.outcome ≠ .raised .timedOut

/-- The job that was awaited last has succeeded or is indeterminate. -/
def AwaitedGood (x : Exit J ε β) : Prop :=
  ∃ job, x.awaited = some (.ok job) ∧ (hooks.classify job).1 ≠ .failed

/-- A call on a handle with the given mirror settles it: at most `_retry_limit()` resubmissions
and one on-demand job, a value exactly for a good job, the mirror settled with what is reported,
and what it was settled with before is given again. -/
structure CallSettles (mirror : Option (Outcome J ε β)) (x : Exit J ε β) : Prop where
  resubmits : x.resubmits ≤ retryLimit settings
  onDemand : x.onDemand ≤ 1
  returns : (∃ v, x.outcome = .value v) ↔ AwaitedGood hooks x
  settled : Reports x → x.mirror = some x.outcome
  stays : ∀ o, mirror = some o → x.outcome = o

/-- One call of `result`: its timeout, and what happens during it. -/
structure Call (J ε β : Type) where
  timeout : Option Rat
  script : Script J ε β

/-- Each of the calls settles the handle; the mirror is that of the call before. -/
def Settles : (mirror : Option (Outcome J ε β)) → List (Call J ε β) → Prop
  | _, [] => True
  | mirror, c :: cs =>
    CallSettles hooks settings mirror (result hooks settings c.script c.timeout mirror) ∧
      Settles (result hooks settings c.script c.timeout mirror).mirror cs

/-- At no attempt the call gets to an exit that raises without settling is open. -/
structure Clean (script : Script J ε β) (timeout : Option Rat) : Prop where
  resolved : ∀ k job, Reached hooks settings script timeout k → InTime script timeout k →
    (script.wait k).2 = .ok job → (hooks.classify job).1 = .succeeded →
    ∃ v, script.resolve k = .ok v
  resubmitted : ∀ k, Reached hooks settings script timeout k → InTime script timeout k →
    Interrupted hooks script k → k < retryLimit settings → script.resubmit k = none
  fallback : Reached hooks settings script timeout (retryLimit settings) →
    InTime script timeout (retryLimit settings) →
    Interrupted hooks script (retryLimit settings) →
    hasOnDemandFallback settings = true ∧ script.submitOnDemand = none ∧
      ∀ job, script.fallbackWait.2 = .ok job → (hooks.classify job).1 ≠ .indeterminate ∧
        ((hooks.classify job).1 = .succeeded → ∃ v, script.fallbackResolve = .ok v)

/-- Each call comes while the mirror is not settled, and is clean. -/
def CleanCalls : (mirror : Option (Outcome J ε β)) → List (Call J ε β) → Prop
  | _, [] => True
  | mirror, c :: cs =>
    (mirror = none ∧ Clean hooks settings c.script c.timeout) ∧
      CleanCalls (result hooks settings c.script c.timeout mirror).mirror cs

end

section

variable {hooks : Hooks J} {settings : Settings} {script : Script J ε β} {timeout : Option Rat}
  {mirror : Option (Outcome J ε β)}

/-! ## Exits one by one -/

/-- What a mirror can be settled with. -/
def Settable : Outcome J ε β → Prop
  | .value _ => True
  | .raised (.waitRaised _) | .raised (.failureError _) | .raised (.fallbackFailureError _) => True
  | .raised _ => False

theorem settledExit_callSettles {o : Outcome J ε β} {clock : Rat} {resubmits onDemand : Nat}
    {awaited : Option (Except ε J)} (hresubmits : resubmits ≤ retryLimit settings)
    (honDemand : onDemand ≤ 1)
    (hreturns : (∃ v, o = .value v) ↔
      AwaitedGood hooks (settledExit none o clock resubmits onDemand awaited)) :
    CallSettles hooks settings none (settledExit none o clock resubmits onDemand awaited) :=
  ⟨hresubmits, honDemand, hreturns, fun _ => rfl, fun _ h => nomatch h⟩

/-- An exit that only raises does not settle the handle. -/
theorem not_callSettles_raisedExit {f : Failure J ε} (hf : f ≠ .timedOut) {clock : Rat}
    {resubmits onDemand : Nat} {awaited : Option (Except ε J)} :
    ¬ CallSettles hooks settings none
      (raisedExit (none : Option (Outcome J ε β)) f clock resubmits onDemand awaited) := by
  intro h
  have hreports : Reports
      (raisedExit (none : Option (Outcome J ε β)) f clock resubmits onDemand awaited) := by
    intro heq
    exact hf (Outcome.raised.inj heq)
  exact nomatch h.settled hreports

/-- A settled mirror is not what any exit gives. -/
theorem Ends.outcome_ne {k : Nat} {x : Exit J ε β} {o : Outcome J ε β}
    (h : Ends hooks settings script timeout (some o) k x) (ho : Settable o) : x.outcome ≠ o := by
  have hraised : ∀ f, ¬ Settable (.raised f : Outcome J ε β) → Outcome.raised f ≠ o := by
    intro f hf heq
    exact hf (heq ▸ ho)
  cases h with
  | timedOut _ => exact hraised _ id
  | waitRaised e _ _ => exact hraised .invalidStateError id
  | resolveRaised _ _ _ _ _ _ => exact hraised _ id
  | succeeded _ _ _ _ _ _ => exact hraised .invalidStateError id
  | indeterminate _ _ _ _ => exact hraised .invalidStateError id
  | failed _ _ _ _ _ _ => exact hraised .invalidStateError id
  | submitRaised _ _ _ _ _ _ _ _ _ => exact hraised _ id
  | exhausted _ _ _ _ _ _ _ _ => exact hraised _ id
  | onDemand job _ _ _ _ _ _ _ =>
    unfold onDemandExit
    split
    next => exact hraised _ id
    next =>
      dsimp only
      split
      next => exact hraised .invalidStateError id
      next =>
        split
        next =>
          split
          next => exact hraised _ id
          next => exact hraised .invalidStateError id
        next => exact hraised .invalidStateError id

/-- After a call on an open handle the mirror is open, or settled with something settable. -/
theorem Ends.settable {k : Nat} {x : Exit J ε β}
    (h : Ends hooks settings script timeout none k x) : ∀ o, x.mirror = some o → Settable o := by
  have hset : ∀ {o o' : Outcome J ε β}, some o = some o' → Settable o → Settable o' := by
    intro o o' heq ho
    cases heq
    exact ho
  intro o ho
  cases h with
  | timedOut _ => exact nomatch ho
  | waitRaised e _ _ => exact hset ho trivial
  | resolveRaised _ _ _ _ _ _ => exact nomatch ho
  | succeeded _ _ _ _ _ _ => exact hset ho trivial
  | indeterminate _ _ _ _ => exact hset ho trivial
  | failed _ _ _ _ _ _ => exact hset ho trivial
  | submitRaised _ _ _ _ _ _ _ _ _ => exact nomatch ho
  | exhausted _ _ _ _ _ _ _ _ => exact nomatch ho
  | onDemand job _ _ _ _ _ _ _ =>
    unfold onDemandExit at ho
    split at ho
    next => exact nomatch ho
    next =>
      dsimp only at ho
      split at ho
      next => exact hset ho trivial
      next =>
        split at ho
        next =>
          split at ho
          next => exact nomatch ho
          next => exact hset ho trivial
        next => exact hset ho trivial

/-- The on-demand job settles the handle unless it is indeterminate, cannot be submitted, or
its result cannot be fetched. -/
theorem onDemandExit_callSettles_iff {clock : Rat} {resubmits : Nat} {job : J}
    (hresubmits : resubmits ≤ retryLimit settings) :
    CallSettles hooks settings none (onDemandExit hooks script none clock resubmits job) ↔
      script.submitOnDemand = none ∧
        ∀ job', script.fallbackWait.2 = .ok job' → (hooks.classify job').1 ≠ .indeterminate ∧
          ((hooks.classify job').1 = .succeeded → ∃ v, script.fallbackResolve = .ok v) := by
  unfold onDemandExit
  split
  next e he =>
    constructor
    · exact fun h => absurd h (not_callSettles_raisedExit (f := .submitRaised e) nofun)
    · intro h
      rw [he] at h
      exact nomatch h.1
  next hnone =>
    dsimp only
    split
    next e he =>
      refine ⟨fun _ => ⟨hnone, fun job' hjob' => ?_⟩, fun _ => ?_⟩
      · rw [he] at hjob'
        exact nomatch hjob'
      · refine settledExit_callSettles hresubmits (Nat.le_refl 1)
          ⟨fun ⟨v, hv⟩ => (nomatch hv), fun ⟨job', hjob', _⟩ => (nomatch hjob')⟩
    next job' hjob' =>
      have honly : ∀ {job''}, script.fallbackWait.2 = .ok job'' → job'' = job' := fun h =>
        Except.ok.inj (h.symm.trans hjob')
      split
      next hclass =>
        split
        next e he =>
          constructor
          · exact fun h => absurd h (not_callSettles_raisedExit (f := .resolveRaised e) nofun)
          · intro h
            obtain ⟨v, hv⟩ := (h.2 job' hjob').2 hclass
            rw [he] at hv
            exact nomatch hv
        next v hv =>
          refine ⟨fun _ => ⟨hnone, fun job'' hjob'' => ?_⟩, fun _ => ?_⟩
          · rw [honly hjob'', hclass]
            exact ⟨nofun, fun _ => ⟨v, hv⟩⟩
          · refine settledExit_callSettles hresubmits (Nat.le_refl 1)
              ⟨fun _ => ⟨job', rfl, ?_⟩, fun _ => ⟨some v, rfl⟩⟩
            rw [hclass]
            exact nofun
      next hclass =>
        constructor
        · intro h
          refine ⟨hnone, fun job'' hjob'' => ?_⟩
          rw [honly hjob'']
          refine ⟨fun hind => ?_, fun hsucc => absurd hsucc hclass⟩
          -- an indeterminate job is a good one, and no value is returned
          obtain ⟨v, hv⟩ := h.returns.mpr ⟨job', rfl, by rw [hind]; exact nofun⟩
          exact nomatch hv
        · intro h
          refine settledExit_callSettles hresubmits (Nat.le_refl 1)
            ⟨fun ⟨v, hv⟩ => (nomatch hv), fun ⟨job'', hjob'', hgood⟩ => ?_⟩
          have heq : job'' = job' := (Except.ok.inj (Option.some.inj hjob'')).symm
          rw [heq] at hgood
          cases hout : (hooks.classify job').1 with
          | succeeded => exact absurd hout hclass
          | failed => exact absurd hout hgood
          | indeterminate => exact absurd hout (h.2 job' hjob').1

/-! ## One call -/

/-- A call on an open handle settles it if and only if it is clean. -/
theorem callSettles_none_iff (script : Script J ε β) (timeout : Option Rat) :
    CallSettles hooks settings none (result hooks settings script timeout none) ↔
      Clean hooks settings script timeout := by
  obtain ⟨k, hreached, hlast, hends⟩ : ∃ k, Reached hooks settings script timeout k ∧
      (∀ j, Reached hooks settings script timeout j → j ≤ k) ∧
      Ends hooks settings script timeout none k (result hooks settings script timeout none) :=
    result_ends_by timeout none
  generalize result hooks settings script timeout none = x at hends
  -- an attempt that is not retried is the last
  have heq : ∀ {j}, Reached hooks settings script timeout j →
      ¬ Retried hooks settings script timeout j → j = k := fun hj hnot => by
    by_contra hne
    exact hnot (hreached.retried _ (Nat.lt_of_le_of_ne (hlast _ hj) hne))
  constructor
  · intro h
    refine ⟨fun j job hj hin hwait hclass => ?_, fun j hj hin hint hlt => ?_, fun hj hin hint => ?_⟩
    · have hk : j = k := heq hj fun hretried => by
        obtain ⟨job', reason, hwait', hclass', -⟩ := hretried.interrupted
        rw [hwait] at hwait'
        cases hwait'
        rw [hclass'] at hclass
        exact nomatch hclass
      subst hk
      rcases hends.of_succeeded hin hwait hclass with ⟨e, -, rfl⟩ | ⟨v, hv, -⟩
      · exact absurd h (not_callSettles_raisedExit (f := .resolveRaised e) nofun)
      · exact ⟨v, hv⟩
    · by_cases hretried : Retried hooks settings script timeout j
      · exact hretried.resubmitted
      · have hk : j = k := heq hj hretried
        subst hk
        obtain ⟨job, reason, hwait, hclass, hspot⟩ := hint
        rcases hends.of_interrupted hin hwait hclass hspot with
          ⟨e, -, -, rfl⟩ | ⟨hnlt, -⟩ | ⟨hnlt, -⟩
        · exact absurd h (not_callSettles_raisedExit (f := .submitRaised e) nofun)
        · exact absurd hlt hnlt
        · exact absurd hlt hnlt
    · have hk : retryLimit settings = k :=
        heq hj fun hretried => absurd hretried.below (Nat.lt_irrefl _)
      obtain ⟨job, reason, hwait, hclass, hspot⟩ := hint
      rw [hk] at hin hwait
      rcases hends.of_interrupted hin hwait hclass hspot with
        ⟨e, hlt, -⟩ | ⟨-, hfallback, rfl⟩ | ⟨-, -, rfl⟩
      · exact absurd hlt (Nat.not_lt.mpr (Nat.le_of_eq hk))
      · exact ⟨hfallback, (onDemandExit_callSettles_iff hreached.le).mp h⟩
      · exact absurd h (not_callSettles_raisedExit
          (f := .spotRetriesExhausted (retryLimit settings) reason) nofun)
  · intro hclean
    cases hends with
    | timedOut hlate =>
      refine ⟨hreached.le, Nat.zero_le 1, ⟨fun ⟨v, hv⟩ => (nomatch hv), fun ⟨job, hjob, hgood⟩ => ?_⟩,
        fun hreports => absurd rfl hreports, fun o ho => nomatch ho⟩
      -- the job before was interrupted
      cases k with
      | zero => exact nomatch hjob
      | succ j =>
        obtain ⟨job', reason, hwait, hclass, -⟩ :=
          (hreached.retried j (Nat.lt_succ_self j)).interrupted
        have hsame : (script.wait j).2 = .ok job := Option.some.inj hjob
        rw [hwait] at hsame
        cases hsame
        rw [hclass] at hgood
        exact absurd rfl hgood
    | waitRaised e hin hwait =>
      exact settledExit_callSettles hreached.le (Nat.zero_le 1)
        ⟨fun ⟨v, hv⟩ => (nomatch hv), fun ⟨job, hjob, _⟩ => (nomatch hjob)⟩
    | resolveRaised job e hin hwait hclass hresolve =>
      obtain ⟨v, hv⟩ := hclean.resolved k job hreached hin hwait hclass
      rw [hresolve] at hv
      exact nomatch hv
    | succeeded job v hin hwait hclass hresolve =>
      refine settledExit_callSettles hreached.le (Nat.zero_le 1)
        ⟨fun _ => ⟨job, rfl, ?_⟩, fun _ => ⟨some v, rfl⟩⟩
      rw [hclass]
      exact nofun
    | indeterminate job hin hwait hclass =>
      refine settledExit_callSettles hreached.le (Nat.zero_le 1)
        ⟨fun _ => ⟨job, rfl, ?_⟩, fun _ => ⟨none, rfl⟩⟩
      rw [hclass]
      exact nofun
    | failed job reason hin hwait hclass hspot =>
      refine settledExit_callSettles hreached.le (Nat.zero_le 1)
        ⟨fun ⟨v, hv⟩ => (nomatch hv), fun ⟨job', hjob', hgood⟩ => ?_⟩
      cases hjob'
      rw [hclass] at hgood
      exact absurd rfl hgood
    | submitRaised job reason e hin hwait hclass hspot hlt hsub =>
      have hnone := hclean.resubmitted k hreached hin ⟨job, reason, hwait, hclass, hspot⟩ hlt
      rw [hsub] at hnone
      exact nomatch hnone
    | onDemand job reason hin hwait hclass hspot hnlt hfallback =>
      have hk : k = retryLimit settings := Nat.le_antisymm hreached.le (Nat.le_of_not_lt hnlt)
      refine (onDemandExit_callSettles_iff hreached.le).mpr ?_
      subst hk
      exact (hclean.fallback hreached hin ⟨job, reason, hwait, hclass, hspot⟩).2
    | exhausted job reason hin hwait hclass hspot hnlt hfallback =>
      have hk : k = retryLimit settings := Nat.le_antisymm hreached.le (Nat.le_of_not_lt hnlt)
      subst hk
      have htrue := (hclean.fallback hreached hin ⟨job, reason, hwait, hclass, hspot⟩).1
      rw [hfallback] at htrue
      exact nomatch htrue

end

/-! ## Sequences of calls -/

/-- A sequence of calls on a handle whose mirror is open, or settled with what a call can settle
it with. -/
theorem settles_iff_of_settable {hooks : Hooks J} {settings : Settings} :
    ∀ {mirror : Option (Outcome J ε β)}, (∀ o, mirror = some o → Settable o) →
      ∀ calls : List (Call J ε β),
        Settles hooks settings mirror calls ↔ CleanCalls hooks settings mirror calls
  | mirror, _, [] => Iff.rfl
  | none, _, c :: cs => by
    have hsettable : ∀ o, (result hooks settings c.script c.timeout none).mirror = some o →
        Settable o := by
      obtain ⟨k, -, -, hends⟩ : ∃ k, Reached hooks settings c.script c.timeout k ∧
          (∀ j, Reached hooks settings c.script c.timeout j → j ≤ k) ∧
          Ends hooks settings c.script c.timeout none k
            (result hooks settings c.script c.timeout none) := result_ends_by c.timeout none
      exact hends.settable
    have hrest : Settles hooks settings (result hooks settings c.script c.timeout none).mirror cs ↔
        CleanCalls hooks settings (result hooks settings c.script c.timeout none).mirror cs :=
      settles_iff_of_settable hsettable cs
    rw [Settles, CleanCalls, callSettles_none_iff, hrest]
    exact ⟨fun h => ⟨⟨rfl, h.1⟩, h.2⟩, fun h => ⟨h.1.2, h.2⟩⟩
  | some o, hmirror, c :: cs => by
    -- the call cannot give `o` again
    rw [Settles, CleanCalls]
    obtain ⟨k, -, -, hends⟩ : ∃ k, Reached hooks settings c.script c.timeout k ∧
        (∀ j, Reached hooks settings c.script c.timeout j → j ≤ k) ∧
        Ends hooks settings c.script c.timeout (some o) k
          (result hooks settings c.script c.timeout (some o)) :=
      result_ends_by c.timeout (some o)
    exact ⟨fun h => absurd (h.1.stays o rfl) (hends.outcome_ne (hmirror o rfl)),
      fun h => absurd h.1.1 (Option.some_ne_none o)⟩

/-- A sequence of calls of `result` on a new handle settles it once, with the outcome that every
call reports, if and only if each call comes while the mirror is open, and is clean. -/
theorem settles_iff (hooks : Hooks J) (settings : Settings) (calls : List (Call J ε β)) :
    Settles hooks settings none calls ↔ CleanCalls hooks settings none calls :=
  settles_iff_of_settable (fun o h => absurd h.symm (Option.some_ne_none o)) calls

/-- A job is `true` if it succeeds, and fails otherwise. -/
def plainHooks : Hooks Bool where
  classify job := (if job then .succeeded else .failed, none)
  isSpotInterruption _ := false

/-- The job has succeeded at the first wait. -/
def succeedsAtOnce : Script Bool Unit Nat where
  wait _ := (0, .ok true)
  random _ := 0
  resolve _ := .ok 7
  resubmit _ := none
  submitOnDemand := none
  fallbackWait := (0, .ok true)
  fallbackResolve := .ok 7

/-- The second call for a result that was returned raises. -/
theorem second_call_raises :
    (result plainHooks ⟨none, false⟩ succeedsAtOnce none none).outcome = .value (some 7) ∧
      (result plainHooks ⟨none, false⟩ succeedsAtOnce none
        (result plainHooks ⟨none, false⟩ succeedsAtOnce none none).mirror).outcome =
        .raised .invalidStateError ∧
      ¬ Settles plainHooks ⟨none, false⟩ none
        [⟨none, succeedsAtOnce⟩, ⟨none, succeedsAtOnce⟩] := by
  refine ⟨rfl, rfl, fun h => ?_⟩
  have hsame := h.2.1.stays (.value (some 7)) rfl
  exact nomatch hsame

end OSimFlow.Executors.PollingHandle
