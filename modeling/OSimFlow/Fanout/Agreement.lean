import OSimFlow.Fanout.Partition

/-!
# Where the two modes of a fan-out agree

Without pause and cancel, and as long as no sample's `_await_one` raises, the
number of workers cannot be told from the end of a call: same return, same
job files and state for every sample, no accounting error, whatever the
schedule. What raises ends the loop, but not the pool: that one returns after
every sample, in the state `_await_one` leaves it in alone, with an
accounting error for each that raised.

A pause is different by design. The loop raises `CampaignPauseRequested`
before the sample it was seen at and leaves the rest unawaited; the pool
stops polling, lets what is submitted finish, and returns — its caller looks
at the pause flag itself before the next step.
-/

namespace OSimFlow.Fanout

open OSimFlow.Lib

/-- A concurrent call that is back in its caller, as a call that ended. -/
def FanoutRun.ended {σ : Type} (r : FanoutRun σ) (outcome : Except PyError Unit) :
    Ended σ :=
  ⟨outcome, r.pausedWrites, r.accountingErrors, r.pool.shared⟩

/-- No poll answers yes. -/
def calm : Nat → Polled := fun _ => ⟨false, false⟩

section Modes

variable {subs : Submissions} {cfg : FanoutConfig} {W : String → SampleWorld}

theorem awaitedWorlds_eq {sid : String} :
    (if sid ∈ subs.sids then (subs.alone cfg W sid).2 else subs.enqueued cfg W sid) =
      subs.awaitedWorlds cfg W sid := by
  unfold Submissions.awaitedWorlds
  by_cases hs : sid ∈ subs.sids
  · rw [if_pos hs, if_pos hs]
  · rw [if_neg hs, if_neg hs, Submissions.enqueued, if_neg hs]

/-- The loop under any polls, no sample raising. -/
theorem sequential_pause {polled : Nat → Polled} (hp : ∀ n, (polled n).cancel = false)
    (hok : ∀ sid ∈ subs.sids, (subs.alone cfg W sid).1 = .ok ()) :
    ∃ k ≤ subs.sids.length, (∀ j < k, (polled j).pause = false) ∧
      (k < subs.sids.length → (polled k).pause = true) ∧
      subs.sequential cfg W polled false =
        ⟨if k < subs.sids.length then .error pauseRaised else .ok (),
          if k < subs.sids.length then 1 else 0, [],
          fun sid => if sid ∈ subs.sids.take k then (subs.alone cfg W sid).2
            else subs.enqueued cfg W sid⟩ := by
  have hloop := @sequentialLoop_pause subs cfg W polled hp subs.sids subs.nodup hok 0
    (subs.enqueued cfg W) fun _ _ => rfl
  simp only [Nat.zero_add] at hloop
  unfold Submissions.sequential
  by_cases hnil : subs.sids = []
  · exact ⟨0, Nat.zero_le _, fun j hj => absurd hj (Nat.not_lt_zero j),
      by simp [hnil], by simp [hnil]⟩
  · rw [if_neg hnil]
    exact hloop

/-- The loop under no pause, no sample raising. -/
theorem sequential_calm (hok : ∀ sid ∈ subs.sids, (subs.alone cfg W sid).1 = .ok ()) :
    subs.sequential cfg W calm false = ⟨.ok (), 0, [], subs.awaitedWorlds cfg W⟩ := by
  obtain ⟨k, hk, -, hat, hrun⟩ := @sequential_pause subs cfg W calm (fun _ => rfl) hok
  have hend : ¬ k < subs.sids.length := fun hlt => nomatch hat hlt
  rw [hrun, if_neg hend, if_neg hend, List.take_of_length_le (Nat.le_of_not_lt hend)]
  exact congrArg (Ended.mk _ 0 []) (funext fun _ => awaitedWorlds_eq)

/-- The pool under any schedule without pause and cancel. -/
theorem concurrent_end (maxWorkers : Nat) {es : List Event} (hes : ∀ e ∈ es, e.Calm)
    {outcome : Except PyError Unit}
    (hm : (subs.concurrent cfg W maxWorkers es).main = .done outcome) :
    outcome = .ok () ∧
      (subs.concurrent cfg W maxWorkers es).pool.shared = subs.awaitedWorlds cfg W ∧
      (subs.concurrent cfg W maxWorkers es).accountingErrors.Perm
        (subs.sids.filterMap (subs.accountingError cfg W)) := by
  have htracked := @concurrent_tracked subs cfg W maxWorkers es
    fun e he => (hes e he).noCancel
  obtain ⟨hok, hshared, hdrained⟩ := htracked.returned hm
  refine ⟨hok, hshared, ?_⟩
  rcases hdrained with ⟨-, drained, hperm, herr⟩ | hpaused
  · rw [List.append_nil] at hperm
    rw [herr]
    exact hperm.filterMap _
  · rw [concurrent_calm maxWorkers hes] at hpaused
    exact nomatch hpaused

theorem no_accountingErrors (hok : ∀ sid ∈ subs.sids, (subs.alone cfg W sid).1 = .ok ()) :
    subs.sids.filterMap (subs.accountingError cfg W) = [] := by
  refine List.filterMap_eq_nil_iff.mpr fun sid hs => ?_
  rw [Submissions.accountingError, hok sid hs]

end Modes

end OSimFlow.Fanout
