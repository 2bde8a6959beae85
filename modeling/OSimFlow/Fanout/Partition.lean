import OSimFlow.Fanout.Modes

/-!
# When a fan-out accounts for every sample

`Partition` is what a caller of `submit_and_await_all` counts on: if the call
returns, every submitted sample is accounted for, and whatever happened to
the others, every sample has been awaited.

Both modes come down to two properties of the samples on their own, read off
their scripts and the directories their jobs are in: `SamplesSettle` and
`SamplesReturn`. The pool awaits everything and always returns, so it needs
each sample to settle. The loop stops at the first sample that raises: it
needs every sample but the last to return, and, where it returns at all, each
to settle.

What does not settle is mostly the work of recovery, which runs inside an
exception handler after it has popped the failed status: a resubmitted handle
that is cancelled leaves the job pending and the state without a status
(`lostSubmissions`).
-/

namespace OSimFlow.Fanout

open OSimFlow.Lib
open OSimFlow.Campaign (Step)
open OSimFlow.Queues.JobFiles (Recovered enqueue_recovered)

instance (step : Step) (w : SampleWorld) : Decidable (Accounted step w) :=
  inferInstanceAs (Decidable (_ ∧ _ ∧ _))

/-- A call that ended so has put each sample in one of two places, and has
awaited each. -/
def Partition (step : Step) (sids : List String) (outcome : Except PyError Unit)
    (worlds : String → SampleWorld) : Prop :=
  (outcome = .ok () → ∀ sid ∈ sids, Accounted step (worlds sid)) ∧
    ∀ sid ∈ sids, (worlds sid).awaited = true

section Conditions

variable (subs : Submissions) (cfg : FanoutConfig) (W : String → SampleWorld)

/-- The directories a sample's job is in once it is enqueued. -/
def Submissions.presence (sid : String) : Presence :=
  Fanout.presence (subs.enqueued cfg W sid).jobs

/-- The sample settles, from its script and the state it was found in. -/
def Submissions.Settles (sid : String) : Prop :=
  (subs.script sid).Settles cfg (subs.presence cfg W sid) (Stale cfg.step (W sid).row)

/-- The sample's `_await_one` returns, likewise. -/
def Submissions.Returns (sid : String) : Prop :=
  (subs.script sid).Returns cfg (subs.presence cfg W sid)

end Conditions

section Iff

variable {subs : Submissions} {cfg : FanoutConfig} {W : String → SampleWorld}

theorem enqueued_worlds_recovered (hW : ∀ sid ∈ subs.sids, Recovered (W sid).jobs)
    {sid : String} (hm : sid ∈ subs.sids) :
    Recovered (subs.enqueued cfg W sid).jobs := by
  rw [Submissions.enqueued, if_pos hm]
  exact enqueue_recovered (hW sid hm) _ _ _

/-- One sample on its own. -/
theorem alone_ends (hW : ∀ sid ∈ subs.sids, Recovered (W sid).jobs)
    {sid : String} (hm : sid ∈ subs.sids) :
    Ends cfg.step (subs.alone cfg W sid) (subs.Settles cfg W sid)
      (subs.Returns cfg W sid) := by
  have hends := awaitOne_ends cfg (subs.script sid)
    (@enqueued_worlds_recovered subs cfg W hW sid hm)
  have hrow : (subs.enqueued cfg W sid).row = (W sid).row := by
    rw [Submissions.enqueued, if_pos hm]
  rw [hrow] at hends
  exact hends

/-- The pool: every sample is awaited, and the call returns. -/
theorem pool_partition_iff (hW : ∀ sid ∈ subs.sids, Recovered (W sid).jobs)
    {r : FanoutRun (String → SampleWorld)} (h : Tracked subs cfg W r)
    {outcome : Except PyError Unit} (hm : r.main = .done outcome) :
    Partition cfg.step subs.sids outcome r.pool.shared ↔
      ∀ sid ∈ subs.sids, subs.Settles cfg W sid := by
  obtain ⟨rfl, hshared, -⟩ := h.returned hm
  have hworld : ∀ sid ∈ subs.sids, r.pool.shared sid = (subs.alone cfg W sid).2 := by
    intro sid hs
    rw [hshared, Submissions.awaitedWorlds, if_pos hs]
  constructor
  · rintro ⟨hacc, -⟩ sid hs
    have := hacc rfl sid hs
    rw [hworld sid hs] at this
    exact (alone_ends hW hs).accounted.mp this
  · intro hsettle
    refine ⟨fun _ sid hs => ?_, fun sid hs => ?_⟩
    · rw [hworld sid hs]
      exact (alone_ends hW hs).accounted.mpr (hsettle sid hs)
    · rw [hworld sid hs]
      exact alone_awaited sid

/-- The loop: it needs every sample but the last to return. -/
theorem loop_partition_iff (hW : ∀ sid ∈ subs.sids, Recovered (W sid).jobs)
    {polled : Nat → Polled} (hp : ∀ n, polled n = ⟨false, false⟩) :
    Partition cfg.step subs.sids (subs.sequential cfg W polled false).outcome
        (subs.sequential cfg W polled false).shared ↔
      (∀ sid ∈ subs.sids.dropLast, subs.Returns cfg W sid) ∧
        ((∀ sid ∈ subs.sids, subs.Returns cfg W sid) →
          ∀ sid ∈ subs.sids, subs.Settles cfg W sid) := by
  unfold Submissions.sequential
  by_cases hnil : subs.sids = []
  · simp [hnil, Partition]
  obtain ⟨outcome, hrun, hok⟩ := @sequentialLoop_spec subs cfg W polled hp subs.sids
    subs.nodup 0 (subs.enqueued cfg W) fun _ _ => rfl
  rw [if_neg hnil, hrun]
  have hreturns : ∀ sid ∈ subs.sids,
      ((subs.alone cfg W sid).1 = .ok () ↔ subs.Returns cfg W sid) :=
    fun sid hs => (alone_ends hW hs).returns
  have hlast : (∀ sid ∈ subs.sids, sid ∈ subs.attempted cfg W subs.sids) ↔
      ∀ sid ∈ subs.sids.dropLast, subs.Returns cfg W sid := by
    rw [attempted_all subs.nodup]
    exact forall₂_congr fun sid hs => hreturns sid (List.dropLast_subset _ hs)
  have hawaited : (∀ sid ∈ subs.sids, (if sid ∈ subs.attempted cfg W subs.sids
      then (subs.alone cfg W sid).2 else subs.enqueued cfg W sid).awaited = true) ↔
      ∀ sid ∈ subs.sids, sid ∈ subs.attempted cfg W subs.sids := by
    refine forall₂_congr fun sid hs => ?_
    by_cases ha : sid ∈ subs.attempted cfg W subs.sids
    · simp [ha, alone_awaited]
    · simp [ha, Submissions.enqueued, hs]
  have hall : outcome = .ok () ↔ ∀ sid ∈ subs.sids, subs.Returns cfg W sid := by
    rw [hok]
    exact forall₂_congr hreturns
  unfold Partition
  rw [hawaited, hlast, hall, and_comm]
  refine and_congr_right fun hdrop => imp_congr_right fun _ => forall₂_congr fun sid hs => ?_
  simp only [if_pos (hlast.mpr hdrop sid hs)]
  exact (alone_ends hW hs).accounted

end Iff

/-! ## Two samples -/

/-- Everything goes well. -/
def smoothScript : Script where
  result _ := .result
  onSuccess _ _ := .done
  markCompleted _ := .ok
  markFailed _ := .ok
  checkpointSample _ := .ok
  recordSampleStatus _ := .ok
  maybeAlert _ := .ok
  canRecover _ := true
  resubmit _ := .handle
  buildSampleTrace _ := .ok
  updateSample _ := .ok
  newTraceId := "0123abcd"
  now := 0

/-- The handle raises, and so does the one it is resubmitted as: with a
cancellation error. -/
def lostScript : Script :=
  { smoothScript with
    result := fun handle => if handle = 0 then .exception "stale heartbeat"
      else .cancelled "resubmission cancelled" }

/-- Two samples, the first of them lost. -/
def lostSubmissions : Submissions where
  sids := ["0001", "0002"]
  nodup := by decide
  script sid := if sid = "0001" then lostScript else smoothScript

def recoveringConfig : FanoutConfig where
  step := .runOpenstudioSim
  maxSampleRetries := 1
  recoveryManager := true
  resubmitCallback := true

/-- No job files, no state. -/
def freshWorld : SampleWorld where
  jobs _ := none
  row := ∅
  awaited := false

/-- Both workers at once, each to its end, then one turn of the wait loop. -/
def oneTurn (n : Nat) : List Event :=
  [.start, .start] ++ List.replicate n (.advance "0001") ++
    List.replicate n (.advance "0002") ++
    [.wait ["0001", "0002"], .check ⟨false, false⟩, .drain, .drain, .drain, .join]

/-- Two samples, nothing goes wrong. -/
def smoothSubmissions : Submissions where
  sids := ["0001", "0002"]
  nodup := by decide
  script _ := smoothScript

end OSimFlow.Fanout
