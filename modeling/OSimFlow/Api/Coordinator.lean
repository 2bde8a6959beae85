import Mathlib.Data.List.Nodup
import Mathlib.Logic.Function.Basic
import OSimFlow.Lib.Run

/-!
# The coordinator's aggregation trigger

One campaign record, and everything that changes it on its way from `pending`
to `aggregating` to `complete`: submissions of an array job, status polls, the
EventBridge webhook, background pollers, and the aggregation endpoint. A handler
has no `await` in it, so it runs as one step; a poller runs from one `sleep` to
the next.

> `Triggered`: a flip to `aggregating` had the recorded job observed complete;
> an array job is flipped for, written down and aggregated once.
>
> `StaysComplete`: only a submission leaves `complete`.

A poller keeps the job id it started with, and the record may have moved on to
another job while it slept. `triggered_iff` says that this, and an aggregation
that is begun again after it failed, are the only ways to break the two.
-/

namespace OSimFlow.Coordinator

open OSimFlow.Lib

abbrev JobId := String

/-- The statuses that the code names. -/
inductive Status where
  | pending
  | running
  | aggregating
  | complete
  | completed
  | failed
  | succeeded
deriving DecidableEq

/-- `_TERMINAL_OR_AGGREGATING`. -/
def terminalOrAggregating : List Status := [.aggregating, .complete, .completed, .failed]

/-- `_AGGREGATION_DONE`. -/
def aggregationDone : List Status := [.complete, .completed, .failed, .succeeded]

/-- What `describe_jobs` says of an array job: `arrayProperties.size` and the counts of
`statusSummary`, 0 where they are absent. -/
structure JobDescription where
  size : Int
  succeeded : Int
  failed : Int
deriving DecidableEq

structure ArrayCompletion where
  complete : Bool
  succeeded : Int
  failed : Int
  pending : Int
  total : Int
deriving DecidableEq

/-- `_parse_array_completion`. -/
def parseArrayCompletion (job : JobDescription) : ArrayCompletion :=
  let total := if 0 < job.size then job.size else job.succeeded + job.failed
  let terminal := job.succeeded + job.failed
  { complete := decide (0 < job.size ∧ job.size ≤ terminal)
    succeeded := job.succeeded
    failed := job.failed
    pending := max (total - terminal) 0
    total := total }

inductive Source where
  | poll
  | eventbridge
deriving DecidableEq

/-- `rec["array_completion"]`. -/
structure CompletionRecord where
  succeeded : Int
  failed : Int
  total : Int
  source : Source
deriving DecidableEq

/-- The fields of a campaign record that take part. -/
structure CampaignRecord where
  status : Status
  arrayJobId : Option JobId
  arrayCompletion : Option CompletionRecord
  resultAvailable : Bool
deriving DecidableEq

/-- `_apply_completion_transition`: the record, and whether it was flipped. -/
def applyCompletionTransition (r : CampaignRecord) (completion : ArrayCompletion)
    (source : Source) : CampaignRecord × Bool :=
  if r.status ∈ terminalOrAggregating then (r, false)
  else if completion.complete = false then (r, false)
  else
    ({ r with
        status := .aggregating
        arrayCompletion :=
          some ⟨completion.succeeded, completion.failed, completion.total, source⟩ }, true)

/-- `_apply_aggregation_transition`. -/
def applyAggregationTransition (r : CampaignRecord) : CampaignRecord :=
  { r with status := .complete, resultAvailable := true }

/-- `_job_id_matches`. -/
def jobIdMatches (parent reported : JobId) : Bool :=
  reported != "" && (reported == parent || (parent.toList ++ [':']).isPrefixOf reported.toList)

/-- A poller: not begun or over, or asleep with the job it polls and the attempts left. -/
inductive Poller where
  | idle
  | asleep (job : JobId) (attempts : Nat)
deriving DecidableEq

/-- A flip to `aggregating`: the job then recorded, the job whose description made it,
and whether the recorded one had been observed complete. -/
structure Flip where
  recorded : Option JobId
  polled : JobId
  confirmed : Bool
deriving DecidableEq

/-- The record and the pollers. For the account: the jobs submitted, those observed
complete, the flips, the jobs recorded when an aggregation began, and whether one
failed since the last flip. -/
structure World (P : Type) where
  record : CampaignRecord
  poller : P → Poller
  submitted : List JobId
  observed : List JobId
  flips : List Flip
  begun : List (Option JobId)
  broken : Bool

/-- How an aggregation ends: refused for want of storage or manifests, with an error
of the storage on the way, or well. -/
inductive Aggregation where
  | refused
  | raises
  | completes
deriving DecidableEq

/-- What can happen. `job` is what Batch says of the job that is looked up; `none` where
the lookup fails. -/
inductive Event (P : Type) where
  | submitArray (id : JobId)
  | pollArray (job : Option JobDescription)
  | arrayComplete (authentic : Bool) (reported : JobId) (job : Option JobDescription)
  | startPoller (p : P) (maxAttempts : Nat) (job : Option JobDescription)
  | wakePoller (p : P) (job : Option JobDescription)
  | aggregate (how : Aggregation)

namespace World

variable {P : Type}

/-- The record as `handoff` makes it. -/
def start : World P :=
  ⟨⟨.pending, none, none, false⟩, fun _ => .idle, [], [], [], [], false⟩

variable (w : World P)

/-- The job `id` is seen as `job`. -/
def sees (id : JobId) (job : JobDescription) : World P :=
  if (parseArrayCompletion job).complete then { w with observed := id :: w.observed } else w

/-- The transition is applied for what was seen of `id`. -/
def applied (id : JobId) (job : JobDescription) (source : Source) : World P :=
  let (r, flipped) := applyCompletionTransition w.record (parseArrayCompletion job) source
  let flip := ⟨w.record.arrayJobId, id, decide (w.record.arrayJobId ∈ w.observed.map some)⟩
  { w with
    record := r
    flips := if flipped then flip :: w.flips else w.flips
    broken := w.broken && !flipped }

/-- The poller's state is set. -/
def setPoller [DecidableEq P] (p : P) (s : Poller) : World P :=
  { w with poller := Function.update w.poller p s }

/-- One turn of the loop of `poll_array_job_to_completion`, up to its `sleep` or its
return; `attempts` turns are left, this one included. -/
def turn [DecidableEq P] (p : P) (id : JobId) (attempts : Nat) (job : Option JobDescription) :
    World P :=
  match attempts with
  | 0 => w.setPoller p .idle
  | attempts + 1 =>
    if w.record.status ∈ terminalOrAggregating then
      match job with
      | some job => (w.sees id job).setPoller p .idle
      | none => w.setPoller p .idle
    else
      match job with
      | none => w.setPoller p (.asleep id attempts)
      | some job =>
        ((w.sees id job).applied id job .poll).setPoller p
          (if (parseArrayCompletion job).complete then .idle else .asleep id attempts)

def step [DecidableEq P] (w : World P) : Event P → World P
  | .submitArray id =>
    -- Batch gives every job its own id
    if id ∈ w.submitted then w
    else
      { w with
        record := { w.record with status := .pending, arrayJobId := some id }
        submitted := id :: w.submitted }
  | .pollArray job =>
    match w.record.arrayJobId, job with
    | some id, some job => (w.sees id job).applied id job .poll
    | _, _ => w
  | .arrayComplete authentic reported job =>
    match authentic, w.record.arrayJobId, job with
    | true, some id, some job =>
      if jobIdMatches id reported then (w.sees id job).applied id job .eventbridge else w
    | _, _, _ => w
  | .startPoller p maxAttempts job =>
    match w.poller p, w.record.arrayJobId with
    | .idle, some id => w.turn p id maxAttempts job
    | _, _ => w
  | .wakePoller p job =>
    match w.poller p with
    | .asleep id attempts => w.turn p id attempts job
    | .idle => w
  | .aggregate how =>
    if w.record.status ∈ aggregationDone then w
    else if w.record.status ≠ .aggregating then w
    else
      match how with
      | .refused => w
      | .raises => { w with begun := w.record.arrayJobId :: w.begun, broken := true }
      | .completes =>
        { w with
          record := applyAggregationTransition w.record
          begun := w.record.arrayJobId :: w.begun }

/-! ## What the trigger is for -/

/-- Every flip was confirmed; no job is flipped for, written down or aggregated twice. -/
structure Triggered : Prop where
  confirmed : ∀ f ∈ w.flips, f.confirmed = true
  recordedOnce : (w.flips.map Flip.recorded).Nodup
  writtenOnce : (w.flips.map Flip.polled).Nodup
  begunOnce : w.begun.Nodup

/-- Only a submission leaves `complete`. -/
def StaysComplete [DecidableEq P] (w : World P) (e : Event P) : Prop :=
  w.record.status = .complete → (∀ id, e ≠ .submitArray id) →
    (w.step e).record.status = .complete

/-- A poller that finds its job complete, in a campaign that is not aggregating yet,
polls the recorded job; and no aggregation is begun after one that failed. -/
def Guarded : Event P → Prop
  | .wakePoller p job => ∀ id attempts, w.poller p = .asleep id (attempts + 1) →
      w.record.status ∉ terminalOrAggregating →
      (∀ j ∈ job, (parseArrayCompletion j).complete = true → w.record.arrayJobId = some id)
  | .aggregate how => w.record.status = .aggregating → how ≠ .refused → w.broken = false
  | _ => True

/-! ## The invariant -/

/-- What holds of the record and the account whatever happens. -/
structure Tracked : Prop where
  statuses : w.record.status = .pending ∨ w.record.status = .aggregating ∨
    w.record.status = .complete
  job : ∀ id, w.record.arrayJobId = some id → id ∈ w.submitted
  pollers : ∀ p id attempts, w.poller p = .asleep id attempts →
    id ∈ w.submitted ∧ w.record.arrayJobId.isSome
  seen : ∀ id ∈ w.observed, id ∈ w.submitted
  flipped : ∀ f ∈ w.flips, ∀ id, f.recorded = some id → id ∈ w.submitted
  begins : ∀ id, some id ∈ w.begun → id ∈ w.submitted
  hasJob : w.record.status ≠ .pending → w.record.arrayJobId.isSome
  untouched : w.record.status = .pending → ∀ id, w.record.arrayJobId = some id →
    id ∉ w.observed ∧ (∀ f ∈ w.flips, f.recorded ≠ some id) ∧ some id ∉ w.begun
  own : ∀ f ∈ w.flips, f.confirmed = true → f.recorded = some f.polled
  running : w.record.status = .aggregating →
    (w.record.arrayJobId ∈ w.begun ↔ w.broken = true)

variable {w}

theorem start_tracked : (start : World P).Tracked where
  statuses := Or.inl rfl
  job := fun _ h => nomatch h
  pollers := fun _ _ _ h => nomatch h
  seen := fun _ h => nomatch h
  flipped := fun _ h => nomatch h
  begins := fun _ h => nomatch h
  hasJob := fun h => absurd rfl h
  untouched := fun _ _ h => nomatch h
  own := fun _ h => nomatch h
  running := fun h => nomatch h

theorem start_triggered : (start : World P).Triggered where
  confirmed := fun _ h => nomatch h
  recordedOnce := List.nodup_nil
  writtenOnce := List.nodup_nil
  begunOnce := List.nodup_nil

theorem Tracked.pending_iff (hw : w.Tracked) :
    w.record.status ∉ terminalOrAggregating ↔ w.record.status = .pending := by
  rcases hw.statuses with h | h | h <;> rw [h] <;> decide

/-- A job seen complete in a campaign that is past the trigger. -/
def noted (w : World P) (id : JobId) : World P :=
  { w with observed := id :: w.observed }

/-- The flip. -/
def flippedBy (w : World P) (id : JobId) (job : JobDescription) (source : Source) : World P :=
  { w with
    record := { w.record with
      status := .aggregating
      arrayCompletion := some ⟨(parseArrayCompletion job).succeeded,
        (parseArrayCompletion job).failed, (parseArrayCompletion job).total, source⟩ }
    observed := id :: w.observed
    flips := ⟨w.record.arrayJobId, id,
      decide (w.record.arrayJobId ∈ (id :: w.observed).map some)⟩ :: w.flips
    broken := false }

/-- What a look at a job does: nothing, a note, or the flip. -/
theorem applied_cases (w : World P) (id : JobId) (job : JobDescription) (source : Source) :
    ((parseArrayCompletion job).complete = false ∧ (w.sees id job).applied id job source = w) ∨
    ((parseArrayCompletion job).complete = true ∧ w.record.status ∈ terminalOrAggregating ∧
      (w.sees id job).applied id job source = w.noted id) ∨
    ((parseArrayCompletion job).complete = true ∧ w.record.status ∉ terminalOrAggregating ∧
      (w.sees id job).applied id job source = w.flippedBy id job source) := by
  cases hc : (parseArrayCompletion job).complete with
  | false =>
    refine Or.inl ⟨rfl, ?_⟩
    have hsees : w.sees id job = w := by
      unfold sees
      rw [hc]
      rfl
    have happly : applyCompletionTransition w.record (parseArrayCompletion job) source =
        (w.record, false) := by
      unfold applyCompletionTransition
      rw [hc]
      split
      · rfl
      · rfl
    rw [hsees]
    unfold applied
    rw [happly]
    simp
  | true =>
    have hsees : w.sees id job = w.noted id := by
      unfold sees
      rw [hc]
      rfl
    rw [hsees]
    by_cases hs : w.record.status ∈ terminalOrAggregating
    · refine Or.inr (Or.inl ⟨rfl, hs, ?_⟩)
      have happly : applyCompletionTransition (w.noted id).record (parseArrayCompletion job)
          source = (w.record, false) := if_pos hs
      unfold applied
      rw [happly]
      simp [noted]
    · refine Or.inr (Or.inr ⟨rfl, hs, ?_⟩)
      have happly : applyCompletionTransition (w.noted id).record (parseArrayCompletion job)
          source = ((w.flippedBy id job source).record, true) := by
        have hs' : (w.noted id).record.status ∉ terminalOrAggregating := hs
        unfold applyCompletionTransition
        rw [if_neg hs', hc]
        rfl
      unfold applied
      rw [happly]
      simp [noted, flippedBy]

theorem noted_tracked (hw : w.Tracked) {id : JobId} (hid : id ∈ w.submitted)
    (hs : w.record.status ∈ terminalOrAggregating) : (w.noted id).Tracked :=
  { hw with
    seen := fun id' hmem => by
      rcases List.mem_cons.mp hmem with he | hmem
      · rw [he]
        exact hid
      · exact hw.seen id' hmem
    untouched := fun hp => absurd hs (hw.pending_iff.mpr hp) }

/-- A flip from `pending`. The recorded job was not observed before. -/
theorem flipped_tracked (hw : w.Tracked) {id : JobId} (hid : id ∈ w.submitted)
    (hjob : w.record.arrayJobId.isSome) (hs : w.record.status = .pending)
    (job : JobDescription) (source : Source) : (w.flippedBy id job source).Tracked := by
  obtain ⟨current, hcurrent⟩ := Option.isSome_iff_exists.mp hjob
  obtain ⟨hunseen, hunflipped, hunbegun⟩ := hw.untouched hs current hcurrent
  refine {
    statuses := Or.inr (Or.inl rfl)
    job := hw.job
    pollers := hw.pollers
    seen := fun id' hmem => ?_
    flipped := fun f hmem id' hrec => ?_
    begins := hw.begins
    hasJob := fun _ => hjob
    untouched := fun hp => nomatch hp
    own := fun f hmem hconf => ?_
    running := fun _ => ?_ }
  · rcases List.mem_cons.mp hmem with he | hmem
    · rw [he]
      exact hid
    · exact hw.seen id' hmem
  · rcases List.mem_cons.mp hmem with he | hmem
    · rw [he] at hrec
      exact hw.job id' hrec
    · exact hw.flipped f hmem id' hrec
  · rcases List.mem_cons.mp hmem with he | hmem
    · rw [he] at hconf ⊢
      have hin : w.record.arrayJobId ∈ (id :: w.observed).map some := of_decide_eq_true hconf
      rw [hcurrent] at hin
      obtain ⟨id', hmem', he'⟩ := List.mem_map.mp hin
      cases he'
      rcases List.mem_cons.mp hmem' with he' | hmem'
      · show w.record.arrayJobId = some id
        rw [hcurrent, he']
      · exact absurd hmem' hunseen
    · exact hw.own f hmem hconf
  · show w.record.arrayJobId ∈ w.begun ↔ false = true
    rw [hcurrent]
    exact ⟨fun hmem => absurd hmem hunbegun, fun h => nomatch h⟩

/-- A flip is as it should be exactly when the job looked at is the recorded one. -/
theorem flipped_triggered (hw : w.Tracked) (ht : w.Triggered) {id : JobId}
    (hid : id ∈ w.submitted) (hjob : w.record.arrayJobId.isSome)
    (hs : w.record.status = .pending) (job : JobDescription) (source : Source) :
    (w.flippedBy id job source).Triggered ↔ w.record.arrayJobId = some id := by
  constructor
  · intro h
    have hconf := h.confirmed _ List.mem_cons_self
    exact (flipped_tracked hw hid hjob hs job source).own _ List.mem_cons_self hconf
  · intro hcurrent
    obtain ⟨-, hunflipped, -⟩ := hw.untouched hs id hcurrent
    refine ⟨fun f hmem => ?_, ?_, ?_, ht.begunOnce⟩
    · rcases List.mem_cons.mp hmem with he | hmem
      · rw [he]
        refine decide_eq_true ?_
        rw [hcurrent]
        exact List.mem_cons_self
      · exact ht.confirmed f hmem
    · refine List.nodup_cons.mpr ⟨fun hmem => ?_, ht.recordedOnce⟩
      obtain ⟨f, hf, he⟩ := List.mem_map.mp hmem
      exact hunflipped f hf (he.trans hcurrent)
    · refine List.nodup_cons.mpr ⟨fun hmem => ?_, ht.writtenOnce⟩
      obtain ⟨f, hf, he⟩ := List.mem_map.mp hmem
      have hown := hw.own f hf (ht.confirmed f hf)
      rw [he] at hown
      exact hunflipped f hf hown

/-- A note changes nothing that the trigger is judged by. -/
theorem noted_triggered (id : JobId) : (w.noted id).Triggered ↔ w.Triggered :=
  ⟨fun h => ⟨h.confirmed, h.recordedOnce, h.writtenOnce, h.begunOnce⟩,
    fun h => ⟨h.confirmed, h.recordedOnce, h.writtenOnce, h.begunOnce⟩⟩

theorem applied_tracked (hw : w.Tracked) {id : JobId} (hid : id ∈ w.submitted)
    (hjob : w.record.arrayJobId.isSome) (job : JobDescription) (source : Source) :
    ((w.sees id job).applied id job source).Tracked := by
  rcases applied_cases w id job source with ⟨-, he⟩ | ⟨-, hs, he⟩ | ⟨-, hs, he⟩
  · rw [he]
    exact hw
  · rw [he]
    exact noted_tracked hw hid hs
  · rw [he]
    exact flipped_tracked hw hid hjob (hw.pending_iff.mp hs) job source

theorem applied_triggered (hw : w.Tracked) (ht : w.Triggered) {id : JobId}
    (hid : id ∈ w.submitted) (hjob : w.record.arrayJobId.isSome) (job : JobDescription)
    (source : Source) :
    ((w.sees id job).applied id job source).Triggered ↔
      (w.record.status ∉ terminalOrAggregating → (parseArrayCompletion job).complete = true →
        w.record.arrayJobId = some id) := by
  rcases applied_cases w id job source with ⟨hc, he⟩ | ⟨-, hs, he⟩ | ⟨hc, hs, he⟩
  · rw [he, hc]
    exact ⟨(fun _ _ h => nomatch h), fun _ => ht⟩
  · rw [he]
    exact ⟨fun _ hno => absurd hs hno, fun _ => (noted_triggered id).mpr ht⟩
  · rw [he, flipped_triggered hw ht hid hjob (hw.pending_iff.mp hs)]
    exact ⟨fun h _ _ => h, fun h => h hs hc⟩

/-- What the handlers look at is the recorded job. -/
theorem handled_triggered (hw : w.Tracked) (ht : w.Triggered) {id : JobId}
    (hid : w.record.arrayJobId = some id) (job : JobDescription) (source : Source) :
    ((w.sees id job).applied id job source).Tracked ∧
      ((w.sees id job).applied id job source).Triggered := by
  have hmem := hw.job id hid
  have hsome : w.record.arrayJobId.isSome := by
    rw [hid]
    rfl
  exact ⟨applied_tracked hw hmem hsome job source,
    (applied_triggered hw ht hmem hsome job source).mpr fun _ _ => hid⟩

theorem applied_record (w : World P) (id : JobId) (job : JobDescription) (source : Source) :
    ((w.sees id job).applied id job source).submitted = w.submitted ∧
      ((w.sees id job).applied id job source).record.arrayJobId = w.record.arrayJobId := by
  rcases applied_cases w id job source with ⟨-, he⟩ | ⟨-, -, he⟩ | ⟨-, -, he⟩
  all_goals
    rw [he]
    exact ⟨rfl, rfl⟩

/-- A new job: nothing is known of it. -/
theorem submit_tracked (hw : w.Tracked) {id : JobId} (hid : id ∉ w.submitted) :
    ({ w with
        record := { w.record with status := .pending, arrayJobId := some id }
        submitted := id :: w.submitted } : World P).Tracked := by
  refine {
    statuses := Or.inl rfl
    job := fun id' h => ?_
    pollers := fun p id' n hp => ⟨List.mem_cons_of_mem _ (hw.pollers p id' n hp).1, rfl⟩
    seen := fun id' hmem => List.mem_cons_of_mem _ (hw.seen id' hmem)
    flipped := fun f hf id' h => List.mem_cons_of_mem _ (hw.flipped f hf id' h)
    begins := fun id' hmem => List.mem_cons_of_mem _ (hw.begins id' hmem)
    hasJob := fun _ => rfl
    untouched := fun _ id' h => ?_
    own := hw.own
    running := fun h => nomatch h }
  · cases h
    exact List.mem_cons_self
  · cases h
    exact ⟨fun hmem => hid (hw.seen id hmem), fun f hf he => hid (hw.flipped f hf id he),
      fun hmem => hid (hw.begins id hmem)⟩

theorem begun_submitted (hw : w.Tracked) {id : JobId}
    (hmem : some id ∈ w.record.arrayJobId :: w.begun) : id ∈ w.submitted := by
  rcases List.mem_cons.mp hmem with he | hmem
  · exact hw.job id he.symm
  · exact hw.begins id hmem

theorem isSome_of_eq {id : JobId} (hid : w.record.arrayJobId = some id) :
    w.record.arrayJobId.isSome := by
  rw [hid]
  rfl

theorem applied_status {id : JobId} {job : JobDescription} {source : Source}
    (hs : w.record.status = .complete) :
    ((w.sees id job).applied id job source).record.status = .complete := by
  rcases applied_cases w id job source with ⟨-, he⟩ | ⟨-, -, he⟩ | ⟨-, hno, -⟩
  · rw [he]
    exact hs
  · rw [he]
    exact hs
  · rw [hs] at hno
    exact absurd (by decide) hno

theorem sees_of_done (w : World P) {id : JobId} {job : JobDescription} :
    w.sees id job = w ∨ w.sees id job = w.noted id := by
  unfold sees
  split
  · exact Or.inr rfl
  · exact Or.inl rfl

variable [DecidableEq P]

theorem setPoller_poller (w : World P) (p q : P) (s : Poller) :
    (w.setPoller p s).poller q = if q = p then s else w.poller q := by
  show Function.update w.poller p s q = _
  rw [Function.update_apply]

theorem setPoller_tracked (hw : w.Tracked) (p : P) {s : Poller}
    (hs : ∀ id attempts, s = .asleep id attempts →
      id ∈ w.submitted ∧ w.record.arrayJobId.isSome) : (w.setPoller p s).Tracked :=
  { hw with
    pollers := fun q id attempts hq => by
      rw [setPoller_poller] at hq
      split at hq
      · exact hs id attempts hq
      · exact hw.pollers q id attempts hq }

theorem setPoller_triggered (p : P) (s : Poller) :
    (w.setPoller p s).Triggered ↔ w.Triggered :=
  ⟨fun h => ⟨h.confirmed, h.recordedOnce, h.writtenOnce, h.begunOnce⟩,
    fun h => ⟨h.confirmed, h.recordedOnce, h.writtenOnce, h.begunOnce⟩⟩

theorem turn_tracked (hw : w.Tracked) {id : JobId} (hid : id ∈ w.submitted)
    (hjob : w.record.arrayJobId.isSome) (p : P) (attempts : Nat)
    (job : Option JobDescription) : (w.turn p id attempts job).Tracked := by
  have hidle : ∀ id' n, Poller.idle = .asleep id' n →
      id' ∈ w.submitted ∧ w.record.arrayJobId.isSome := fun _ _ h => nomatch h
  cases attempts with
  | zero => exact setPoller_tracked hw p hidle
  | succ attempts =>
    unfold turn
    dsimp only
    by_cases hs : w.record.status ∈ terminalOrAggregating
    · rw [if_pos hs]
      cases job with
      | none => exact setPoller_tracked hw p hidle
      | some job =>
        refine setPoller_tracked ?_ p (fun _ _ h => nomatch h)
        rcases sees_of_done w with he | he
        · rw [he]
          exact hw
        · rw [he]
          exact noted_tracked hw hid hs
    · rw [if_neg hs]
      cases job with
      | none =>
        refine setPoller_tracked hw p fun id' n he => ?_
        cases he
        exact ⟨hid, hjob⟩
      | some job =>
        obtain ⟨hsub, hrec⟩ := applied_record w id job .poll
        refine setPoller_tracked (applied_tracked hw hid hjob job .poll) p fun id' n he => ?_
        rw [hsub, hrec]
        by_cases hc : (parseArrayCompletion job).complete = true
        · rw [if_pos hc] at he
          exact nomatch he
        · rw [if_neg hc] at he
          cases he
          exact ⟨hid, hjob⟩

theorem turn_triggered (hw : w.Tracked) (ht : w.Triggered) {id : JobId}
    (hid : id ∈ w.submitted) (hjob : w.record.arrayJobId.isSome) (p : P) (attempts : Nat)
    (job : Option JobDescription) :
    (w.turn p id (attempts + 1) job).Triggered ↔
      (w.record.status ∉ terminalOrAggregating → ∀ j ∈ job,
        (parseArrayCompletion j).complete = true → w.record.arrayJobId = some id) := by
  unfold turn
  dsimp only
  by_cases hs : w.record.status ∈ terminalOrAggregating
  · rw [if_pos hs]
    refine ⟨fun _ hno => absurd hs hno, fun _ => ?_⟩
    cases job with
    | none => exact (setPoller_triggered p _).mpr ht
    | some job =>
      refine (setPoller_triggered p _).mpr ?_
      rcases sees_of_done w with he | he
      · rw [he]
        exact ht
      · rw [he]
        exact (noted_triggered id).mpr ht
  · rw [if_neg hs]
    cases job with
    | none =>
      exact ⟨(fun _ _ j h => nomatch h), fun _ => (setPoller_triggered p _).mpr ht⟩
    | some job =>
      rw [setPoller_triggered, applied_triggered hw ht hid hjob]
      constructor
      · intro h hno j hj hc
        cases hj
        exact h hno hc
      · intro h hno hc
        exact h hno job rfl hc

/-! ## One step at a time -/

/-- What an aggregation does: nothing, or, in a campaign that aggregates, it is begun. -/
theorem aggregate_cases (w : World P) (how : Aggregation) :
    (w.step (.aggregate how) = w ∧ (w.record.status = .aggregating → how = .refused)) ∨
    (w.record.status = .aggregating ∧ how ≠ .refused ∧
      (w.step (.aggregate how) =
          { w with begun := w.record.arrayJobId :: w.begun, broken := true } ∨
        w.step (.aggregate how) =
          { w with
            record := applyAggregationTransition w.record
            begun := w.record.arrayJobId :: w.begun })) := by
  by_cases hdone : w.record.status ∈ aggregationDone
  · refine Or.inl ⟨if_pos hdone, fun hs => ?_⟩
    rw [hs] at hdone
    exact absurd hdone (by decide)
  by_cases hs : w.record.status ≠ .aggregating
  · refine Or.inl ⟨?_, fun hs' => absurd hs' hs⟩
    show (if w.record.status ∈ aggregationDone then w else _) = w
    rw [if_neg hdone, if_pos hs]
  have he : w.step (.aggregate how) =
      (match how with
        | .refused => w
        | .raises => { w with begun := w.record.arrayJobId :: w.begun, broken := true }
        | .completes =>
          { w with
            record := applyAggregationTransition w.record
            begun := w.record.arrayJobId :: w.begun }) := by
    show (if w.record.status ∈ aggregationDone then w else _) = _
    rw [if_neg hdone, if_neg hs]
  have hagg := Decidable.not_not.mp hs
  cases how with
  | refused => exact Or.inl ⟨he, fun _ => rfl⟩
  | raises => exact Or.inr ⟨hagg, (fun h => nomatch h), Or.inl he⟩
  | completes => exact Or.inr ⟨hagg, (fun h => nomatch h), Or.inr he⟩

theorem aggregate_tracked (hw : w.Tracked) (how : Aggregation) :
    (w.step (.aggregate how)).Tracked := by
  rcases aggregate_cases w how with ⟨he, -⟩ | ⟨hs, -, he | he⟩
  · rw [he]
    exact hw
  · rw [he]
    exact { hw with
      begins := fun id hmem => begun_submitted hw hmem
      untouched := fun hp => by
        have hp' : w.record.status = .pending := hp
        rw [hs] at hp'
        exact nomatch hp'
      running := fun _ => ⟨fun _ => rfl, fun _ => List.mem_cons_self⟩ }
  · rw [he]
    exact { hw with
      statuses := Or.inr (Or.inr rfl)
      begins := fun id hmem => begun_submitted hw hmem
      hasJob := fun _ => hw.hasJob (by rw [hs]; exact fun h => nomatch h)
      untouched := fun hp => nomatch hp
      running := fun h => nomatch h }

theorem aggregate_triggered (hw : w.Tracked) (ht : w.Triggered) (how : Aggregation) :
    (w.step (.aggregate how)).Triggered ↔ w.Guarded (.aggregate how) := by
  rcases aggregate_cases w how with ⟨he, hrefused⟩ | ⟨hs, hhow, he⟩
  · rw [he]
    exact ⟨fun _ hs hne => absurd (hrefused hs) hne, fun _ => ht⟩
  · -- begun before for this job exactly when it failed
    have hbegun := hw.running hs
    have hiff : (w.step (.aggregate how)).Triggered ↔
        (w.record.arrayJobId :: w.begun).Nodup := by
      rcases he with he | he
      all_goals
        rw [he]
        exact ⟨fun h => h.begunOnce,
          fun h => ⟨ht.confirmed, ht.recordedOnce, ht.writtenOnce, h⟩⟩
    rw [hiff, List.nodup_cons, hbegun]
    constructor
    · intro h _ _
      exact Bool.not_eq_true _ ▸ h.1
    · intro h
      refine ⟨?_, ht.begunOnce⟩
      rw [h hs hhow]
      exact fun h => nomatch h

theorem pollArray_cases (w : World P) (job : Option JobDescription) :
    w.step (.pollArray job) = w ∨ ∃ id j, w.record.arrayJobId = some id ∧
      w.step (.pollArray job) = (w.sees id j).applied id j .poll := by
  unfold step
  dsimp only
  cases hid : w.record.arrayJobId with
  | none => exact Or.inl rfl
  | some id =>
    cases job with
    | none => exact Or.inl rfl
    | some j => exact Or.inr ⟨id, j, rfl, rfl⟩

theorem arrayComplete_cases (w : World P) (authentic : Bool) (reported : JobId)
    (job : Option JobDescription) :
    w.step (.arrayComplete authentic reported job) = w ∨
      ∃ id j, w.record.arrayJobId = some id ∧
        w.step (.arrayComplete authentic reported job) =
          (w.sees id j).applied id j .eventbridge := by
  unfold step
  dsimp only
  cases authentic with
  | false => exact Or.inl rfl
  | true =>
    cases hid : w.record.arrayJobId with
    | none => exact Or.inl rfl
    | some id =>
      cases job with
      | none => exact Or.inl rfl
      | some j =>
        dsimp only
        split
        · exact Or.inr ⟨id, j, rfl, rfl⟩
        · exact Or.inl rfl

theorem startPoller_cases (w : World P) (p : P) (maxAttempts : Nat)
    (job : Option JobDescription) :
    w.step (.startPoller p maxAttempts job) = w ∨ ∃ id, w.record.arrayJobId = some id ∧
      w.step (.startPoller p maxAttempts job) = w.turn p id maxAttempts job := by
  unfold step
  dsimp only
  cases w.poller p with
  | asleep id attempts => exact Or.inl rfl
  | idle =>
    cases hid : w.record.arrayJobId with
    | none => exact Or.inl rfl
    | some id => exact Or.inr ⟨id, rfl, rfl⟩

theorem wakePoller_asleep {p : P} {id : JobId} {attempts : Nat}
    (hp : w.poller p = .asleep id attempts) (job : Option JobDescription) :
    w.step (.wakePoller p job) = w.turn p id attempts job := by
  unfold step
  dsimp only
  rw [hp]

theorem wakePoller_idle {p : P} (hp : w.poller p = .idle) (job : Option JobDescription) :
    w.step (.wakePoller p job) = w := by
  unfold step
  dsimp only
  rw [hp]

theorem step_tracked (hw : w.Tracked) (e : Event P) : (w.step e).Tracked := by
  cases e with
  | submitArray id =>
    by_cases hid : id ∈ w.submitted
    · have he : w.step (.submitArray id) = w := if_pos hid
      rw [he]
      exact hw
    · have he : w.step (.submitArray id) = { w with
          record := { w.record with status := .pending, arrayJobId := some id }
          submitted := id :: w.submitted } := if_neg hid
      rw [he]
      exact submit_tracked hw hid
  | pollArray job =>
    rcases pollArray_cases w job with he | ⟨id, j, hid, he⟩
    · rw [he]
      exact hw
    · rw [he]
      exact applied_tracked hw (hw.job id hid) (isSome_of_eq hid) j .poll
  | arrayComplete authentic reported job =>
    rcases arrayComplete_cases w authentic reported job with he | ⟨id, j, hid, he⟩
    · rw [he]
      exact hw
    · rw [he]
      exact applied_tracked hw (hw.job id hid) (isSome_of_eq hid) j .eventbridge
  | startPoller p maxAttempts job =>
    rcases startPoller_cases w p maxAttempts job with he | ⟨id, hid, he⟩
    · rw [he]
      exact hw
    · rw [he]
      exact turn_tracked hw (hw.job id hid) (isSome_of_eq hid) p maxAttempts job
  | wakePoller p job =>
    cases hp : w.poller p with
    | idle =>
      rw [wakePoller_idle hp]
      exact hw
    | asleep id attempts =>
      obtain ⟨hid, hjob⟩ := hw.pollers p id attempts hp
      rw [wakePoller_asleep hp]
      exact turn_tracked hw hid hjob p attempts job
  | aggregate how => exact aggregate_tracked hw how

theorem wake_triggered (hw : w.Tracked) (ht : w.Triggered) (p : P)
    (job : Option JobDescription) :
    (w.step (.wakePoller p job)).Triggered ↔ w.Guarded (.wakePoller p job) := by
  unfold Guarded
  dsimp only
  cases hp : w.poller p with
  | idle =>
    rw [wakePoller_idle hp]
    exact ⟨(fun _ id attempts h => nomatch h), fun _ => ht⟩
  | asleep id attempts =>
    obtain ⟨hid, hjob⟩ := hw.pollers p id attempts hp
    rw [wakePoller_asleep hp]
    cases attempts with
    | zero => exact ⟨(fun _ id' n h => nomatch h), fun _ => (setPoller_triggered p _).mpr ht⟩
    | succ attempts =>
      rw [turn_triggered hw ht hid hjob]
      constructor
      · intro h id' n he
        cases he
        exact h
      · intro h
        exact h id attempts rfl

/-- One step keeps the trigger exactly when it is guarded. -/
theorem step_triggered (hw : w.Tracked) (ht : w.Triggered) (e : Event P) :
    (w.step e).Triggered ↔ w.Guarded e := by
  cases e with
  | submitArray id =>
    refine ⟨fun _ => trivial, fun _ => ?_⟩
    unfold step
    dsimp only
    split
    · exact ht
    · exact ⟨ht.confirmed, ht.recordedOnce, ht.writtenOnce, ht.begunOnce⟩
  | pollArray job =>
    refine ⟨fun _ => trivial, fun _ => ?_⟩
    rcases pollArray_cases w job with he | ⟨id, j, hid, he⟩
    · rw [he]
      exact ht
    · rw [he]
      exact (handled_triggered hw ht hid j .poll).2
  | arrayComplete authentic reported job =>
    refine ⟨fun _ => trivial, fun _ => ?_⟩
    rcases arrayComplete_cases w authentic reported job with he | ⟨id, j, hid, he⟩
    · rw [he]
      exact ht
    · rw [he]
      exact (handled_triggered hw ht hid j .eventbridge).2
  | startPoller p maxAttempts job =>
    refine ⟨fun _ => trivial, fun _ => ?_⟩
    rcases startPoller_cases w p maxAttempts job with he | ⟨id, hid, he⟩
    · rw [he]
      exact ht
    · rw [he]
      cases maxAttempts with
      | zero => exact (setPoller_triggered p _).mpr ht
      | succ attempts =>
        -- it has only just read the recorded id
        exact (turn_triggered hw ht (hw.job id hid) (isSome_of_eq hid) p attempts job).mpr
          fun _ _ _ _ => hid
  | wakePoller p job => exact wake_triggered hw ht p job
  | aggregate how => exact aggregate_triggered hw ht how

/-! ## Leaving `complete` -/

theorem turn_status {p : P} {id : JobId} {attempts : Nat} {job : Option JobDescription}
    (hs : w.record.status = .complete) : (w.turn p id attempts job).record.status = .complete := by
  cases attempts with
  | zero => exact hs
  | succ attempts =>
    have hin : w.record.status ∈ terminalOrAggregating := by
      rw [hs]
      decide
    unfold turn
    dsimp only
    rw [if_pos hin]
    cases job with
    | none => exact hs
    | some job =>
      show (w.sees id job).record.status = .complete
      rcases sees_of_done w with he | he
      · rw [he]
        exact hs
      · rw [he]
        exact hs

theorem staysComplete (w : World P) (e : Event P) : w.StaysComplete e := by
  intro hs hno
  cases e with
  | submitArray id => exact absurd rfl (hno id)
  | pollArray job =>
    rcases pollArray_cases w job with he | ⟨id, j, -, he⟩
    · rw [he]
      exact hs
    · rw [he]
      exact applied_status hs
  | arrayComplete authentic reported job =>
    rcases arrayComplete_cases w authentic reported job with he | ⟨id, j, -, he⟩
    · rw [he]
      exact hs
    · rw [he]
      exact applied_status hs
  | startPoller p maxAttempts job =>
    rcases startPoller_cases w p maxAttempts job with he | ⟨id, -, he⟩
    · rw [he]
      exact hs
    · rw [he]
      exact turn_status hs
  | wakePoller p job =>
    cases hp : w.poller p with
    | idle =>
      rw [wakePoller_idle hp]
      exact hs
    | asleep id attempts =>
      rw [wakePoller_asleep hp]
      exact turn_status hs
  | aggregate how =>
    rcases aggregate_cases w how with ⟨he, -⟩ | ⟨hagg, -, -⟩
    · rw [he]
      exact hs
    · rw [hs] at hagg
      exact nomatch hagg

/-- For every order of submissions, polls, webhooks, pollers and aggregations, the
trigger is as it should be throughout exactly when every step is guarded. -/
theorem triggered_iff (es : List (Event P)) :
    (Always step Triggered (start : World P) es ∧ Along step StaysComplete start es) ↔
      Along step Guarded (start : World P) es := by
  have hstays : Along step StaysComplete (start : World P) es :=
    along_of_forall step staysComplete start es
  rw [and_iff_left hstays]
  exact always_iff_along step (I := Tracked) (fun _ e hw => step_tracked hw e)
    (fun _ e hw ht => step_triggered hw ht e) start_tracked start_triggered es

/-- A poller falls asleep over the first job; that job is found complete and aggregated,
and another is submitted; the poller wakes up. -/
def staleRun : List (Event Unit) :=
  [.submitArray "a", .startPoller () 10 (some ⟨2, 1, 0⟩), .pollArray (some ⟨2, 2, 0⟩),
    .aggregate .completes, .submitArray "b", .wakePoller () (some ⟨2, 2, 0⟩)]

theorem stale_poller_flips :
    ¬ (Always step Triggered (start : World Unit) staleRun ∧
      Along step StaysComplete (start : World Unit) staleRun) := by
  intro h
  have hlast : Triggered (run step (start : World Unit) staleRun) := Always.last step h.1
  exact absurd hlast.writtenOnce (by decide)

end World

end OSimFlow.Coordinator
