import Mathlib.Algebra.Order.Ring.Rat
import Mathlib.Logic.Function.Basic
import OSimFlow.Lib.Dict
import OSimFlow.Lib.Run

/-!
# Submitting a detached campaign

Any number of processes may be started for one campaign prefix. Each tries to
become the submitter with a claim, a generation-numbered object made by
`put_if_absent` whose lease it renews after every job; it then goes over its
samples, submits a Batch job for each and leaves a record of it. A process that
took over a lapsed claim first looks the job name up.

A submission is split at every read and write of the bucket and of Batch, so a
process may stall anywhere. The clocks are the processes' own.

> `AtMostOne`: no sample has two Batch jobs.

The claim is checked after a submission, not with it. `at_most_one_iff` says
what that leaves open: a process submits on the strength of a check (its lookup,
or being the first claim's owner) that another submission may have overtaken, and
a lookup passes over failed jobs.
-/

namespace OSimFlow.Detached.Submission

open OSimFlow.Lib

/-- The campaign on Batch, and the digest its job names use. -/
structure Target where
  campaignId : String
  sha256 : String → String

/-- `[A-Za-z0-9_-]`. -/
def nameChar (c : Char) : Bool :=
  ('A' ≤ c && c ≤ 'Z') || ('a' ≤ c && c ≤ 'z') || ('0' ≤ c && c ≤ '9') || c == '_' || c == '-'

def batchJobName (target : Target) (sid : String) : String :=
  let raw := "osimflow-" ++ target.campaignId ++ "-" ++ sid
  let clean := raw.toList.map fun c => if nameChar c then c else '-'
  if clean = raw.toList ∧ clean.length ≤ 128 then raw
  else
    let digest := (target.sha256 (target.campaignId ++ "\x00" ++ sid)).toList.take 12
    String.ofList (clean.take 115 ++ '-' :: digest)

inductive ClaimState where
  | submitting
  | submitted
deriving DecidableEq

structure SubmitClaim (Proc : Type) where
  owner : Proc
  generation : Nat
  state : ClaimState
  claimedAt : ℚ
  leaseExpiresAt : ℚ

/-- The claim took over an earlier one. -/
def SubmitClaim.resumed {Proc : Type} (claim : SubmitClaim Proc) : Bool :=
  1 < claim.generation

/-- `DEFAULT_CLAIM_LEASE_S`. -/
def defaultClaimLease : ℚ := 900

/-- The objects of the campaign prefix that submitters use. -/
structure Bucket (Proc : Type) where
  claims : Dict Nat (SubmitClaim Proc)
  handoff : Bool
  /-- `_jobs/<sample>.json`. -/
  records : Dict String Nat

/-- The last of `_claim_generations`, or 0. -/
def Bucket.latest {Proc : Type} (b : Bucket Proc) : Nat :=
  b.claims.keys.foldr max 0

/-- A job known to Batch; its id is its place in the list. -/
structure BatchJob where
  name : String
  sampleId : String
  failed : Bool

/-- Where a submitter is. -/
inductive Phase (Proc : Type) where
  | handoff
  | generations
  | readClaim (latest : Nat) (now : ℚ)
  | put (claim : SubmitClaim Proc)
  | records
  | loop (todo : List String)
  | lookup (sid : String) (todo : List String)
  | submit (sid : String) (todo : List String)
  | record (sid : String) (job : Nat) (todo : List String)
  | renewCheck (todo : List String)
  | renewWrite (todo : List String)
  | writeHandoff
  | finishCheck
  | finishWrite
  | releaseCheck
  | releaseWrite
  | ended

/-- A process. `seen` and `passedOver` are for the account: how many jobs Batch knew at
its last check, and whether its lookup found failed jobs of the sample only. -/
structure Submitter (Proc : Type) where
  phase : Phase Proc
  pending : List String
  claim : Option (SubmitClaim Proc)
  recorded : Dict String Nat
  seen : Nat
  passedOver : Bool

structure World (Proc : Type) where
  bucket : Bucket Proc
  jobs : List BatchJob
  submitter : Proc → Submitter Proc

/-- What can happen. A process takes its next step at its clock's `now`, with or
without a pause or quota that stops it; it raises, or it is killed; a job fails. -/
inductive Event (Proc : Type) where
  | start (p : Proc) (pending : List String)
  | advance (p : Proc) (now : ℚ) (stop : Bool)
  | raise (p : Proc)
  | crash (p : Proc)
  | jobFails (job : Nat)

section

variable {Proc : Type}

def World.start : World Proc where
  bucket := ⟨∅, false, ∅⟩
  jobs := []
  submitter := fun _ => ⟨.ended, [], none, ∅, 0, false⟩

variable (w : World Proc)

/-- The samples of the jobs, in the order of submission. -/
def World.sampleIds : List String :=
  w.jobs.map BatchJob.sampleId

/-- The process `p` goes on as `m`. -/
def World.goes [DecidableEq Proc] (p : Proc) (m : Submitter Proc) : World Proc :=
  { w with submitter := Function.update w.submitter p m }

/-- `_find_existing_job`: a job of that name that has not failed. -/
def findExistingJob (jobs : List BatchJob) (name : String) : Option Nat :=
  jobs.findIdx? fun job => decide (job.name = name) && !job.failed

/-- `_write_claim`'s upload. -/
def World.upload (claim : SubmitClaim Proc) : World Proc :=
  { w with bucket := { w.bucket with claims := w.bucket.claims.set claim.generation claim } }

/-- A later generation exists. -/
def Superseded (b : Bucket Proc) (claim : SubmitClaim Proc) : Prop :=
  b.latest ≠ 0 ∧ b.latest ≠ claim.generation

instance (b : Bucket Proc) (claim : SubmitClaim Proc) : Decidable (Superseded b claim) :=
  inferInstanceAs (Decidable (_ ∧ _))

/-- The next step of a process. -/
def World.advance [DecidableEq Proc] (target : Target) (p : Proc) (now : ℚ) (stop : Bool) :
    World Proc :=
  let m := w.submitter p
  match m.phase with
  | .handoff =>
    w.goes p { m with phase := if w.bucket.handoff then .ended else .generations }
  | .generations =>
    w.goes p { m with
      phase :=
        if w.bucket.latest = 0 then .put ⟨p, 1, .submitting, now, now + defaultClaimLease⟩
        else .readClaim w.bucket.latest now }
  | .readClaim latest now =>
    match w.bucket.claims.get? latest with
    | some current =>
      w.goes p { m with
        phase :=
          if current.state = .submitted ∨ now < current.leaseExpiresAt then .ended
          else .put ⟨p, latest + 1, .submitting, now, now + defaultClaimLease⟩ }
    | none => w.goes p { m with phase := .ended }
  | .put claim =>
    match w.bucket.claims.get? claim.generation with
    | some _ => w.goes p { m with phase := .ended }
    | none =>
      (w.upload claim).goes p { m with
        phase := .records
        claim := some claim
        seen := w.jobs.length
        passedOver := false }
  | .records =>
    w.goes p { m with recorded := w.bucket.records, phase := .loop m.pending }
  | .loop [] => w.goes p { m with phase := .writeHandoff }
  | .loop (sid :: todo) =>
    match m.claim with
    | none => w
    | some claim =>
      w.goes p { m with
        phase :=
          if stop then .writeHandoff
          else if (m.recorded.get? sid).isSome then .loop todo
          else if claim.resumed then .lookup sid todo
          else .submit sid todo }
  | .lookup sid todo =>
    match findExistingJob w.jobs (batchJobName target sid) with
    | some job => w.goes p { m with phase := .record sid job todo }
    | none =>
      w.goes p { m with
        phase := .submit sid todo
        seen := w.jobs.length
        passedOver := w.jobs.any fun job => decide (job.sampleId = sid) && job.failed }
  | .submit sid todo =>
    { w.goes p { m with phase := .record sid w.jobs.length todo } with
      jobs := w.jobs ++ [⟨batchJobName target sid, sid, false⟩] }
  | .record sid job todo =>
    { w.goes p { m with phase := .renewCheck todo } with
      bucket := { w.bucket with records := w.bucket.records.setDefault sid job } }
  | .renewCheck todo =>
    match m.claim with
    | none => w
    | some claim =>
      w.goes p { m with
        claim := some { claim with leaseExpiresAt := now + defaultClaimLease }
        phase := if Superseded w.bucket claim then .releaseCheck else .renewWrite todo }
  | .renewWrite todo =>
    match m.claim with
    | none => w
    | some claim => (w.upload claim).goes p { m with phase := .loop todo }
  | .writeHandoff =>
    { w.goes p { m with phase := .finishCheck } with
      bucket := { w.bucket with handoff := true } }
  | .finishCheck =>
    match m.claim with
    | none => w
    | some claim =>
      w.goes p { m with
        claim := some { claim with state := .submitted }
        phase := if Superseded w.bucket claim then .releaseCheck else .finishWrite }
  | .finishWrite =>
    match m.claim with
    | none => w
    | some claim => (w.upload claim).goes p { m with phase := .ended }
  | .releaseCheck =>
    match m.claim with
    | none => w
    | some claim =>
      w.goes p { m with
        claim := some { claim with leaseExpiresAt := 0 }
        phase :=
          if claim.state = .submitted ∨ Superseded w.bucket claim then .ended
          else .releaseWrite }
  | .releaseWrite =>
    match m.claim with
    | none => w
    | some claim => (w.upload claim).goes p { m with phase := .ended }
  | .ended => w

def World.step [DecidableEq Proc] (target : Target) : Event Proc → World Proc
  | .start p pending =>
    match (w.submitter p).phase with
    | .ended => w.goes p ⟨.handoff, pending.dedup, none, ∅, 0, false⟩
    | _ => w
  | .advance p now stop => w.advance target p now stop
  | .raise p =>
    match (w.submitter p).phase, (w.submitter p).claim with
    | .releaseCheck, _ | .releaseWrite, _ | .ended, _ | _, none =>
      w.goes p { w.submitter p with phase := .ended }
    | _, some _ => w.goes p { w.submitter p with phase := .releaseCheck }
  | .crash p => w.goes p { w.submitter p with phase := .ended, claim := none }
  | .jobFails job => { w with jobs := w.jobs.modify job fun j => { j with failed := true } }

/-- No sample has two jobs. -/
def World.AtMostOne : Prop :=
  w.sampleIds.Nodup

/-- A submission that nothing has overtaken: the lookup before it passed over no failed
job, and nobody submitted the sample since that lookup or, for the owner of the first
claim, since the claim. -/
def World.Unraced : Event Proc → Prop
  | .advance p _ _ =>
    match (w.submitter p).phase with
    | .submit sid _ => (w.submitter p).passedOver = false ∧
        sid ∉ w.sampleIds.drop (w.submitter p).seen
    | _ => True
  | _ => True

/-! ## The invariant -/

variable {w}

/-- What a process knows at its place. -/
def PhaseOk (w : World Proc) (m : Submitter Proc) : Prop :=
  match m.phase with
  | .readClaim latest _ => latest ≠ 0 ∧ (w.bucket.claims.get? 1).isSome
  | .put claim => claim.generation = 1 ∨
      1 < claim.generation ∧ (w.bucket.claims.get? 1).isSome
  | .lookup _ _ => ∃ claim, m.claim = some claim ∧ claim.resumed = true
  | .submit sid _ => (w.bucket.claims.get? 1).isSome ∧ m.seen ≤ w.sampleIds.length ∧
      (m.passedOver = false → sid ∉ w.sampleIds.take m.seen) ∧
      (m.passedOver = true → sid ∈ w.sampleIds)
  | _ => True

/-- The owner of the first claim was there before any job. -/
structure ProcOk (w : World Proc) (m : Submitter Proc) : Prop where
  claimed : ∀ claim, m.claim = some claim → (w.bucket.claims.get? 1).isSome ∧
    (claim.resumed = false → m.seen = 0 ∧ m.passedOver = false)
  phase : PhaseOk w m

/-- Nothing is done without a first claim, and the jobs have their names. -/
structure Consistent (target : Target) (w : World Proc) : Prop where
  first : ∀ g claim, w.bucket.claims.get? g = some claim → (w.bucket.claims.get? 1).isSome
  jobs : w.jobs ≠ [] → (w.bucket.claims.get? 1).isSome
  named : ∀ job ∈ w.jobs, job.name = batchJobName target job.sampleId
  procs : ∀ p, ProcOk w (w.submitter p)

variable {target : Target}

theorem start_consistent : Consistent target (World.start : World Proc) where
  first := fun _ _ h => nomatch h
  jobs := fun h => absurd rfl h
  named := fun _ h => nomatch h
  procs := fun _ => ⟨(fun _ h => nomatch h), trivial⟩

/-- What is known of a process survives other processes' steps. -/
theorem ProcOk.mono {w' : World Proc} {m : Submitter Proc} (hm : ProcOk w m)
    (hfirst : (w.bucket.claims.get? 1).isSome → (w'.bucket.claims.get? 1).isSome)
    {new : List String} (hjobs : w'.sampleIds = w.sampleIds ++ new) : ProcOk w' m := by
  refine ⟨fun claim hc => ⟨hfirst (hm.claimed claim hc).1, (hm.claimed claim hc).2⟩, ?_⟩
  have hp := hm.phase
  unfold PhaseOk at hp ⊢
  cases hphase : m.phase with
  | readClaim latest now =>
    rw [hphase] at hp
    exact ⟨hp.1, hfirst hp.2⟩
  | put claim =>
    rw [hphase] at hp
    exact hp.imp_right fun h => ⟨h.1, hfirst h.2⟩
  | lookup sid todo =>
    rw [hphase] at hp
    exact hp
  | submit sid todo =>
    rw [hphase] at hp
    obtain ⟨hone, hseen, hnot, hpassed⟩ := hp
    refine ⟨hfirst hone, ?_, fun hpass => ?_, fun hpass => ?_⟩
    · rw [hjobs, List.length_append]
      omega
    · rw [hjobs, List.take_append_of_le_length hseen]
      exact hnot hpass
    · rw [hjobs]
      exact List.mem_append_left _ (hpassed hpass)
  | _ => trivial

theorem goes_submitter [DecidableEq Proc] (w : World Proc) (p q : Proc) (m : Submitter Proc) :
    (w.goes p m).submitter q = if q = p then m else w.submitter q := by
  show Function.update w.submitter p m q = _
  rw [Function.update_apply]

/-- A step that touches its process only. -/
theorem goes_consistent [DecidableEq Proc] (hw : Consistent target w) {p : Proc} {m : Submitter Proc}
    (hm : ProcOk w m) : Consistent target (w.goes p m) := by
  refine ⟨hw.first, hw.jobs, hw.named, fun q => ?_⟩
  rw [goes_submitter]
  split
  · exact hm.mono (fun h => h) (List.append_nil _).symm
  · exact (hw.procs q).mono (fun h => h) (List.append_nil _).symm

theorem upload_first (w : World Proc) {claim : SubmitClaim Proc}
    (h : claim.generation = 1 ∨ (w.bucket.claims.get? 1).isSome) :
    ((w.upload claim).bucket.claims.get? 1).isSome := by
  show ((w.bucket.claims.set claim.generation claim).get? 1).isSome
  rw [Dict.get?_set]
  split
  · rfl
  · next hne => exact h.resolve_left hne

/-- A claim is uploaded: it is the first, or the first is there. -/
theorem upload_consistent (hw : Consistent target w) {claim : SubmitClaim Proc}
    (h : claim.generation = 1 ∨ (w.bucket.claims.get? 1).isSome) :
    Consistent target (w.upload claim) := by
  have hone := upload_first w h
  exact ⟨fun _ _ _ => hone, fun _ => hone, hw.named,
    fun q => (hw.procs q).mono (fun _ => hone) (List.append_nil _).symm⟩

/-- Other objects of the bucket do not matter. -/
theorem bucket_consistent (hw : Consistent target w) {b : Bucket Proc}
    (hb : b.claims = w.bucket.claims) : Consistent target { w with bucket := b } := by
  refine ⟨?_, ?_, hw.named, fun q => (hw.procs q).mono ?_ (List.append_nil _).symm⟩
  · show ∀ g claim, b.claims.get? g = some claim → (b.claims.get? 1).isSome
    rw [hb]
    exact hw.first
  · show _ → (b.claims.get? 1).isSome
    rw [hb]
    exact hw.jobs
  · show _ → (b.claims.get? 1).isSome
    rw [hb]
    exact fun h => h

/-- A job is submitted by a process that has a claim. -/
theorem submit_consistent (hw : Consistent target w) (hone : (w.bucket.claims.get? 1).isSome)
    (sid : String) :
    Consistent target { w with jobs := w.jobs ++ [⟨batchJobName target sid, sid, false⟩] } := by
  refine ⟨hw.first, fun _ => hone, fun job hmem => ?_,
    fun q => (hw.procs q).mono (fun h => h) List.map_append⟩
  rcases List.mem_append.mp hmem with hmem | hmem
  · exact hw.named job hmem
  · rw [List.mem_singleton.mp hmem]

theorem latest_ne_zero {b : Bucket Proc} (h : b.latest ≠ 0) :
    ∃ g claim, b.claims.get? g = some claim := by
  cases hk : b.claims.items with
  | nil =>
    refine absurd ?_ h
    rw [Bucket.latest, Dict.keys, hk]
    rfl
  | cons item items =>
    exact ⟨item.1, item.2, Dict.mem_items.mp (by rw [hk]; exact List.mem_cons_self)⟩

/-! ## One step at a time -/

theorem phase_ite {m : Submitter Proc} {c : Prop} [Decidable c] {a b : Phase Proc}
    (ha : c → PhaseOk w { m with phase := a }) (hb : ¬ c → PhaseOk w { m with phase := b }) :
    PhaseOk w { m with phase := if c then a else b } := by
  by_cases h : c
  · rw [if_pos h]
    exact ha h
  · rw [if_neg h]
    exact hb h

/-- A claim that differs in its lease or state only. -/
theorem reclaimed {m : Submitter Proc} (hm : ProcOk w m) {claim claim' : SubmitClaim Proc}
    (hc : m.claim = some claim) (hgen : claim'.generation = claim.generation)
    {phase : Phase Proc} (hp : PhaseOk w { m with phase := phase, claim := some claim' }) :
    ProcOk w { m with phase := phase, claim := some claim' } := by
  refine ⟨fun c hc' => ?_, hp⟩
  cases hc'
  have h := hm.claimed claim hc
  refine ⟨h.1, fun hres => h.2 ?_⟩
  rw [SubmitClaim.resumed, ← hgen]
  exact hres

/-- The claim is created: nobody had the first one before its owner. -/
theorem put_consistent [DecidableEq Proc] (hw : Consistent target w) {p : Proc}
    {claim : SubmitClaim Proc}
    (hp : claim.generation = 1 ∨ 1 < claim.generation ∧ (w.bucket.claims.get? 1).isSome)
    (hnone : w.bucket.claims.get? claim.generation = none) :
    Consistent target ((w.upload claim).goes p { w.submitter p with
      phase := .records, claim := some claim, seen := w.jobs.length, passedOver := false }) := by
  have hone := hp.imp_right fun h => h.2
  refine goes_consistent (upload_consistent hw hone) ⟨fun c hc => ?_, trivial⟩
  cases hc
  refine ⟨upload_first w hone, fun hres => ⟨?_, rfl⟩⟩
  have hgen : claim.generation = 1 := by
    rcases hp with h | h
    · exact h
    · have hlt : claim.resumed = true := decide_eq_true h.1
      rw [hres] at hlt
      exact nomatch hlt
  have hjobs : w.jobs = [] := by
    by_contra hne
    have hsome := hw.jobs hne
    rw [← hgen, hnone] at hsome
    exact nomatch hsome
  show w.jobs.length = 0
  rw [hjobs]
  rfl

/-- A lookup without result: the jobs of the sample, if any, have failed. -/
theorem not_found (hw : Consistent target w) {sid : String}
    (hnone : findExistingJob w.jobs (batchJobName target sid) = none) :
    (w.jobs.any fun job => decide (job.sampleId = sid) && job.failed) = true ↔
      sid ∈ w.sampleIds := by
  have hfailed : ∀ job ∈ w.jobs, job.sampleId = sid → job.failed = true := by
    intro job hmem hsid
    have hfalse := List.findIdx?_eq_none_iff.mp hnone job hmem
    rw [hw.named job hmem, hsid, decide_eq_true rfl, Bool.true_and] at hfalse
    cases hf : job.failed with
    | true => rfl
    | false =>
      rw [hf] at hfalse
      exact nomatch hfalse
  rw [List.any_eq_true, World.sampleIds, List.mem_map]
  constructor
  · intro h
    obtain ⟨job, hmem, hjob⟩ := h
    rw [Bool.and_eq_true] at hjob
    exact ⟨job, hmem, of_decide_eq_true hjob.1⟩
  · intro h
    obtain ⟨job, hmem, hsid⟩ := h
    refine ⟨job, hmem, ?_⟩
    rw [hfailed job hmem hsid, decide_eq_true hsid]
    rfl

theorem fail_sampleIds (w : World Proc) (job : Nat) :
    ({ w with jobs := w.jobs.modify job fun j => { j with failed := true } } :
      World Proc).sampleIds = w.sampleIds := by
  show (w.jobs.modify job fun j => { j with failed := true }).map BatchJob.sampleId = _
  rw [World.sampleIds]
  apply List.ext_getElem?
  intro k
  rw [List.getElem?_map, List.getElem?_map, List.getElem?_modify]
  cases w.jobs[k]? with
  | none => rfl
  | some j =>
    by_cases hk : job = k
    · simp [hk]
    · simp [hk]

/-- A job that fails keeps its name and its sample. -/
theorem fail_consistent (hw : Consistent target w) (job : Nat) :
    Consistent target
      { w with jobs := w.jobs.modify job fun j => { j with failed := true } } := by
  have hids := fail_sampleIds w job
  rw [← List.append_nil w.sampleIds] at hids
  refine ⟨hw.first, fun hne => hw.jobs fun hnil => ?_, fun j hmem => ?_,
    fun q => (hw.procs q).mono (fun h => h) hids⟩
  · refine hne ?_
    show w.jobs.modify job _ = []
    rw [hnil]
    exact List.modify_nil _ _
  · obtain ⟨k, hk⟩ := List.mem_iff_getElem?.mp hmem
    rw [List.getElem?_modify] at hk
    obtain ⟨j', hj', he⟩ := Option.map_eq_some_iff.mp hk
    have hname := hw.named j' (List.mem_of_getElem? hj')
    rw [← he]
    split
    · exact hname
    · exact hname

variable [DecidableEq Proc]

theorem lookup_consistent (hw : Consistent target w) {p : Proc} {sid : String}
    {todo : List String} {claim : SubmitClaim Proc} (hc : (w.submitter p).claim = some claim)
    (hres : claim.resumed = true)
    (hnone : findExistingJob w.jobs (batchJobName target sid) = none) :
    Consistent target (w.goes p { w.submitter p with
      phase := .submit sid todo
      seen := w.jobs.length
      passedOver := w.jobs.any fun job => decide (job.sampleId = sid) && job.failed }) := by
  have hone := ((hw.procs p).claimed claim hc).1
  have hfound := not_found hw hnone
  have hlen : w.sampleIds.length = w.jobs.length := List.length_map _
  refine goes_consistent hw ⟨fun claim' hc' => ⟨hone, fun hfresh => ?_⟩, hone, ?_, ?_, hfound.mp⟩
  · have he : claim = claim' := Option.some.inj (hc.symm.trans hc')
    rw [← he, hres] at hfresh
    exact nomatch hfresh
  · exact le_of_eq hlen.symm
  · intro hpass hmem
    have htrue := hfound.mpr (List.mem_of_mem_take hmem)
    exact Bool.false_ne_true (hpass.symm.trans htrue)

/-- A process with a claim goes over its samples. -/
theorem loop_consistent (hw : Consistent target w) {p : Proc} {claim : SubmitClaim Proc}
    (hc : (w.submitter p).claim = some claim) (sid : String) (todo : List String)
    (stop : Bool) :
    Consistent target (w.goes p { w.submitter p with
      phase :=
        if stop then .writeHandoff
        else if ((w.submitter p).recorded.get? sid).isSome then .loop todo
        else if claim.resumed then .lookup sid todo
        else .submit sid todo }) := by
  have hm := hw.procs p
  refine goes_consistent hw ⟨hm.claimed, ?_⟩
  refine phase_ite (fun _ => trivial) fun _ => phase_ite (fun _ => trivial) fun _ =>
    phase_ite (fun hres => ⟨claim, hc, hres⟩) fun hres => ?_
  -- the owner of the first claim, who was there before any job
  obtain ⟨hone, hfresh⟩ := hm.claimed claim hc
  obtain ⟨hseen, hpass⟩ := hfresh (Bool.not_eq_true _ ▸ hres)
  refine ⟨hone, ?_, fun _ => ?_, fun htrue => ?_⟩
  · show (w.submitter p).seen ≤ _
    omega
  · show sid ∉ w.sampleIds.take (w.submitter p).seen
    rw [hseen]
    exact List.not_mem_nil
  · exact absurd (hpass.symm.trans htrue) Bool.false_ne_true

/-- A process uploads the claim it has. -/
theorem reupload_consistent (hw : Consistent target w) {p : Proc} {claim : SubmitClaim Proc}
    (hc : (w.submitter p).claim = some claim) (phase : Phase Proc)
    (hp : PhaseOk (w.upload claim) { w.submitter p with phase := phase }) :
    Consistent target ((w.upload claim).goes p { w.submitter p with phase := phase }) := by
  have hone := ((hw.procs p).claimed claim hc).1
  have hu : Consistent target (w.upload claim) := upload_consistent hw (Or.inr hone)
  exact goes_consistent hu ⟨(hu.procs p).claimed, hp⟩

theorem advance_consistent (hw : Consistent target w) (p : Proc) (now : ℚ) (stop : Bool) :
    Consistent target (w.advance target p now stop) := by
  have hm := hw.procs p
  have hphase := hm.phase
  have hmoved : ∀ phase, PhaseOk w { w.submitter p with phase := phase } →
      Consistent target (w.goes p { w.submitter p with phase := phase }) :=
    fun phase hp => goes_consistent hw ⟨hm.claimed, hp⟩
  unfold World.advance
  dsimp only
  cases hp : (w.submitter p).phase with
  | handoff => exact hmoved _ (phase_ite (fun _ => trivial) fun _ => trivial)
  | generations =>
    refine hmoved _ (phase_ite (fun _ => Or.inl rfl) fun hne => ⟨hne, ?_⟩)
    obtain ⟨g, claim, hget⟩ := latest_ne_zero hne
    exact hw.first g claim hget
  | readClaim latest now =>
    rw [PhaseOk, hp] at hphase
    dsimp only
    cases hget : w.bucket.claims.get? latest with
    | none => exact hmoved _ trivial
    | some current =>
      refine hmoved _ (phase_ite (fun _ => trivial) fun _ => Or.inr ⟨?_, hphase.2⟩)
      have hne := hphase.1
      show 1 < latest + 1
      omega
  | put claim =>
    rw [PhaseOk, hp] at hphase
    dsimp only
    cases hget : w.bucket.claims.get? claim.generation with
    | some _ => exact hmoved _ trivial
    | none => exact put_consistent hw hphase hget
  | records => exact goes_consistent hw ⟨hm.claimed, trivial⟩
  | loop todo =>
    cases todo with
    | nil => exact hmoved _ trivial
    | cons sid todo =>
      dsimp only
      cases hc : (w.submitter p).claim with
      | none => exact hw
      | some claim =>
        have h := loop_consistent hw hc sid todo stop
        dsimp only at h
        rw [hc] at h
        exact h
  | lookup sid todo =>
    rw [PhaseOk, hp] at hphase
    obtain ⟨claim, hc, hres⟩ := hphase
    dsimp only
    cases hfind : findExistingJob w.jobs (batchJobName target sid) with
    | some job => exact hmoved _ trivial
    | none => exact lookup_consistent hw hc hres hfind
  | submit sid todo =>
    rw [PhaseOk, hp] at hphase
    have hsub := submit_consistent hw hphase.1 sid
    exact goes_consistent hsub ⟨(hsub.procs p).claimed, trivial⟩
  | record sid job todo =>
    have hb := bucket_consistent hw
      (b := { w.bucket with records := w.bucket.records.setDefault sid job }) rfl
    exact goes_consistent hb ⟨(hb.procs p).claimed, trivial⟩
  | renewCheck todo =>
    dsimp only
    cases hc : (w.submitter p).claim with
    | none => exact hw
    | some claim =>
      refine goes_consistent hw (reclaimed hm hc ?_ ?_)
      · rfl
      · exact phase_ite (m := { w.submitter p with claim := some _ })
          (fun _ => trivial) fun _ => trivial
  | renewWrite todo =>
    dsimp only
    cases hc : (w.submitter p).claim with
    | none => exact hw
    | some claim =>
      have h := reupload_consistent hw hc (.loop todo) trivial
      dsimp only at h
      rw [hc] at h
      exact h
  | writeHandoff =>
    have hb := bucket_consistent hw (b := { w.bucket with handoff := true }) rfl
    exact goes_consistent hb ⟨(hb.procs p).claimed, trivial⟩
  | finishCheck =>
    dsimp only
    cases hc : (w.submitter p).claim with
    | none => exact hw
    | some claim =>
      refine goes_consistent hw (reclaimed hm hc ?_ ?_)
      · rfl
      · exact phase_ite (m := { w.submitter p with claim := some _ })
          (fun _ => trivial) fun _ => trivial
  | finishWrite =>
    dsimp only
    cases hc : (w.submitter p).claim with
    | none => exact hw
    | some claim =>
      have h := reupload_consistent hw hc .ended trivial
      dsimp only at h
      rw [hc] at h
      exact h
  | releaseCheck =>
    dsimp only
    cases hc : (w.submitter p).claim with
    | none => exact hw
    | some claim =>
      refine goes_consistent hw (reclaimed hm hc ?_ ?_)
      · rfl
      · exact phase_ite (m := { w.submitter p with claim := some _ })
          (fun _ => trivial) fun _ => trivial
  | releaseWrite =>
    dsimp only
    cases hc : (w.submitter p).claim with
    | none => exact hw
    | some claim =>
      have h := reupload_consistent hw hc .ended trivial
      dsimp only at h
      rw [hc] at h
      exact h
  | ended => exact hw

theorem step_consistent (hw : Consistent target w) (e : Event Proc) :
    Consistent target (w.step target e) := by
  cases e with
  | start p pending =>
    unfold World.step
    dsimp only
    cases hp : (w.submitter p).phase with
    | ended => exact goes_consistent hw ⟨(fun _ h => nomatch h), trivial⟩
    | _ => exact hw
  | advance p now stop => exact advance_consistent hw p now stop
  | raise p =>
    have hm := hw.procs p
    unfold World.step
    dsimp only
    split
    all_goals exact goes_consistent hw ⟨hm.claimed, trivial⟩
  | crash p => exact goes_consistent hw ⟨(fun _ h => nomatch h), trivial⟩
  | jobFails job => exact fail_consistent hw job

/-- The samples a step submits. -/
def World.submits (w : World Proc) : Event Proc → List String
  | .advance p _ _ =>
    match (w.submitter p).phase with
    | .submit sid _ => [sid]
    | _ => []
  | _ => []

theorem step_sampleIds (w : World Proc) (e : Event Proc) :
    (w.step target e).sampleIds = w.sampleIds ++ w.submits e := by
  cases e with
  | start p pending =>
    unfold World.step World.submits
    dsimp only
    split
    all_goals exact (List.append_nil _).symm
  | raise p =>
    unfold World.step World.submits
    dsimp only
    split
    all_goals exact (List.append_nil _).symm
  | crash p => exact (List.append_nil _).symm
  | jobFails job => exact (fail_sampleIds w job).trans (List.append_nil _).symm
  | advance p now stop =>
    show (w.advance target p now stop).sampleIds = _
    unfold World.advance World.submits
    dsimp only
    cases hp : (w.submitter p).phase with
    | submit sid todo => exact List.map_append
    | loop todo =>
      cases todo with
      | nil => exact (List.append_nil _).symm
      | cons sid todo =>
        dsimp only
        split
        all_goals exact (List.append_nil _).symm
    | handoff => exact (List.append_nil _).symm
    | generations => exact (List.append_nil _).symm
    | records => exact (List.append_nil _).symm
    | record sid job todo => exact (List.append_nil _).symm
    | writeHandoff => exact (List.append_nil _).symm
    | ended => exact (List.append_nil _).symm
    | _ =>
      dsimp only
      split
      all_goals exact (List.append_nil _).symm

/-- One step: no sample gets a second job exactly when the submission was not overtaken. -/
theorem step_atMostOne (hw : Consistent target w) (hn : w.AtMostOne) (e : Event Proc) :
    (w.step target e).AtMostOne ↔ w.Unraced e := by
  unfold World.AtMostOne at hn ⊢
  rw [step_sampleIds]
  have hnone : w.submits e = [] → ((w.sampleIds ++ w.submits e).Nodup ↔ True) := by
    intro hnil
    rw [hnil, List.append_nil]
    exact ⟨fun _ => trivial, fun _ => hn⟩
  cases e with
  | advance p now stop =>
    have hphase := (hw.procs p).phase
    cases hp : (w.submitter p).phase with
    | submit sid todo =>
      rw [PhaseOk, hp] at hphase
      obtain ⟨-, -, hnot, hpassed⟩ := hphase
      have hsub : w.submits (.advance p now stop) = [sid] := by
        unfold World.submits
        dsimp only
        rw [hp]
      have hunraced : w.Unraced (.advance p now stop) ↔ (w.submitter p).passedOver = false ∧
          sid ∉ w.sampleIds.drop (w.submitter p).seen := by
        unfold World.Unraced
        dsimp only
        rw [hp]
      rw [hsub, hunraced, List.nodup_append_comm, List.singleton_append, List.nodup_cons]
      constructor
      · intro h
        refine ⟨?_, fun hmem => h.1 (List.mem_of_mem_drop hmem)⟩
        cases hpass : (w.submitter p).passedOver with
        | false => rfl
        | true => exact absurd (hpassed hpass) h.1
      · intro h
        obtain ⟨hpass, hdrop⟩ := h
        refine ⟨fun hmem => ?_, hn⟩
        rw [← List.take_append_drop (w.submitter p).seen w.sampleIds] at hmem
        rcases List.mem_append.mp hmem with hmem | hmem
        · exact hnot hpass hmem
        · exact hdrop hmem
    | _ =>
      -- nothing is submitted here
      have hsub : w.submits (.advance p now stop) = [] := by
        unfold World.submits
        dsimp only
        rw [hp]
      have hunraced : w.Unraced (.advance p now stop) ↔ True := by
        unfold World.Unraced
        dsimp only
        rw [hp]
      rw [hunraced]
      exact hnone hsub
  | start p pending => exact hnone rfl
  | raise p => exact hnone rfl
  | crash p => exact hnone rfl
  | jobFails job => exact hnone rfl

/-- For any number of processes and any order of their steps, no sample ever has two
jobs exactly when no submission is overtaken. -/
theorem at_most_one_iff (target : Target) (es : List (Event Proc)) :
    Always (fun w e => World.step w target e) World.AtMostOne .start es ↔
      Along (fun w e => World.step w target e) World.Unraced .start es :=
  always_iff_along _ (I := Consistent target) (fun _ e hw => step_consistent hw e)
    (fun _ e hw hn => step_atMostOne hw hn e) start_consistent List.nodup_nil es

/-! ## Two submitters -/

/-- A target whose names need no digest. -/
def sweep : Target := ⟨"sweep", fun text => text⟩

/-- The first process stalls before its submission until its lease has lapsed; the
second takes over and submits; the first goes on. -/
def stalledRun : List (Event Bool) :=
  .start true ["0001"] :: List.replicate 5 (.advance true 0 false) ++
    .start false ["0001"] :: List.replicate 8 (.advance false 1000 false) ++
    [.advance true 1000 false]

theorem stalled_owner_submits :
    ¬ Always (fun w e => World.step w sweep e) World.AtMostOne .start stalledRun := by
  intro h
  have hlast := Always.last _ h
  unfold World.AtMostOne at hlast
  revert hlast
  decide +kernel

end

end OSimFlow.Detached.Submission
