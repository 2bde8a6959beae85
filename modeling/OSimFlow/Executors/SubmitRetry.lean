import Mathlib.Data.List.Infix
import OSimFlow.Lib.Retry

/-!
# One `submit`, several requests

`retry_with_backoff` stands around the requests of a submit call. The Nomad client puts
every request behind it: registering a job, which Nomad takes as a no-op the second time,
and dispatching one, which starts a child job each time. PBS puts `qsub` behind it, and AWS
Batch the client's `submit_job`, for throttled calls only.

A request that was executed and whose answer is lost (a gateway error, a connection error,
a `timed out` on stderr) looks to the retry like one that was not.

> `oneJob_iff`: which submits start at most one job and return a handle that names it.
>
> `lost_dispatch_starts_two`: a dispatch whose answer a gateway replaces by a 502.

boto3 has its own retries, which the executor configures (adaptive mode): a call of the
client says what jobs it has started. Payloads, specs and read-only lookups are left out,
but for the lookup of an existing Batch job.
-/

namespace OSimFlow.Executors

open OSimFlow.Lib.Retry

/-! ## Failures, and which of them are retried -/

/-- What a request to Nomad raises; `HTTPError` is a `URLError` with a code. -/
inductive NomadFailure where
  | httpError (code : Nat)
  | urlError
  | other
deriving DecidableEq

/-- `_NOMAD_RETRYABLE_HTTP_CODES`. -/
def nomadRetryableHttpCodes : List Nat := [500, 502, 503, 504]

/-- `_retry_on` of `_retry_nomad_request`. -/
def nomadRetryOn : NomadFailure → Bool
  | .httpError code => decide (code ∈ nomadRetryableHttpCodes)
  | .urlError => true
  | .other => false

/-- `_NOMAD_RETRY_MAX_ATTEMPTS`. -/
def nomadRetryMaxAttempts : Nat := 5

/-- What `subprocess.run(["qsub", …], check=True)` raises. -/
inductive PbsFailure where
  | calledProcessError (stderr : String)
  | other
deriving DecidableEq

/-- `re.IGNORECASE` for the letters of the pattern; four letters outside ASCII match too. -/
def ignoreCase (c : Char) : Char :=
  if c = 'ſ' then 's' else if c = 'İ' ∨ c = 'ı' then 'i' else if c = 'K' then 'k'
  else c.toLower

/-- The alternatives of `_TRANSIENT_STDERR_RE`. -/
def transientStderr : List String :=
  ["connection refused", "server unavailable", "timeout", "timed out", "connection reset"]

/-- `_retry_on` of `_retry_pbs_call`. -/
def pbsRetryOn : PbsFailure → Bool
  | .calledProcessError stderr =>
    transientStderr.any fun text => decide (text.toList <:+: stderr.toList.map ignoreCase)
  | .other => false

def pbsMaxAttempts : Nat := 3

/-- What the Batch client raises. -/
inductive BatchFailure where
  | clientError (code : String)
  | other
deriving DecidableEq

/-- `_THROTTLE_ERRORS`. -/
def throttleErrors : List String := ["ThrottlingException", "RequestLimitExceeded"]

/-- `_retry_on` of `_submit_job_with_retry`. -/
def batchRetryOn : BatchFailure → Bool
  | .clientError code => decide (code ∈ throttleErrors)
  | .other => false

def batchMaxAttempts : Nat := 5

/-! ## Answers -/

/-- The answer to the registration of a job under its id. `named`: the response has the key
`JobID`. `executed`: the job is registered though the request failed. -/
inductive Registered where
  | accepted (named : Bool)
  | failed (executed : Bool) (e : NomadFailure)

/-- `None` where the response has no `JobID`. -/
def Registered.reply (jobId : String) : Registered → Except NomadFailure (Option String)
  | .accepted named => .ok (if named then some jobId else none)
  | .failed _ e => .error e

def Registered.executed : Registered → Option Unit
  | .accepted _ => some ()
  | .failed executed _ => if executed then some () else none

/-- The answer to a dispatch or to `qsub`: the job it started, though it may have failed,
and whether the response names it. -/
inductive Started (ε : Type) where
  | accepted (job : String) (named : Bool)
  | failed (job : Option String) (e : ε)

def Started.reply {ε : Type} : Started ε → Except ε (Option String)
  | .accepted job named => .ok (if named then some job else none)
  | .failed _ e => .error e

def Started.job {ε : Type} : Started ε → Option String
  | .accepted job _ => some job
  | .failed job _ => job

/-- A call of the Batch client: the jobs it has started, with its own retries, and what it
returns. -/
structure ClientCall where
  jobs : List String
  reply : Except BatchFailure String

/-! ## The submit paths -/

/-- A submit call, with the answers its requests would get. -/
inductive Submit where
  /-- `_do_submit` of Nomad in direct mode: `submit_job(spec)`. -/
  | nomadDirect (specId : String) (answers : Nat → Registered)
  /-- In dispatch mode: the parameterized job first, where it is not registered yet. -/
  | nomadDispatch (registered : Bool) (register : Nat → Registered)
      (dispatch : Nat → Started NomadFailure)
  | pbs (qsub : Nat → Started PbsFailure)
  /-- `found`: what `_find_existing_job` returned, where it was asked. -/
  | awsBatch (found : Option String) (calls : Nat → ClientCall)

/-- The live job found before, the jobs started, and the handle's job; `none` where the call
raises. -/
structure Outcome where
  found : Option String
  started : List String
  handle : Option String

/-- `response.get("JobID") or default`. -/
def jobIdOr (default : String) : Option String → String
  | none => default
  | some id => if id = "" then default else id

/-- What a handle names: nothing where the call raised. -/
def handleOf {ε α : Type} (name : α → String) : Except ε α → Option String
  | .ok a => some (name a)
  | .error _ => none

/-- `_NomadClient.dispatch_job` behind the registration. -/
def dispatchJob (dispatch : Nat → Started NomadFailure) : Outcome :=
  let sent := retry nomadRetryOn (fun k => (dispatch k).reply) nomadRetryMaxAttempts
  ⟨none, executed (fun k => (dispatch k).job) sent.2, handleOf (jobIdOr "") sent.1⟩

/-- `submit`, as far as jobs go. -/
def submit : Submit → Outcome
  | .nomadDirect specId answers =>
    let sent := retry nomadRetryOn (fun k => (answers k).reply specId) nomadRetryMaxAttempts
    -- registered again under its id a job is the same job
    ⟨none, if executed (fun k => (answers k).executed) sent.2 = [] then [] else [specId],
      handleOf (jobIdOr specId) sent.1⟩
  | .nomadDispatch true _ dispatch => dispatchJob dispatch
  | .nomadDispatch false register dispatch =>
    match (retry nomadRetryOn (fun k => (register k).reply "") nomadRetryMaxAttempts).1 with
    | .error _ => ⟨none, [], none⟩
    | .ok _ => dispatchJob dispatch
  | .pbs qsub =>
    let sent := retry pbsRetryOn (fun k => (qsub k).reply) pbsMaxAttempts
    ⟨none, executed (fun k => (qsub k).job) sent.2, handleOf (·.getD "") sent.1⟩
  | .awsBatch (some job) _ => ⟨some job, [], some job⟩
  | .awsBatch none calls =>
    let sent := retry batchRetryOn (fun k => (calls k).reply) batchMaxAttempts
    ⟨none, (List.range sent.2).flatMap fun k => (calls k).jobs, handleOf id sent.1⟩

/-- At most one job is started, and a handle that is returned names it, or the live job that
was found instead. -/
def OneJob (o : Outcome) : Prop :=
  o.started.length ≤ 1 ∧ ∀ job, o.handle = some job → o.found.toList ++ o.started = [job]

/-! ## What is assumed of the substrates -/

/-- A throttled Batch call started nothing; a job has an id; `qsub` prints the id of the job
it has queued. -/
def Documented : Submit → Prop
  | .nomadDirect _ _ => True
  | .nomadDispatch _ _ dispatch => ∀ k job named, dispatch k = .accepted job named → job ≠ ""
  | .pbs qsub => ∀ k job named, qsub k = .accepted job named → named = true
  | .awsBatch _ calls => ∀ k e, (calls k).reply = .error e → batchRetryOn e → (calls k).jobs = []

/-! ## When one submit is one job -/

/-- Of two requests that are sent, at most one is executed. -/
def NoneRepeated {ε : Type} (retryOn : ε → Bool) (answers : Nat → Started ε)
    (maxAttempts : Nat) : Prop :=
  ∀ i j, i < j → Sent retryOn (fun k => (answers k).reply) maxAttempts j →
    (answers i).job = none ∨ (answers j).job = none

/-- A dispatch that is accepted has the key `JobID` in its response. -/
def AnswersNamed (dispatch : Nat → Started NomadFailure) : Prop :=
  ∀ j job named, Sent nomadRetryOn (fun k => (dispatch k).reply) nomadRetryMaxAttempts j →
    dispatch j = .accepted job named → named = true

/-- The parameterized job is known, now or before. -/
def RegistrationReturns (registered : Bool) (register : Nat → Registered) : Prop :=
  registered = true ∨
    ∃ j named, Sent nomadRetryOn (fun k => (register k).reply "") nomadRetryMaxAttempts j ∧
      register j = .accepted named

/-- The client call that is not throttled, or the last one, starts the job it returns, once. -/
def CallsOnce (calls : Nat → ClientCall) : Prop :=
  ∀ j, Sent batchRetryOn (fun k => (calls k).reply) batchMaxAttempts j →
    (calls j).jobs.length ≤ 1 ∧ ∀ job, (calls j).reply = .ok job → (calls j).jobs = [job]

/-- The condition on the answers. -/
def Safe : Submit → Prop
  | .nomadDirect _ _ => True
  | .nomadDispatch registered register dispatch => RegistrationReturns registered register →
      NoneRepeated nomadRetryOn dispatch nomadRetryMaxAttempts ∧ AnswersNamed dispatch
  | .pbs qsub => NoneRepeated pbsRetryOn qsub pbsMaxAttempts
  | .awsBatch found calls => found = none → CallsOnce calls

section

variable {ε : Type} {retryOn : ε → Bool} {maxAttempts : Nat}

theorem Started.job_of_reply {a : Started ε} {key : Option String} (h : a.reply = .ok key) :
    ∃ job named, a = .accepted job named ∧ key = if named then some job else none := by
  cases a with
  | accepted job named => exact ⟨job, named, rfl, (Except.ok.inj h).symm⟩
  | failed _ _ => exact nomatch h

/-- The requests that start jobs: one job and its name, exactly if no execution is repeated
and the accepted answer is read as the id of its job. -/
theorem oneJob_retry_iff (answers : Nat → Started ε) (name : Option String → String)
    (hpos : 0 < maxAttempts) :
    OneJob ⟨none,
        executed (fun k => (answers k).job)
          (retry retryOn (fun k => (answers k).reply) maxAttempts).2,
        handleOf name (retry retryOn (fun k => (answers k).reply) maxAttempts).1⟩ ↔
      NoneRepeated retryOn answers maxAttempts ∧
      ∀ j job named, Sent retryOn (fun k => (answers k).reply) maxAttempts j →
        answers j = .accepted job named → name (if named then some job else none) = job := by
  obtain ⟨n, hn⟩ : ∃ n, (retry retryOn (fun k => (answers k).reply) maxAttempts).2 = n + 1 :=
    ⟨_, (Nat.succ_pred_eq_of_pos (sent_pos maxAttempts)).symm⟩
  have hlast : (retry retryOn (fun k => (answers k).reply) maxAttempts).1 = (answers n).reply := by
    rw [retry_fst, hn]
    rfl
  have hsent : ∀ j, j < n + 1 ↔ Sent retryOn (fun k => (answers k).reply) maxAttempts j := by
    intro j
    rw [← hn]
    exact lt_sent_iff hpos j
  have hlength : (executed (fun k => (answers k).job) (n + 1)).length ≤ 1 ↔
      NoneRepeated retryOn answers maxAttempts := by
    rw [length_executed_le_one_iff]
    exact forall₂_congr fun i j => forall_congr' fun _ => by rw [hsent j]
  rw [hn, hlast]
  constructor
  · rintro ⟨hle, hhandle⟩
    refine ⟨hlength.mp hle, fun j job named hj hans => ?_⟩
    have hok : (answers j).reply = .ok (if named then some job else none) := by
      rw [hans]
      rfl
    have hjn : j = n := by
      have := eq_last_of_ok hpos hj hok
      omega
    rw [hjn] at hans hok
    have hjob : (answers n).job = some job := by
      rw [hans]
      rfl
    have hhere := hhandle (name (if named then some job else none)) (by
      show handleOf name (answers n).reply = _
      rw [hok]
      rfl)
    have hone : ([] : List String) ++ executed (fun k => (answers k).job) (n + 1) = [job] :=
      executed_eq_singleton hjob hle
    exact List.singleton_inj.mp (hhere.symm.trans hone)
  · rintro ⟨hnone, hname⟩
    have hle := hlength.mpr hnone
    refine ⟨hle, fun h hh => ?_⟩
    cases hr : (answers n).reply with
    | error e =>
      rw [hr] at hh
      exact nomatch hh
    | ok key =>
      obtain ⟨job, named, hans, hkey⟩ := Started.job_of_reply hr
      have hjob : (answers n).job = some job := by
        rw [hans]
        rfl
      rw [hr, hkey] at hh
      have hh' := hname n job named ((hsent n).mp (Nat.lt_succ_self n)) hans
      have heq : h = job := (Option.some.inj hh).symm.trans hh'
      rw [heq]
      exact executed_eq_singleton hjob hle

end

/-- A job that is registered twice is one job, and the handle has its id. -/
theorem oneJob_nomadDirect (specId : String) (answers : Nat → Registered) :
    OneJob (submit (.nomadDirect specId answers)) := by
  unfold submit OneJob
  dsimp only
  obtain ⟨n, hn⟩ : ∃ n, (retry nomadRetryOn (fun k => (answers k).reply specId)
      nomadRetryMaxAttempts).2 = n + 1 := ⟨_, (Nat.succ_pred_eq_of_pos (sent_pos _)).symm⟩
  have hlast : (retry nomadRetryOn (fun k => (answers k).reply specId)
      nomadRetryMaxAttempts).1 = (answers n).reply specId := by
    rw [retry_fst, hn]
    rfl
  rw [hn, hlast]
  refine ⟨by split <;> simp, fun job hjob => ?_⟩
  cases hans : answers n with
  | failed executed e =>
    rw [hans] at hjob
    exact nomatch hjob
  | accepted named =>
    have hexecuted : executed (fun k => (answers k).executed) (n + 1) ≠ [] := by
      intro hnil
      have hnone := executed_eq_nil_iff.mp hnil n (Nat.lt_succ_self n)
      rw [hans] at hnone
      exact nomatch hnone
    have hname : jobIdOr specId (if named then some specId else none) = specId := by
      cases named with
      | false => rfl
      | true =>
        show (if specId = "" then specId else specId) = specId
        exact ite_self specId
    rw [hans] at hjob
    rw [if_neg hexecuted, ← Option.some.inj hjob]
    exact congrArg (fun id => [id]) hname.symm

theorem oneJob_dispatchJob_iff {dispatch : Nat → Started NomadFailure}
    (hids : ∀ k job named, dispatch k = .accepted job named → job ≠ "") :
    OneJob (dispatchJob dispatch) ↔
      NoneRepeated nomadRetryOn dispatch nomadRetryMaxAttempts ∧ AnswersNamed dispatch := by
  unfold dispatchJob
  dsimp only
  rw [oneJob_retry_iff dispatch (jobIdOr "") (by decide)]
  refine and_congr Iff.rfl (forall_congr' fun j => forall₂_congr fun job named => ?_)
  refine forall_congr' fun _ => forall_congr' fun hans => ?_
  have hid := hids j job named hans
  cases named with
  | false =>
    -- without the key the handle's job is the empty string
    exact ⟨fun h => absurd h.symm hid, nofun⟩
  | true =>
    refine ⟨fun _ => rfl, fun _ => ?_⟩
    show (if job = "" then "" else job) = job
    rw [if_neg hid]

/-- Registering the parameterized job starts nothing; where it does not return, neither does
the submit. -/
theorem registration_returns_iff (register : Nat → Registered) :
    RegistrationReturns false register ↔
      ∃ key, (retry nomadRetryOn (fun k => (register k).reply "") nomadRetryMaxAttempts).1 =
        .ok key := by
  unfold RegistrationReturns
  constructor
  · rintro (h | ⟨j, named, hsent, hans⟩)
    · exact nomatch h
    · have hok : (register j).reply "" = .ok (if named then some "" else none) := by
        rw [hans]
        rfl
      have hj := eq_last_of_ok (by decide) hsent hok
      exact ⟨_, by rw [retry_fst, ← hj]; exact hok⟩
  · rintro ⟨key, hkey⟩
    rw [retry_fst] at hkey
    cases hans : register ((retry nomadRetryOn (fun k => (register k).reply "")
        nomadRetryMaxAttempts).2 - 1) with
    | accepted named => exact .inr ⟨_, named, sent_last (by decide), hans⟩
    | failed executed e =>
      rw [hans] at hkey
      exact nomatch hkey

theorem oneJob_nomadDispatch_iff {registered : Bool} {register : Nat → Registered}
    {dispatch : Nat → Started NomadFailure}
    (hids : ∀ k job named, dispatch k = .accepted job named → job ≠ "") :
    OneJob (submit (.nomadDispatch registered register dispatch)) ↔
      (RegistrationReturns registered register →
        NoneRepeated nomadRetryOn dispatch nomadRetryMaxAttempts ∧ AnswersNamed dispatch) := by
  rw [← oneJob_dispatchJob_iff hids]
  cases registered with
  | true => exact ⟨fun h _ => h, fun h => h (.inl rfl)⟩
  | false =>
    rw [registration_returns_iff]
    cases hreg : (retry nomadRetryOn (fun k => (register k).reply "")
        nomadRetryMaxAttempts).1 with
    | error e =>
      have hsubmit : submit (.nomadDispatch false register dispatch) = ⟨none, [], none⟩ := by
        rw [submit, hreg]
      rw [hsubmit]
      refine ⟨fun _ h => ?_, fun _ => ⟨Nat.zero_le 1, fun job h => nomatch h⟩⟩
      obtain ⟨key, hkey⟩ := h
      exact nomatch hkey
    | ok key =>
      have hsubmit : submit (.nomadDispatch false register dispatch) = dispatchJob dispatch := by
        rw [submit, hreg]
      rw [hsubmit]
      exact ⟨fun h _ => h, fun h => h ⟨key, rfl⟩⟩

theorem oneJob_pbs_iff {qsub : Nat → Started PbsFailure}
    (hids : ∀ k job named, qsub k = .accepted job named → named = true) :
    OneJob (submit (.pbs qsub)) ↔ NoneRepeated pbsRetryOn qsub pbsMaxAttempts := by
  unfold submit
  dsimp only
  rw [oneJob_retry_iff qsub (·.getD "") (by decide)]
  refine ⟨fun h => h.1, fun h => ⟨h, fun j job named _ hans => ?_⟩⟩
  rw [hids j job named hans]
  rfl

/-- Only throttled calls are repeated, and they started nothing. -/
theorem oneJob_awsBatch_iff {calls : Nat → ClientCall}
    (hthrottled : ∀ k e, (calls k).reply = .error e → batchRetryOn e → (calls k).jobs = []) :
    OneJob (submit (.awsBatch none calls)) ↔ CallsOnce calls := by
  unfold submit
  dsimp only
  obtain ⟨n, hn⟩ : ∃ n, (retry batchRetryOn (fun k => (calls k).reply)
      batchMaxAttempts).2 = n + 1 := ⟨_, (Nat.succ_pred_eq_of_pos (sent_pos _)).symm⟩
  have hlast : (retry batchRetryOn (fun k => (calls k).reply) batchMaxAttempts).1 =
      (calls n).reply := by
    rw [retry_fst, hn]
    rfl
  have hsent : Sent batchRetryOn (fun k => (calls k).reply) batchMaxAttempts n :=
    (lt_sent_iff (by decide) n).mp (by omega)
  have hbefore : ∀ i < n, (calls i).jobs = [] := by
    intro i hi
    obtain ⟨e, he, hr⟩ := hsent.2 i hi
    exact hthrottled i e he hr
  have hstarted : ((List.range (n + 1)).flatMap fun k => (calls k).jobs) = (calls n).jobs := by
    have hnil : ((List.range n).flatMap fun k => (calls k).jobs) = [] :=
      List.flatMap_eq_nil_iff.mpr fun i hi => hbefore i (List.mem_range.mp hi)
    rw [List.range_succ, List.flatMap_append, hnil, List.nil_append, List.flatMap_singleton]
  rw [hn, hlast, hstarted]
  constructor
  · rintro ⟨hle, hhandle⟩ j hj
    by_cases hjn : j = n
    · rw [hjn]
      refine ⟨hle, fun job hok => ?_⟩
      refine hhandle job ?_
      show handleOf id (calls n).reply = some job
      rw [hok]
      rfl
    · -- an earlier call was throttled
      have hlt : j < n := by
        have := (lt_sent_iff (by decide) j).mpr hj
        omega
      obtain ⟨e, he, hr⟩ := hsent.2 j hlt
      rw [hbefore j hlt]
      exact ⟨Nat.zero_le 1, fun job hok => nomatch he.symm.trans hok⟩
  · intro h
    obtain ⟨hle, hok⟩ := h n hsent
    refine ⟨hle, fun job hjob => ?_⟩
    cases hr : (calls n).reply with
    | error e =>
      rw [hr] at hjob
      exact nomatch hjob
    | ok job' =>
      rw [hr] at hjob
      rw [← Option.some.inj hjob]
      exact hok job' hr

/-- Registering directly always is one job. A dispatch or a `qsub` is exactly if no request
that was executed is repeated by one that is, and the dispatch's answer has its `JobID`; a
Batch submit exactly if the client call that counts starts the job it returns, once. -/
theorem oneJob_iff (s : Submit) (h : Documented s) : OneJob (submit s) ↔ Safe s := by
  cases s with
  | nomadDirect specId answers => exact iff_of_true (oneJob_nomadDirect specId answers) trivial
  | nomadDispatch registered register dispatch => exact oneJob_nomadDispatch_iff h
  | pbs qsub => exact oneJob_pbs_iff h
  | awsBatch found calls =>
    cases found with
    | none =>
      rw [oneJob_awsBatch_iff h]
      exact ⟨fun h _ => h, fun h => h rfl⟩
    | some job =>
      refine iff_of_true ⟨Nat.zero_le 1, fun job' hjob => ?_⟩ nofun
      rw [← Option.some.inj hjob]
      rfl

/-- `qsub` cannot connect, then queues the job. -/
def refusedOnce : Nat → Started PbsFailure
  | 0 => .failed none (.calledProcessError "qsub: Connection refused")
  | _ => .accepted "7.pbs" true

theorem oneJob_refusedOnce : OneJob (submit (.pbs refusedOnce)) := by
  refine (oneJob_iff (.pbs refusedOnce) ?_).mpr ?_
  · intro k job named h
    cases k with
    | zero => exact nomatch h
    | succ k =>
      cases h
      rfl
  · intro i j hij hsent
    by_cases hi : i = 0
    · rw [hi]
      exact .inl rfl
    · -- the second request is accepted, so there is no third
      obtain ⟨e, he, -⟩ := hsent.2 i hij
      obtain ⟨k, rfl⟩ := Nat.exists_eq_succ_of_ne_zero hi
      exact nomatch he

/-- Nomad starts the child job, and the gateway in front of it answers 502. -/
def lostOnce : Nat → Started NomadFailure
  | 0 => .failed (some "osimflow/dispatch-1") (.httpError 502)
  | _ => .accepted "osimflow/dispatch-2" true

theorem lost_dispatch_starts_two :
    submit (.nomadDispatch true (fun _ => .accepted true) lostOnce) =
      ⟨none, ["osimflow/dispatch-1", "osimflow/dispatch-2"], some "osimflow/dispatch-2"⟩ ∧
    ¬ OneJob (submit (.nomadDispatch true (fun _ => .accepted true) lostOnce)) := by
  have hrun : submit (.nomadDispatch true (fun _ => .accepted true) lostOnce) =
      ⟨none, ["osimflow/dispatch-1", "osimflow/dispatch-2"], some "osimflow/dispatch-2"⟩ := rfl
  refine ⟨hrun, fun h => ?_⟩
  rw [hrun] at h
  exact absurd h.1 (by decide)

end OSimFlow.Executors
