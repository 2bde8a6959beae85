import Mathlib.Data.List.Basic

/-!
# What `result()` says of a job on Kubernetes and PBS

`poll_until_terminal` asks until a status is terminal; the verdict is put together from more
queries, each at a moment of its own, between which the job goes on.

On Kubernetes the status is the phase of the first pod in the list. With a backoff limit that
may be a pod whose failure the Job has made up for. When the Job is gone, what lies at the
result location decides, and an earlier attempt may have left it there. On PBS a second
`qstat` reads the exit status. It is asked once, also of a job that is only exiting, and when
it fails the job counts as failed.

> `verdict_sound_iff`: at the first terminal reading, exactly these cases go wrong.
>
> `failed_pod_listed_first`: a job that is still being retried is reported as failed.

A look at the job is the moments of its queries, the ones it would need included. A job keeps
the outcome it ends with.
-/

namespace OSimFlow.Executors.JobVerdict

/-! ## Polling -/

section Poll

variable {μ σ : Type}

/-- `poll_until_terminal` without a timeout, over the moments at which it probes. A probe error
that is not tolerated is raised; a status that is transient or pending is asked for again. -/
def pollUntilTerminal (probe : μ → Except Unit σ) (isTerminal : σ → Bool)
    (tolerateProbeErrors : Bool) : List μ → Option (μ × Except Unit σ)
  | [] => none
  | m :: ms =>
    match probe m with
    | .error e =>
      if tolerateProbeErrors then pollUntilTerminal probe isTerminal tolerateProbeErrors ms
      else some (m, .error e)
    | .ok status =>
      if isTerminal status then some (m, .ok status)
      else pollUntilTerminal probe isTerminal tolerateProbeErrors ms

/-- The probe is answered with a terminal status. -/
def Terminal (probe : μ → Except Unit σ) (isTerminal : σ → Bool) (m : μ) (status : σ) : Prop :=
  probe m = .ok status ∧ isTerminal status = true

/-- Polling ends at the first terminal status if a probe error is tolerated or none is raised. -/
theorem poll_eq_some_iff {probe : μ → Except Unit σ} (isTerminal : σ → Bool) {tolerate : Bool}
    (hprobe : tolerate = true ∨ ∀ m, ∃ status, probe m = .ok status) (ms : List μ) (m : μ)
    (answer : Except Unit σ) :
    pollUntilTerminal probe isTerminal tolerate ms = some (m, answer) ↔
      ∃ pre post status, ms = pre ++ m :: post ∧ Terminal probe isTerminal m status ∧
        answer = .ok status ∧ ∀ q ∈ pre, ∀ s, ¬ Terminal probe isTerminal q s := by
  induction ms with
  | nil =>
    refine iff_of_false nofun ?_
    rintro ⟨pre, post, _, h, -⟩
    exact List.append_ne_nil_of_right_ne_nil pre (List.cons_ne_nil m post) h.symm
  | cons q ms ih =>
    by_cases hq : ∃ status, Terminal probe isTerminal q status
    · obtain ⟨status, hstatus, hterminal⟩ := hq
      have hpoll : pollUntilTerminal probe isTerminal tolerate (q :: ms) =
          some (q, .ok status) := by
        unfold pollUntilTerminal
        rw [hstatus]
        exact if_pos hterminal
      rw [hpoll]
      constructor
      · intro h
        obtain ⟨rfl, rfl⟩ := Prod.mk.inj (Option.some.inj h)
        exact ⟨[], ms, status, rfl, ⟨hstatus, hterminal⟩, rfl, nofun⟩
      · rintro ⟨pre, post, s, happend, hs, rfl, hpre⟩
        cases pre with
        | nil =>
          obtain ⟨rfl, -⟩ := List.cons.inj happend
          have := Except.ok.inj (hstatus.symm.trans hs.1)
          rw [this]
        | cons q' pre =>
          obtain ⟨rfl, -⟩ := List.cons.inj happend
          exact absurd ⟨hstatus, hterminal⟩ (hpre q List.mem_cons_self status)
    · have hnone : ∀ s, ¬ Terminal probe isTerminal q s := fun s hs => hq ⟨s, hs⟩
      have hpoll : pollUntilTerminal probe isTerminal tolerate (q :: ms) =
          pollUntilTerminal probe isTerminal tolerate ms := by
        conv_lhs => unfold pollUntilTerminal
        cases hstatus : probe q with
        | error e =>
          refine if_pos (hprobe.resolve_right fun hok => ?_)
          obtain ⟨s, hs⟩ := hok q
          exact nomatch hstatus.symm.trans hs
        | ok s => exact if_neg fun hs => hnone s ⟨hstatus, hs⟩
      rw [hpoll, ih]
      constructor
      · rintro ⟨pre, post, s, rfl, hs, hanswer, hpre⟩
        exact ⟨q :: pre, post, s, rfl, hs, hanswer,
          List.forall_mem_cons.mpr ⟨hnone, hpre⟩⟩
      · rintro ⟨pre, post, s, happend, hs, hanswer, hpre⟩
        cases pre with
        | nil =>
          obtain ⟨rfl, -⟩ := List.cons.inj happend
          exact absurd hs (hnone s)
        | cons q' pre =>
          obtain ⟨rfl, rfl⟩ := List.cons.inj happend
          exact ⟨pre, post, s, rfl, hs, hanswer, (List.forall_mem_cons.mp hpre).2⟩

/-- What is concluded from a terminal status. An error that is raised concludes nothing. -/
def conclusion {β : Type} (conclude : μ → σ → β) : Option (μ × Except Unit σ) → Option β
  | some (m, .ok status) => some (conclude m status)
  | _ => none

/-- A conclusion has a property exactly if the first moment that ends the polling is clear. -/
theorem conclusion_iff {β : Type} {probe : μ → Except Unit σ} {isTerminal : σ → Bool}
    {tolerate : Bool} {conclude : μ → σ → β} {ms : List μ} {Ends Clear : μ → Prop}
    {P : β → Prop} (hprobe : tolerate = true ∨ ∀ m, ∃ status, probe m = .ok status)
    (hends : ∀ m ∈ ms, (∃ status, Terminal probe isTerminal m status) ↔ Ends m)
    (hclear : ∀ m ∈ ms, ∀ status, Terminal probe isTerminal m status →
      (P (conclude m status) ↔ Clear m)) :
    (∀ b, conclusion conclude (pollUntilTerminal probe isTerminal tolerate ms) = some b → P b) ↔
      ∀ pre m post, ms = pre ++ m :: post → (∀ q ∈ pre, ¬ Ends q) → Ends m → Clear m := by
  constructor
  · rintro h pre m post rfl hpre hm
    have hmem : m ∈ pre ++ m :: post := List.mem_append_right pre List.mem_cons_self
    obtain ⟨status, hstatus⟩ := (hends m hmem).mpr hm
    have hpoll := (poll_eq_some_iff isTerminal hprobe _ m (.ok status)).mpr
      ⟨pre, post, status, rfl, hstatus, rfl, fun q hq s hs =>
        hpre q hq ((hends q (List.mem_append_left _ hq)).mp ⟨s, hs⟩)⟩
    refine (hclear m hmem status hstatus).mp (h _ ?_)
    rw [hpoll]
    rfl
  · intro h b hb
    cases hpoll : pollUntilTerminal probe isTerminal tolerate ms with
    | none =>
      rw [hpoll] at hb
      exact nomatch hb
    | some answer =>
      obtain ⟨m, answer⟩ := answer
      obtain ⟨pre, post, status, rfl, hstatus, rfl, hpre⟩ :=
        (poll_eq_some_iff isTerminal hprobe ms m answer).mp hpoll
      rw [hpoll] at hb
      obtain rfl := Option.some.inj hb
      have hmem : m ∈ pre ++ m :: post := List.mem_append_right pre List.mem_cons_self
      refine (hclear m hmem status hstatus).mpr (h pre m post rfl (fun q hq hq' => ?_)
        ((hends m hmem).mp ⟨status, hstatus⟩))
      obtain ⟨s, hs⟩ := (hends q (List.mem_append_left _ hq)).mpr hq'
      exact hpre q hq s hs

end Poll

/-! ## The result of a job -/

/-- What lies at the result location: nothing, what an earlier attempt or generation left, or
what the job itself wrote. -/
inductive Artifacts where
  | none
  | earlier
  | own
deriving DecidableEq

/-- A handle's result hint, with or without paths in it, and its transport: object storage or a
shared file system, with a backend and a bucket or without. -/
structure Handle where
  hint : Option Bool
  objectStorage : Bool
  configured : Bool

/-- `resolve_and_materialize`: raises, or returns a value that may be `None`. -/
def resolveAndMaterialize (handle : Handle) (artifacts : Artifacts) (storageFails : Bool) :
    Except Unit Bool :=
  match handle.hint with
  | none => .ok false
  | some hasPaths =>
    if handle.objectStorage && handle.configured then
      if hasPaths && (decide (artifacts = .none) || storageFails) then .error () else .ok true
    else .ok true

/-- The artifacts that the hint points to can be fetched, or there are none to fetch. -/
def Fetchable (handle : Handle) (artifacts : Artifacts) (storageFails : Bool) : Prop :=
  handle.hint = some true → handle.objectStorage = true → handle.configured = true →
    artifacts ≠ .none ∧ storageFails = false

theorem resolve_error_iff (handle : Handle) (artifacts : Artifacts) (storageFails : Bool) :
    resolveAndMaterialize handle artifacts storageFails = .error () ↔
      ¬ Fetchable handle artifacts storageFails := by
  obtain ⟨hint, objectStorage, configured⟩ := handle
  unfold resolveAndMaterialize Fetchable
  rcases hint with _ | _ | _ <;> cases objectStorage <;> cases configured <;> simp

inductive Verdict where
  | value
  | failure
deriving DecidableEq

/-- Behind a success the result is resolved; an error of fetching it is raised. -/
def concludeSuccess {μ : Type} (handle : Handle) (artifacts : Artifacts) (storageFails : Bool)
    (m : μ) : Verdict × μ :=
  match resolveAndMaterialize handle artifacts storageFails with
  | .ok _ => (.value, m)
  | .error _ => (.failure, m)

theorem concludeSuccess_of_fetchable {μ : Type} {handle : Handle} {artifacts : Artifacts}
    {storageFails : Bool} (h : Fetchable handle artifacts storageFails) (m : μ) :
    concludeSuccess handle artifacts storageFails m = (.value, m) := by
  unfold concludeSuccess
  cases hresolve : resolveAndMaterialize handle artifacts storageFails with
  | ok _ => rfl
  | error _ => exact absurd h ((resolve_error_iff handle artifacts storageFails).mp hresolve)

theorem concludeSuccess_of_not {μ : Type} {handle : Handle} {artifacts : Artifacts}
    {storageFails : Bool} (h : ¬ Fetchable handle artifacts storageFails) (m : μ) :
    concludeSuccess handle artifacts storageFails m = (.failure, m) := by
  unfold concludeSuccess
  rw [(resolve_error_iff handle artifacts storageFails).mpr h]

/-! ## Kubernetes -/

namespace Kubernetes

inductive Phase where
  | pending
  | running
  | succeeded
  | failed
  | unknown
deriving DecidableEq

inductive Stage where
  | active
  | complete
  | failed
deriving DecidableEq

/-- The cluster and the result location at one moment. `stage` stays when the Job is deleted. -/
structure Moment where
  stage : Stage
  present : Bool
  /-- In the order of `list_namespaced_pod`. -/
  pods : List Phase
  artifacts : Artifacts
  listFails : Bool
  readFails : Bool
  storageFails : Bool

/-- A pod that succeeds completes the Job. -/
def Moment.Lawful (m : Moment) : Prop := .succeeded ∈ m.pods → m.stage = .complete

/-- The moments of listing the pods, reading the Job, and fetching the artifacts. -/
structure Look where
  list : Moment
  read : Moment
  fetch : Moment

def Look.moments (l : Look) : List Moment := [l.list, l.read, l.fetch]

/-- The looks at one Job. -/
structure Run where
  looks : List Look
  lawful : ∀ m ∈ looks.flatMap Look.moments, m.Lawful
  persists : (looks.flatMap Look.moments).Pairwise fun a b =>
    a.stage ≠ .active → b.stage = a.stage

/-- A pod status. `verified` when it was made up for a deleted Job whose result was found. -/
structure Status where
  phase : Phase
  verified : Bool

variable (handle : Handle)

/-- `_verify_deleted_job_result`. -/
def verifyDeletedJobResult (m : Moment) : Except Unit Bool :=
  if handle.objectStorage && !handle.configured then .error ()
  else
    match resolveAndMaterialize handle m.artifacts m.storageFails with
    | .error e => .error e
    | .ok resolved =>
      if resolved && !handle.objectStorage && decide (handle.hint = some true) &&
          decide (m.artifacts = .none) then .error ()
      else .ok resolved

/-- `_deleted_job_pod_status`. -/
def deletedJobPodStatus (m : Moment) : Status :=
  match verifyDeletedJobResult handle m with
  | .ok true => ⟨.succeeded, true⟩
  | _ => ⟨.failed, false⟩

/-- `_get_pod_status`. -/
def getPodStatus (l : Look) : Except Unit Status :=
  if l.list.listFails then .error ()
  else
    match l.list.pods with
    | phase :: _ => .ok ⟨phase, false⟩
    | [] =>
      if l.read.readFails then .error ()
      else if l.read.present then .ok ⟨.pending, false⟩
      else .ok (deletedJobPodStatus handle l.fetch)

def isTerminal (status : Status) : Bool :=
  decide (status.phase = .succeeded) || decide (status.phase = .failed)

/-- The verdict on a terminal status, and the moment it is reached. -/
def conclude (l : Look) (status : Status) : Verdict × Moment :=
  if status.phase = .succeeded then
    if status.verified then (.value, l.fetch)
    else concludeSuccess handle l.fetch.artifacts l.fetch.storageFails l.fetch
  else if l.list.pods = [] then (.failure, l.fetch)
  else (.failure, l.list)

/-- `result()`. -/
def result (looks : List Look) : Option (Verdict × Moment) :=
  conclusion (conclude handle) (pollUntilTerminal (getPodStatus handle) isTerminal true looks)

/-- The Job, a pod of it or the artifacts of its success are still there. -/
def Recorded (m : Moment) : Prop :=
  m.present = true ∨ m.pods ≠ [] ∨ m.stage = .complete ∧ m.artifacts = .own

/-- The verdict is the outcome of the Job. -/
def Right : Verdict → Moment → Prop
  | .value, m => m.stage = .complete
  | .failure, m => m.stage = .failed ∨ ¬ Recorded m

def Sound (r : Run) : Prop :=
  ∀ verdict m, result handle r.looks = some (verdict, m) → Right verdict m

/-- A deleted Job counts as successful: there is a hint, and what it points to is there. -/
def Evident (m : Moment) : Prop :=
  handle.hint ≠ none ∧ (handle.objectStorage = true → handle.configured = true) ∧
    (handle.hint = some true →
      m.artifacts ≠ .none ∧ (handle.objectStorage = true → m.storageFails = false))

/-- The queries of the look end the polling. -/
def Ends (l : Look) : Prop :=
  l.list.listFails = false ∧
    (l.list.pods.head? = some .succeeded ∨ l.list.pods.head? = some .failed ∨
      l.list.pods = [] ∧ l.read.readFails = false ∧ l.read.present = false)

/-- A failed pod stands first only if the Job has failed. Behind a pod that succeeded the
artifacts can be fetched. A deleted Job is evident only if it was complete, and is not so only
if it failed or left nothing. -/
structure Clear (l : Look) : Prop where
  failed : l.list.pods.head? = some .failed → l.list.stage = .failed
  succeeded : l.list.pods.head? = some .succeeded →
    Fetchable handle l.fetch.artifacts l.fetch.storageFails ∨ ¬ Recorded l.fetch
  evident : l.list.pods = [] → Evident handle l.fetch → l.fetch.stage = .complete
  missing : l.list.pods = [] → ¬ Evident handle l.fetch →
    l.fetch.stage = .failed ∨ ¬ Recorded l.fetch

/-- The look that ends the polling is clear. -/
def EndsClear (r : Run) : Prop :=
  ∀ pre l post, r.looks = pre ++ l :: post → (∀ q ∈ pre, ¬ Ends q) → Ends l → Clear handle l

variable {handle}

theorem verify_iff (m : Moment) : verifyDeletedJobResult handle m = .ok true ↔ Evident handle m := by
  obtain ⟨hint, objectStorage, configured⟩ := handle
  unfold verifyDeletedJobResult resolveAndMaterialize Evident
  rcases hint with _ | _ | _ <;> cases objectStorage <;> cases configured <;> simp
  grind

theorem deletedJobPodStatus_of_evident {m : Moment} (hm : Evident handle m) :
    deletedJobPodStatus handle m = ⟨.succeeded, true⟩ := by
  unfold deletedJobPodStatus
  rw [(verify_iff m).mpr hm]

theorem deletedJobPodStatus_of_not {m : Moment} (hm : ¬ Evident handle m) :
    deletedJobPodStatus handle m = ⟨.failed, false⟩ := by
  unfold deletedJobPodStatus
  split
  next hverified => exact absurd ((verify_iff m).mp hverified) hm
  next => rfl

/-! ### What a look shows -/

theorem getPodStatus_cons {l : Look} {phase : Phase} {rest : List Phase}
    (hlist : l.list.listFails = false) (hpods : l.list.pods = phase :: rest) :
    getPodStatus handle l = .ok ⟨phase, false⟩ := by
  unfold getPodStatus
  rw [hlist, hpods]
  rfl

theorem getPodStatus_gone {l : Look} (hlist : l.list.listFails = false)
    (hpods : l.list.pods = []) (hread : l.read.readFails = false)
    (hgone : l.read.present = false) :
    getPodStatus handle l = .ok (deletedJobPodStatus handle l.fetch) := by
  unfold getPodStatus
  rw [hlist, hpods, hread, hgone]
  rfl

theorem terminal_deleted (m : Moment) : isTerminal (deletedJobPodStatus handle m) = true := by
  by_cases hm : Evident handle m
  · rw [deletedJobPodStatus_of_evident hm]
    rfl
  · rw [deletedJobPodStatus_of_not hm]
    rfl

/-- The looks at which polling stops. -/
theorem terminal_iff (l : Look) :
    (∃ status, Terminal (getPodStatus handle) isTerminal l status) ↔ Ends l := by
  unfold Terminal Ends
  cases hlist : l.list.listFails with
  | true =>
    refine iff_of_false ?_ fun h => nomatch h.1
    rintro ⟨status, hstatus, -⟩
    unfold getPodStatus at hstatus
    rw [hlist] at hstatus
    exact nomatch hstatus
  | false =>
    cases hpods : l.list.pods with
    | cons phase rest =>
      rw [getPodStatus_cons hlist hpods]
      cases phase <;> simp [isTerminal]
    | nil =>
      cases hread : l.read.readFails with
      | true =>
        refine iff_of_false ?_ (by simp)
        rintro ⟨status, hstatus, -⟩
        unfold getPodStatus at hstatus
        rw [hlist, hpods, hread] at hstatus
        exact nomatch hstatus
      | false =>
        cases hgone : l.read.present with
        | true =>
          refine iff_of_false ?_ (by simp)
          rintro ⟨status, hstatus, hterminal⟩
          unfold getPodStatus at hstatus
          rw [hlist, hpods, hread, hgone] at hstatus
          rw [← Except.ok.inj hstatus] at hterminal
          exact nomatch hterminal
        | false =>
          rw [getPodStatus_gone hlist hpods hread hgone]
          exact iff_of_true ⟨_, rfl, terminal_deleted _⟩ ⟨rfl, .inr (.inr ⟨rfl, rfl, rfl⟩)⟩

/-- In a run, a pod that succeeded is there only if the Job is complete when the artifacts are
fetched. -/
theorem complete_of_succeeded (r : Run) {l : Look} (hl : l ∈ r.looks)
    (hpod : .succeeded ∈ l.list.pods) : l.fetch.stage = .complete := by
  have hlist : l.list.stage = .complete :=
    (r.lawful l.list (List.mem_flatMap.mpr ⟨l, hl, List.mem_cons_self⟩)) hpod
  have hpersists := (List.pairwise_flatMap.mp r.persists).1 l hl
  have hfetch := (List.pairwise_cons.mp hpersists).1 l.fetch (by simp)
  rw [hfetch (by rw [hlist]; exact nofun), hlist]

/-- The verdict of a look that ends the polling is right exactly if the look is clear. -/
theorem right_conclude_iff (r : Run) {l : Look} (hl : l ∈ r.looks) (hends : Ends l)
    {status : Status} (hstatus : getPodStatus handle l = .ok status) :
    Right (conclude handle l status).1 (conclude handle l status).2 ↔ Clear handle l := by
  obtain ⟨hlist, hhead⟩ := hends
  cases hpods : l.list.pods with
  | nil =>
    rw [hpods] at hhead
    obtain ⟨hread, hgone⟩ : l.read.readFails = false ∧ l.read.present = false := by
      simpa using hhead
    rw [getPodStatus_gone hlist hpods hread hgone] at hstatus
    obtain rfl := Except.ok.inj hstatus
    by_cases hevident : Evident handle l.fetch
    · rw [deletedJobPodStatus_of_evident hevident]
      show l.fetch.stage = .complete ↔ _
      constructor
      · intro hcomplete
        refine ⟨?_, ?_, fun _ _ => hcomplete, fun _ hnot => absurd hevident hnot⟩
        · rw [hpods]; exact nofun
        · rw [hpods]; exact nofun
      · intro hclear
        exact hclear.evident hpods hevident
    · rw [deletedJobPodStatus_of_not hevident]
      have hconclude : conclude handle l ⟨.failed, false⟩ = (.failure, l.fetch) := by
        unfold conclude
        rw [if_neg nofun, if_pos hpods]
      rw [hconclude]
      show l.fetch.stage = .failed ∨ ¬ Recorded l.fetch ↔ _
      constructor
      · intro hright
        refine ⟨?_, ?_, fun _ h => absurd h hevident, fun _ _ => hright⟩
        · rw [hpods]; exact nofun
        · rw [hpods]; exact nofun
      · intro hclear
        exact hclear.missing hpods hevident
  | cons phase rest =>
    rw [getPodStatus_cons hlist hpods] at hstatus
    obtain rfl := Except.ok.inj hstatus
    have hne : l.list.pods ≠ [] := by
      rw [hpods]
      exact List.cons_ne_nil phase rest
    rw [hpods] at hhead
    have hphase : phase = .succeeded ∨ phase = .failed := by
      simpa using hhead
    rcases hphase with rfl | rfl
    · have hcomplete : l.fetch.stage = .complete :=
        complete_of_succeeded r hl (by rw [hpods]; exact List.mem_cons_self)
      have hclear : Clear handle l ↔
          (Fetchable handle l.fetch.artifacts l.fetch.storageFails ∨ ¬ Recorded l.fetch) := by
        constructor
        · intro hclear
          exact hclear.succeeded (by rw [hpods]; rfl)
        · intro hfetch
          refine ⟨?_, fun _ => hfetch, fun h => absurd h hne, fun h => absurd h hne⟩
          rw [hpods]
          exact nofun
      rw [hclear]
      have hconclude : conclude handle l ⟨.succeeded, false⟩ =
          concludeSuccess handle l.fetch.artifacts l.fetch.storageFails l.fetch := by
        unfold conclude
        rw [if_pos rfl, if_neg nofun]
      rw [hconclude]
      by_cases hfetch : Fetchable handle l.fetch.artifacts l.fetch.storageFails
      · rw [concludeSuccess_of_fetchable hfetch]
        exact iff_of_true hcomplete (.inl hfetch)
      · rw [concludeSuccess_of_not hfetch]
        show l.fetch.stage = .failed ∨ ¬ Recorded l.fetch ↔ _
        rw [hcomplete]
        simp [hfetch]
    · have hconclude : conclude handle l ⟨.failed, false⟩ = (.failure, l.list) := by
        unfold conclude
        rw [if_neg nofun, if_neg hne]
      rw [hconclude]
      show l.list.stage = .failed ∨ ¬ Recorded l.list ↔ _
      have hrecorded : Recorded l.list := .inr (.inl hne)
      constructor
      · intro hright
        refine ⟨fun _ => hright.resolve_right (not_not_intro hrecorded), ?_,
          fun h => absurd h hne, fun h => absurd h hne⟩
        rw [hpods]
        exact nofun
      · intro hclear
        exact .inl (hclear.failed (by rw [hpods]; rfl))

theorem sound_iff (handle : Handle) (r : Run) : Sound handle r ↔ EndsClear handle r := by
  have h := @conclusion_iff _ _ _ (getPodStatus handle) isTerminal true (conclude handle)
    r.looks Ends (Clear handle) (fun answer => Right answer.1 answer.2) (.inl rfl)
    (fun l _ => terminal_iff l)
    fun l hl status hstatus =>
      right_conclude_iff r hl ((terminal_iff l).mp ⟨status, hstatus⟩) hstatus.1
  exact ⟨fun hsound => h.mp fun answer => hsound answer.1 answer.2,
    fun hclear verdict m => h.mpr hclear (verdict, m)⟩

end Kubernetes

/-! ## PBS -/

namespace Pbs

/-- The letter of `job_state`. -/
inductive State where
  | Q
  | R
  | H
  | T
  | W
  | S
  | E
  | F
  | C
  | other
deriving DecidableEq

def isTerminal (state : Option State) : Bool :=
  decide (state = some .F) || decide (state = some .E) || decide (state = some .C)

inductive Stage where
  | alive (state : State)
  | exiting
  | finished (exitStatus : Int)

/-- The server and the result location at one moment. `stage` stays when the record is purged.
`fails` is a `qstat` that fails, with a text that `_TRANSIENT_STDERR_RE` knows or another. -/
structure Moment where
  stage : Stage
  purged : Bool
  fails : Option Bool
  artifacts : Artifacts
  storageFails : Bool

def Moment.Lawful (m : Moment) : Prop :=
  ∀ state, m.stage = .alive state → isTerminal (some state) = false

/-- What `qstat -f` prints, or whether its failure is known to be transient. -/
def Moment.qstat (m : Moment) : Except Bool (State × Option Int) :=
  match m.fails with
  | some transient => .error transient
  | none =>
    if m.purged then .error false
    else
      match m.stage with
      | .alive state => .ok (state, none)
      | .exiting => .ok (.E, none)
      | .finished exitStatus => .ok (.F, some exitStatus)

/-- `_query_job_state`. -/
def queryJobState (m : Moment) : Option State :=
  match m.qstat with
  | .error true => none
  | .error false => some .F
  | .ok (state, _) => some state

/-- `_parse_exit_status`. -/
def parseExitStatus (m : Moment) : Int :=
  match m.qstat with
  | .error _ => -1
  | .ok (_, exitStatus) => exitStatus.getD (-1)

/-- The moments of the two `qstat` calls and of fetching the artifacts. -/
structure Look where
  state : Moment
  exit : Moment
  fetch : Moment

def Look.moments (l : Look) : List Moment := [l.state, l.exit, l.fetch]

/-- The looks at one job. -/
structure Run where
  looks : List Look
  lawful : ∀ m ∈ looks.flatMap Look.moments, m.Lawful
  persists : (looks.flatMap Look.moments).Pairwise fun a b =>
    (∀ exitStatus, a.stage = .finished exitStatus → b.stage = .finished exitStatus) ∧
      (a.purged = true → b.purged = true)

variable (handle : Handle)

/-- The verdict behind a terminal state, and the moment it is reached. -/
def conclude (l : Look) : Verdict × Moment :=
  if parseExitStatus l.exit = 0 then
    concludeSuccess handle l.fetch.artifacts l.fetch.storageFails l.fetch
  else (.failure, l.exit)

/-- `result()`. -/
def result (looks : List Look) : Option (Verdict × Moment) :=
  conclusion (fun l _ => conclude handle l)
    (pollUntilTerminal (fun l => .ok (queryJobState l.state)) isTerminal false looks)

/-- The job is known to the server, or the artifacts of its success are there. -/
def Recorded (m : Moment) : Prop :=
  m.purged = false ∨ m.stage = .finished 0 ∧ m.artifacts = .own

/-- The verdict is the outcome of the job. -/
def Right : Verdict → Moment → Prop
  | .value, m => m.stage = .finished 0
  | .failure, m => (∃ exitStatus, exitStatus ≠ 0 ∧ m.stage = .finished exitStatus) ∨ ¬ Recorded m

def Sound (r : Run) : Prop :=
  ∀ verdict m, result handle r.looks = some (verdict, m) → Right verdict m

/-- The state ends the polling: the job is exiting or finished and `qstat` says so, or `qstat`
fails and is not known to be transient, as it does for a purged job. -/
def Ends (l : Look) : Prop :=
  match l.state.fails with
  | some transient => transient = false
  | none => l.state.purged = true ∨ l.state.stage = .exiting ∨
    ∃ exitStatus, l.state.stage = .finished exitStatus

/-- When the exit status is asked for, the job has finished or is forgotten. One that finished
with 0 is either answered for, and its artifacts can be fetched, or forgotten. -/
structure Clear (l : Look) : Prop where
  ended : (∃ exitStatus, l.exit.stage = .finished exitStatus) ∨ ¬ Recorded l.exit
  success : l.exit.stage = .finished 0 →
    l.exit.fails = none ∧ l.exit.purged = false ∧
        (Fetchable handle l.fetch.artifacts l.fetch.storageFails ∨ ¬ Recorded l.fetch) ∨
      ¬ Recorded l.exit

/-- The look that ends the polling is clear. -/
def EndsClear (r : Run) : Prop :=
  ∀ pre l post, r.looks = pre ++ l :: post → (∀ q ∈ pre, ¬ Ends q) → Ends l → Clear handle l

variable {handle}

theorem queryJobState_of_fails {m : Moment} {transient : Bool} (h : m.fails = some transient) :
    queryJobState m = if transient then none else some .F := by
  unfold queryJobState Moment.qstat
  rw [h]
  cases transient <;> rfl

/-- The looks at which polling stops. -/
theorem terminal_iff {l : Look} (hlawful : l.state.Lawful) :
    isTerminal (queryJobState l.state) = true ↔ Ends l := by
  unfold Ends
  cases hfails : l.state.fails with
  | some transient =>
    rw [queryJobState_of_fails hfails]
    show _ ↔ transient = false
    cases transient <;> decide
  | none =>
    unfold queryJobState Moment.qstat
    rw [hfails]
    cases hpurged : l.state.purged with
    | true => exact iff_of_true rfl (.inl rfl)
    | false =>
      cases hstage : l.state.stage with
      | alive state =>
        refine iff_of_false ?_ (by simp)
        show ¬ isTerminal (some state) = true
        rw [hlawful state hstage]
        exact nofun
      | exiting => exact iff_of_true rfl (.inr (.inl rfl))
      | finished exitStatus => exact iff_of_true rfl (.inr (.inr ⟨exitStatus, rfl⟩))

theorem parseExitStatus_eq_zero_iff (m : Moment) :
    parseExitStatus m = 0 ↔ m.fails = none ∧ m.purged = false ∧ m.stage = .finished 0 := by
  unfold parseExitStatus Moment.qstat
  cases m.fails with
  | some transient => simp
  | none =>
    cases m.purged with
    | true => simp
    | false => cases m.stage <;> simp

/-- A job that has finished stays so until the artifacts are fetched. -/
theorem finished_at_fetch (r : Run) {l : Look} (hl : l ∈ r.looks) {exitStatus : Int}
    (h : l.exit.stage = .finished exitStatus) : l.fetch.stage = .finished exitStatus := by
  have hpersists := (List.pairwise_flatMap.mp r.persists).1 l hl
  have htail := (List.pairwise_cons.mp hpersists).2
  exact ((List.pairwise_cons.mp htail).1 l.fetch List.mem_cons_self).1 exitStatus h

/-- The verdict of a look that ends the polling is right exactly if the look is clear. -/
theorem right_conclude_iff (r : Run) {l : Look} (hl : l ∈ r.looks) :
    Right (conclude handle l).1 (conclude handle l).2 ↔ Clear handle l := by
  unfold conclude
  by_cases hzero : parseExitStatus l.exit = 0
  · obtain ⟨hfails, hpurged, hstage⟩ := (parseExitStatus_eq_zero_iff l.exit).mp hzero
    have hrecorded : Recorded l.exit := .inl hpurged
    have hclear : Clear handle l ↔
        (Fetchable handle l.fetch.artifacts l.fetch.storageFails ∨ ¬ Recorded l.fetch) := by
      constructor
      · intro hclear
        exact ((hclear.success hstage).resolve_right (not_not_intro hrecorded)).2.2
      · intro h
        exact ⟨.inl ⟨0, hstage⟩, fun _ => .inl ⟨hfails, hpurged, h⟩⟩
    have hfinished := finished_at_fetch r hl hstage
    rw [if_pos hzero, hclear]
    by_cases hfetch : Fetchable handle l.fetch.artifacts l.fetch.storageFails
    · rw [concludeSuccess_of_fetchable hfetch]
      exact iff_of_true hfinished (.inl hfetch)
    · rw [concludeSuccess_of_not hfetch]
      have hnot : ¬ ∃ exitStatus, exitStatus ≠ 0 ∧ l.fetch.stage = .finished exitStatus := by
        rintro ⟨exitStatus, hne, h⟩
        rw [hfinished] at h
        exact hne (Stage.finished.inj h).symm
      exact (or_iff_right hnot).trans (or_iff_right hfetch).symm
  · rw [if_neg hzero]
    show (∃ exitStatus, exitStatus ≠ 0 ∧ l.exit.stage = .finished exitStatus) ∨
      ¬ Recorded l.exit ↔ _
    constructor
    · rintro (⟨exitStatus, hne, h⟩ | hforgotten)
      · refine ⟨.inl ⟨exitStatus, h⟩, fun hsuccess => absurd ?_ hne⟩
        rw [h] at hsuccess
        exact Stage.finished.inj hsuccess
      · exact ⟨.inr hforgotten, fun _ => .inr hforgotten⟩
    · intro hclear
      rcases hclear.ended with ⟨exitStatus, h⟩ | hforgotten
      · by_cases hne : exitStatus = 0
        · rw [hne] at h
          refine (hclear.success h).elim (fun hanswered => absurd ?_ hzero) .inr
          exact (parseExitStatus_eq_zero_iff l.exit).mpr ⟨hanswered.1, hanswered.2.1, h⟩
        · exact .inl ⟨exitStatus, hne, h⟩
      · exact .inr hforgotten

theorem sound_iff (handle : Handle) (r : Run) : Sound handle r ↔ EndsClear handle r := by
  have hlawful : ∀ l ∈ r.looks, l.state.Lawful := fun l hl =>
    r.lawful l.state (List.mem_flatMap.mpr ⟨l, hl, List.mem_cons_self⟩)
  have hends : ∀ l ∈ r.looks, (∃ status, Terminal
      (fun l : Look => Except.ok (queryJobState l.state)) isTerminal l status) ↔ Ends l := by
    intro l hl
    rw [← terminal_iff (hlawful l hl)]
    exact ⟨fun ⟨status, heq, h⟩ => Except.ok.inj heq ▸ h, fun h => ⟨_, rfl, h⟩⟩
  have h := @conclusion_iff _ _ _ (fun l => .ok (queryJobState l.state)) isTerminal false
    (fun l _ => conclude handle l) r.looks Ends (Clear handle)
    (fun answer => Right answer.1 answer.2) (.inr fun l => ⟨_, rfl⟩) hends
    fun l hl _ _ => right_conclude_iff r hl
  exact ⟨fun hsound => h.mp fun answer => hsound answer.1 answer.2,
    fun hclear verdict m => h.mpr hclear (verdict, m)⟩

end Pbs

/-! ## Both substrates -/

/-- A job with the looks at it. -/
inductive JobRun where
  | kubernetes (handle : Handle) (run : Kubernetes.Run)
  | pbs (handle : Handle) (run : Pbs.Run)

/-- The verdict of `result()`, once there is one, is the outcome of the job. -/
def Sound : JobRun → Prop
  | .kubernetes handle run => Kubernetes.Sound handle run
  | .pbs handle run => Pbs.Sound handle run

def EndsClear : JobRun → Prop
  | .kubernetes handle run => Kubernetes.EndsClear handle run
  | .pbs handle run => Pbs.EndsClear handle run

/-- The verdict is the job's outcome exactly if the look that ends the polling is clear. -/
theorem verdict_sound_iff (r : JobRun) : Sound r ↔ EndsClear r := by
  cases r with
  | kubernetes handle run => exact Kubernetes.sound_iff handle run
  | pbs handle run => exact Pbs.sound_iff handle run

/-- A Job whose first pod has failed and whose second one runs, and later succeeds. -/
def retried : Kubernetes.Run where
  looks := [⟨⟨.active, true, [.failed, .running], .none, false, false, false⟩,
    ⟨.active, true, [.failed, .running], .none, false, false, false⟩,
    ⟨.complete, true, [.failed, .succeeded], .own, false, false, false⟩⟩]
  lawful := by
    intro m hm
    rcases List.mem_cons.mp hm with rfl | hm
    · exact nofun
    · rcases List.mem_cons.mp hm with rfl | hm
      · exact nofun
      · rw [List.mem_singleton.mp hm]
        exact fun _ => rfl
  persists := by
    refine .cons ?_ (.cons ?_ (.cons nofun .nil))
    · intro b _ h
      exact absurd rfl h
    · intro b _ h
      exact absurd rfl h

theorem failed_pod_listed_first : ¬ Sound (.kubernetes ⟨some true, true, true⟩ retried) := by
  intro h
  rcases h .failure ⟨.active, true, [.failed, .running], .none, false, false, false⟩ rfl
    with hfailed | hforgotten
  · exact nomatch hfailed
  · exact hforgotten (.inl rfl)

end OSimFlow.Executors.JobVerdict
