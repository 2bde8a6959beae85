import OSimFlow.Api.Coordinator
import OSimFlow.Lib.Dict

/-!
# `POST /handoff`: one campaign for one Idempotency-Key

The handler writes two stores, the campaigns and the index from
`Idempotency-Key` to campaign id, with the bucket allowlist checked between the
lookup in the index and the writes. It has no `await` in it, so it runs as one
step.

> `Idempotent`: accepted handoffs of one key get one campaign id, the store has
> at most one campaign of a key, and a refused handoff changes neither store.

What carries it is `Consistent`: the index and the keys written on the campaigns
say the same, and every campaign id was drawn before. The branch that drops a
stale index entry is then never taken, which is why a refusal after it costs
nothing.
-/

namespace OSimFlow.Coordinator

open OSimFlow.Lib

/-- `uuid.uuid4()`: the ids drawn one after another, no two of them equal. -/
structure UuidSource where
  uuid4 : Nat → String
  injective : Function.Injective uuid4

/-- The fields of the handoff payload that the handler names. `S` is a sample. -/
structure HandoffPayload (S : Type) where
  name : String
  nSamples : Nat
  executor : String
  openstudioVersion : String
  samples : Option (List S)
  notificationEmail : Option String
  snsTopicArn : Option String
  webhookUrl : Option String
  resultStorageBucket : Option String

/-- Why a handoff is refused: `require_permission` (401 or 403, with its detail), or the
bucket allowlist (403). -/
inductive Refusal where
  | notPermitted (statusCode : Nat) (detail : String)
  | bucketNotAllowed (bucket : String)
deriving DecidableEq

/-- A request: the payload, the `Idempotency-Key` header, and what the handler reads off
the connection and the app's state. -/
structure HandoffRequest (S : Type) where
  payload : HandoffPayload S
  idempotencyKey : Option String
  permission : Except Refusal Unit
  allowedResultBuckets : Option (List String)
  baseUrl : String
  userId : Option String
  now : Nat

/-- The record that a handoff stores. -/
structure HandoffRecord (S : Type) where
  campaignId : String
  name : String
  status : Status
  createdAt : Nat
  updatedAt : Nat
  createdBy : String
  payload : HandoffPayload S
  nSamples : Nat
  executor : String
  openstudioVersion : String
  samples : List S
  notificationEmail : Option String
  snsTopicArn : Option String
  webhookUrl : Option String
  resultStorageBucket : Option String
  arrayJobId : Option JobId
  resultStatus : String
  aggregatedResultsKey : Option String
  statusUrl : String
  idempotencyKey : Option String

structure HandoffResponse where
  campaignId : String
  status : Status
  message : String
  statusUrl : Option String

/-- `_campaigns` and `_idempotency_keys`, and how many ids were drawn so far. -/
structure HandoffStores (S : Type) where
  campaigns : Dict String (HandoffRecord S)
  idempotencyKeys : Dict String String
  drawn : Nat

/-- A string or `None`, where the code asks for its truth. -/
def truthy (text : Option String) : Option String :=
  text.filter (fun t => decide (t ≠ ""))

theorem truthy_eq_some {text : Option String} {t : String} :
    truthy text = some t ↔ text = some t ∧ t ≠ "" := by
  rw [truthy, Option.filter_eq_some_iff, decide_eq_true_eq]

/-- `str(request.base_url).rstrip('/')` and the campaign's path. -/
def statusUrlOf (baseUrl campaignId : String) : String :=
  String.ofList ((baseUrl.toList.reverse.dropWhile (fun c => c == '/')).reverse)
    ++ "/api/v1/coordinator/campaigns/" ++ campaignId

variable {S : Type}

/-- `_check_bucket_allowed`. -/
def checkBucketAllowed (r : HandoffRequest S) : Except Refusal Unit :=
  match r.payload.resultStorageBucket, r.allowedResultBuckets with
  | none, _ => .ok ()
  | some _, none => .ok ()
  | some bucket, some allowed =>
    if bucket ∈ allowed then .ok () else .error (.bucketNotAllowed bucket)

/-- The record of a new campaign. -/
def newRecord (r : HandoffRequest S) (campaignId : String) : HandoffRecord S :=
  let samples := r.payload.samples.getD []
  { campaignId := campaignId
    name := r.payload.name
    status := .pending
    createdAt := r.now
    updatedAt := r.now
    createdBy := (truthy r.userId).getD "anonymous"
    payload := r.payload
    nSamples := if samples.isEmpty then r.payload.nSamples else samples.length
    executor := r.payload.executor
    openstudioVersion := r.payload.openstudioVersion
    samples := samples
    notificationEmail := r.payload.notificationEmail
    snsTopicArn := r.payload.snsTopicArn
    webhookUrl := r.payload.webhookUrl
    resultStorageBucket := r.payload.resultStorageBucket
    arrayJobId := none
    resultStatus := "unavailable"
    aggregatedResultsKey := none
    statusUrl := statusUrlOf r.baseUrl campaignId
    idempotencyKey := r.idempotencyKey }

/-- The answer to a key that was accepted before. -/
def replayResponse (key existingId : String) (existing : HandoffRecord S) : HandoffResponse :=
  { campaignId := existingId
    status := existing.status
    message := "Campaign '" ++ existing.name ++ "' already accepted (idempotent replay of key "
      ++ key ++ ")."
    statusUrl := truthy (some existing.statusUrl) }

def acceptedResponse (r : HandoffRequest S) (campaignId : String) : HandoffResponse :=
  let statusUrl := statusUrlOf r.baseUrl campaignId
  { campaignId := campaignId
    status := .pending
    message := "Campaign '" ++ r.payload.name ++ "' accepted. Use GET " ++ statusUrl
      ++ " to poll status."
    statusUrl := some statusUrl }

/-- The handler from `campaign_id = str(uuid.uuid4())` on. -/
def createCampaign (ids : UuidSource) (s : HandoffStores S) (r : HandoffRequest S) :
    HandoffStores S × Except Refusal HandoffResponse :=
  let campaignId := ids.uuid4 s.drawn
  match checkBucketAllowed r with
  | .error refusal => ({ s with drawn := s.drawn + 1 }, .error refusal)
  | .ok () =>
    ({ campaigns := s.campaigns.set campaignId (newRecord r campaignId)
       idempotencyKeys :=
        match truthy r.idempotencyKey with
        | none => s.idempotencyKeys
        | some key => s.idempotencyKeys.set key campaignId
       drawn := s.drawn + 1 },
      .ok (acceptedResponse r campaignId))

/-- `coordinator_handoff`. -/
def coordinatorHandoff (ids : UuidSource) (s : HandoffStores S) (r : HandoffRequest S) :
    HandoffStores S × Except Refusal HandoffResponse :=
  match r.permission with
  | .error refusal => (s, .error refusal)
  | .ok () =>
    match truthy r.idempotencyKey with
    | none => createCampaign ids s r
    | some key =>
      match s.idempotencyKeys.get? key with
      | none => createCampaign ids s r
      | some existingId =>
        match s.campaigns.get? existingId with
        | some existing => (s, .ok (replayResponse key existingId existing))
        | none =>
          -- the index points at a campaign that is gone: drop the entry, start afresh
          createCampaign ids { s with idempotencyKeys := s.idempotencyKeys.erase key } r

/-- A handoff that was answered, with the stores before and after it. -/
structure Exchange (S : Type) where
  before : HandoffStores S
  request : HandoffRequest S
  outcome : Except Refusal HandoffResponse
  after : HandoffStores S

/-- The stores, and every handoff answered so far. -/
structure HandoffService (S : Type) where
  stores : HandoffStores S
  exchanges : List (Exchange S)

/-- The service as it starts. -/
def HandoffService.init : HandoffService S := ⟨⟨∅, ∅, 0⟩, []⟩

def handoffStep (ids : UuidSource) (v : HandoffService S) (r : HandoffRequest S) :
    HandoffService S :=
  let result := coordinatorHandoff ids v.stores r
  ⟨result.1, ⟨v.stores, r, result.2, result.1⟩ :: v.exchanges⟩

/-- What `Idempotency-Key` promises. -/
structure Idempotent (v : HandoffService S) : Prop where
  same_campaign : ∀ e ∈ v.exchanges, ∀ f ∈ v.exchanges, ∀ key, key ≠ "" →
    e.request.idempotencyKey = some key → f.request.idempotencyKey = some key →
    ∀ first second, e.outcome = .ok first → f.outcome = .ok second →
      first.campaignId = second.campaignId
  one_per_key : ∀ key, key ≠ "" → ∀ id id' c c',
    v.stores.campaigns.get? id = some c → v.stores.campaigns.get? id' = some c' →
    c.idempotencyKey = some key → c'.idempotencyKey = some key → id = id'
  refused_unchanged : ∀ e ∈ v.exchanges, ∀ refusal, e.outcome = .error refusal →
    e.after.campaigns = e.before.campaigns ∧ e.after.idempotencyKeys = e.before.idempotencyKeys

/-- The index files each key under a campaign that carries it, and every campaign that
carries a key is filed; the ids in use were all drawn. -/
structure Consistent (ids : UuidSource) (s : HandoffStores S) : Prop where
  filed : ∀ key id, s.idempotencyKeys.get? key = some id →
    ∃ c, s.campaigns.get? id = some c
  carries : ∀ id c key, s.campaigns.get? id = some c → truthy c.idempotencyKey = some key →
    s.idempotencyKeys.get? key = some id
  drawn : ∀ id c, s.campaigns.get? id = some c → ∃ n, n < s.drawn ∧ id = ids.uuid4 n

/-- What one handoff does to consistent stores. -/
inductive Handled (ids : UuidSource) (s : HandoffStores S) (r : HandoffRequest S) :
    HandoffStores S × Except Refusal HandoffResponse → Prop where
  | refused (drawn : Nat) (h : s.drawn ≤ drawn) (refusal : Refusal) :
      Handled ids s r ({ s with drawn := drawn }, .error refusal)
  | replayed (key id : String) (response : HandoffResponse)
      (hkey : truthy r.idempotencyKey = some key) (hid : s.idempotencyKeys.get? key = some id)
      (hresponse : response.campaignId = id) :
      Handled ids s r (s, .ok response)
  | created (hfree : ∀ key, truthy r.idempotencyKey = some key →
        s.idempotencyKeys.get? key = none) :
      Handled ids s r
        ({ campaigns :=
            s.campaigns.set (ids.uuid4 s.drawn) (newRecord r (ids.uuid4 s.drawn))
           idempotencyKeys :=
            match truthy r.idempotencyKey with
            | none => s.idempotencyKeys
            | some key => s.idempotencyKeys.set key (ids.uuid4 s.drawn)
           drawn := s.drawn + 1 },
          .ok (acceptedResponse r (ids.uuid4 s.drawn)))

section
variable {ids : UuidSource} {s : HandoffStores S} {r : HandoffRequest S}

theorem createCampaign_handled
    (hfree : ∀ key, truthy r.idempotencyKey = some key → s.idempotencyKeys.get? key = none) :
    Handled ids s r (createCampaign ids s r) := by
  unfold createCampaign
  cases checkBucketAllowed r with
  | error refusal => exact .refused (s.drawn + 1) (by omega) refusal
  | ok _ => exact .created hfree

theorem coordinatorHandoff_handled (hs : Consistent ids s) :
    Handled ids s r (coordinatorHandoff ids s r) := by
  unfold coordinatorHandoff
  cases r.permission with
  | error refusal => exact .refused s.drawn (by omega) refusal
  | ok _ =>
    cases hkey : truthy r.idempotencyKey with
    | none => exact createCampaign_handled fun key h => nomatch hkey.symm.trans h
    | some key =>
      cases hid : s.idempotencyKeys.get? key with
      | none =>
        simp only [hid]
        refine createCampaign_handled fun key' h => ?_
        rw [hkey, Option.some.injEq] at h
        rw [← h, hid]
      | some existingId =>
        -- consistent stores have the campaign: no entry is stale
        obtain ⟨existing, hexisting⟩ := hs.filed key existingId hid
        simp only [hid, hexisting]
        exact .replayed key existingId _ hkey hid rfl

/-- An id not drawn yet is not in use. -/
theorem Consistent.fresh (hs : Consistent ids s) :
    s.campaigns.get? (ids.uuid4 s.drawn) = none := by
  cases h : s.campaigns.get? (ids.uuid4 s.drawn) with
  | none => rfl
  | some c =>
    obtain ⟨n, hn, heq⟩ := hs.drawn _ _ h
    have := ids.injective heq
    omega

/-- The stores after a handoff: entries of the index stay, and the stores stay consistent. -/
theorem Handled.consistent {out : HandoffStores S × Except Refusal HandoffResponse}
    (hs : Consistent ids s) (h : Handled ids s r out) : Consistent ids out.1 := by
  cases h with
  | refused drawn hle refusal =>
    refine ⟨hs.filed, hs.carries, fun id c hc => ?_⟩
    obtain ⟨n, hn, heq⟩ := hs.drawn id c hc
    exact ⟨n, Nat.lt_of_lt_of_le hn hle, heq⟩
  | replayed key id response hkey hid hresponse => exact hs
  | created hfree =>
    have hfresh := hs.fresh
    have hstay : ∀ id c, s.campaigns.get? id = some c →
        (s.campaigns.set (ids.uuid4 s.drawn) (newRecord r (ids.uuid4 s.drawn))).get? id
          = some c := by
      intro id c hc
      have hne : ids.uuid4 s.drawn ≠ id := by
        intro heq
        rw [heq, hc] at hfresh
        cases hfresh
      rw [Dict.get?_set_ne _ hne, hc]
    constructor
    · intro key id hid
      dsimp only at hid ⊢
      cases hk : truthy r.idempotencyKey with
      | none =>
        rw [hk] at hid
        obtain ⟨c, hc⟩ := hs.filed key id hid
        exact ⟨c, hstay id c hc⟩
      | some k =>
        simp only [hk, Dict.get?_set] at hid
        split at hid
        · rw [Option.some.injEq] at hid
          exact ⟨newRecord r (ids.uuid4 s.drawn), by rw [← hid, Dict.get?_set_self]⟩
        · obtain ⟨c, hc⟩ := hs.filed key id hid
          exact ⟨c, hstay id c hc⟩
    · intro id c key hc hkey
      dsimp only at hc ⊢
      rw [Dict.get?_set] at hc
      split at hc
      next heq =>
        rw [Option.some.injEq] at hc
        subst hc
        have hk : truthy r.idempotencyKey = some key := hkey
        simp only [hk, Dict.get?_set_self, heq]
      next hne =>
        have hold := hs.carries id c key hc hkey
        cases hk : truthy r.idempotencyKey with
        | none => exact hold
        | some k =>
          have hne : k ≠ key := by
            intro heq
            have := hfree k hk
            rw [heq, hold] at this
            cases this
          simp only [Dict.get?_set_ne _ hne, hold]
    · intro id c hc
      dsimp only at hc ⊢
      rw [Dict.get?_set] at hc
      split at hc
      next heq => exact ⟨s.drawn, by omega, heq.symm⟩
      next =>
        obtain ⟨n, hn, heq⟩ := hs.drawn id c hc
        exact ⟨n, by omega, heq⟩

theorem Handled.index_stays {out : HandoffStores S × Except Refusal HandoffResponse}
    (h : Handled ids s r out) {key id : String} (hid : s.idempotencyKeys.get? key = some id) :
    out.1.idempotencyKeys.get? key = some id := by
  cases h with
  | refused drawn hle refusal => exact hid
  | replayed key id response hkey hid' hresponse => exact hid
  | created hfree =>
    dsimp only
    cases hk : truthy r.idempotencyKey with
    | none => exact hid
    | some k =>
      have hne : k ≠ key := by
        intro heq
        have := hfree k hk
        rw [heq, hid] at this
        exact nomatch this
      simp only [Dict.get?_set_ne _ hne, hid]

/-- An accepted handoff leaves its key filed under the id it answers with. -/
theorem Handled.filed {out : HandoffStores S × Except Refusal HandoffResponse}
    (h : Handled ids s r out) {key : String} (hkey : truthy r.idempotencyKey = some key)
    {response : HandoffResponse} (hok : out.2 = .ok response) :
    out.1.idempotencyKeys.get? key = some response.campaignId := by
  cases h with
  | refused drawn hle refusal => exact nomatch hok
  | replayed key' id response' hkey' hid hresponse =>
    rw [hkey, Option.some.injEq] at hkey'
    rw [Except.ok.injEq] at hok
    rw [hkey', hid, ← hok, hresponse]
  | created hfree =>
    rw [Except.ok.injEq] at hok
    simp only [hkey, Dict.get?_set_self, ← hok, acceptedResponse]

theorem Handled.unchanged {out : HandoffStores S × Except Refusal HandoffResponse}
    (h : Handled ids s r out) {refusal : Refusal} (herror : out.2 = .error refusal) :
    out.1.campaigns = s.campaigns ∧ out.1.idempotencyKeys = s.idempotencyKeys := by
  cases h with
  | refused drawn hle refusal => exact ⟨rfl, rfl⟩
  | replayed key id response hkey hid hresponse => exact nomatch herror
  | created hfree => exact nomatch herror

end

/-- The invariant of a run: the stores are consistent, the key of every accepted handoff is
filed under the id it got, and refusals changed nothing. -/
structure ServiceInv (ids : UuidSource) (v : HandoffService S) : Prop where
  consistent : Consistent ids v.stores
  accepted : ∀ e ∈ v.exchanges, ∀ key, truthy e.request.idempotencyKey = some key →
    ∀ response, e.outcome = .ok response →
      v.stores.idempotencyKeys.get? key = some response.campaignId
  refused : ∀ e ∈ v.exchanges, ∀ refusal, e.outcome = .error refusal →
    e.after.campaigns = e.before.campaigns ∧ e.after.idempotencyKeys = e.before.idempotencyKeys

theorem serviceInv_init (ids : UuidSource) :
    ServiceInv ids (HandoffService.init : HandoffService S) := by
  refine ⟨⟨?_, ?_, ?_⟩, ?_, ?_⟩
  · intro key id hid
    exact nomatch hid
  · intro id c key hc
    exact nomatch hc
  · intro id c hc
    exact nomatch hc
  · intro e he
    exact nomatch he
  · intro e he
    exact nomatch he

theorem handoffStep_inv (ids : UuidSource) (v : HandoffService S) (r : HandoffRequest S)
    (hv : ServiceInv ids v) : ServiceInv ids (handoffStep ids v r) := by
  have h := coordinatorHandoff_handled (r := r) hv.consistent
  refine ⟨h.consistent hv.consistent, fun e he key hkey response hok => ?_,
    fun e he refusal herror => ?_⟩
  · rcases List.mem_cons.mp he with rfl | he
    · exact h.filed hkey hok
    · exact h.index_stays (hv.accepted e he key hkey response hok)
  · rcases List.mem_cons.mp he with rfl | he
    · exact h.unchanged herror
    · exact hv.refused e he refusal herror

theorem ServiceInv.idempotent {ids : UuidSource} {v : HandoffService S}
    (hv : ServiceInv ids v) : Idempotent v := by
  refine ⟨?_, ?_, hv.refused⟩
  · intro e he f hf key hne hekey hfkey first second hfirst hsecond
    have hfirst := hv.accepted e he key (truthy_eq_some.mpr ⟨hekey, hne⟩) first hfirst
    have hsecond := hv.accepted f hf key (truthy_eq_some.mpr ⟨hfkey, hne⟩) second hsecond
    exact Option.some.inj (hfirst.symm.trans hsecond)
  · intro key hne id id' c c' hc hc' hkey hkey'
    have hid := hv.consistent.carries id c key hc (truthy_eq_some.mpr ⟨hkey, hne⟩)
    have hid' := hv.consistent.carries id' c' key hc' (truthy_eq_some.mpr ⟨hkey', hne⟩)
    exact Option.some.inj (hid.symm.trans hid')

end OSimFlow.Coordinator
