import OSimFlow.Aggregation.CompileAggregation
import OSimFlow.Lib.Run

/-!
# The completion manifest as a fence

`publish_kpi_results` puts a sample's `kpis.json` into the store, then (if it is
archived) its `eplusout.sql`, and last its `_manifest.json`. Each operation may raise
`OSError`, with the object stored or not, and at each the process may die. Samples are
published again and again; their objects are overwritten one at a time.

> `Fenced`: a manifest that says `completed` names the `kpis.json` of its sample, which
> is in the store.
>
> `Described`: the manifest that a call left which returned is about that call.

Both hold in every state of every run (`invariant_run`): a manifest is written behind
the objects that it speaks of, and nothing is deleted. The aggregator reads the store;
that every completed sample has its row in the ok table takes what `okTable_iff` says.
-/

namespace OSimFlow.Aggregation.CompletionFence

open OSimFlow.Lib

/-- What an uploaded `kpis.json` holds. -/
inductive KpiJson (F : Type) where
  | unparsable
  | json (data : Json F)

/-- An object of the store. A manifest is kept as it is parsed. -/
inductive Object (F : Type) where
  | kpis (content : KpiJson F)
  | sql
  | manifest (record : AggregatedManifest F)

abbrev Store (F : Type) := Dict String (Object F)

/-- The `status` of a call. -/
inductive SampleStatus where
  | completed
  | failed
deriving DecidableEq

def SampleStatus.str : SampleStatus → String
  | completed => "completed"
  | failed => "failed"

/-- The arguments of a call, and what it finds: the file at `kpi_path`, whether there is
an `eplusout.sql`, the first severe error and the time. -/
structure Call (F : Type) where
  sampleId : String
  index : Int
  kpiFile : Option (KpiJson F)
  status : SampleStatus
  exitCode : Int
  archiveIntermediates : Bool
  sqlFile : Bool
  firstSevereError : Option String
  finishedAt : F

/-- The storage operation that is under way, and whether the KPIs were uploaded. -/
inductive Phase (F : Type) where
  | idle
  | uploadKpis (c : Call F) (content : KpiJson F)
  | uploadSql (c : Call F) (kpisUploaded : Bool)
  | writeManifest (c : Call F) (kpisUploaded : Bool)

/-- The store, the call under way, and for the account the last call that left a manifest
by returning, for each sample; an attempt to write it that fails takes it away. -/
structure State (F : Type) where
  store : Store F
  phase : Phase F
  left : Dict String (Call F × Bool)

inductive Event (F : Type) where
  /-- The next call; nothing if one is under way. -/
  | publish (c : Call F)
  /-- The operation under way returns. -/
  | returns
  /-- It raises `OSError`. -/
  | osError (kept : Bool)
  /-- The process dies, or another exception leaves the function. -/
  | dies (kept : Bool)

section

variable {F : Type}

/-! ## `publish_kpi_results` -/

section

variable (campaignId : String)

/-- `base`. -/
def sampleBase (sampleId : String) : String := campaignId ++ "/samples/" ++ sampleId

def kpisKey (sampleId : String) : String := sampleBase campaignId sampleId ++ "/kpis.json"

def sqlKey (sampleId : String) : String := sampleBase campaignId sampleId ++ "/eplusout.sql"

def manifestKey (sampleId : String) : String :=
  sampleBase campaignId sampleId ++ "/_manifest.json"

/-- The status and the exit code of the record. -/
def Call.outcome (c : Call F) (kpisUploaded : Bool) : SampleStatus × Int :=
  if kpisUploaded then (c.status, c.exitCode)
  else if c.kpiFile.isSome ∨ c.status = .completed then
    (.failed, if c.exitCode ≠ 0 then c.exitCode else 1)
  else (c.status, c.exitCode)

/-- `build_manifest`. -/
def Call.record (c : Call F) (kpisUploaded : Bool) : AggregatedManifest F where
  sampleId := c.sampleId
  index := c.index
  status := (c.outcome kpisUploaded).1.str
  kpisKey := if kpisUploaded then some (kpisKey campaignId c.sampleId) else none
  exitCode := (c.outcome kpisUploaded).2
  firstSevereError := c.firstSevereError
  finishedAt := some c.finishedAt

/-- What follows the upload of the KPIs. -/
def Call.afterKpis (c : Call F) (kpisUploaded : Bool) : Phase F :=
  if c.archiveIntermediates ∧ c.sqlFile then .uploadSql c kpisUploaded
  else .writeManifest c kpisUploaded

/-- The store with the object of the operation under way. -/
def State.stored (s : State F) : Store F :=
  match s.phase with
  | .idle => s.store
  | .uploadKpis c content => s.store.set (kpisKey campaignId c.sampleId) (.kpis content)
  | .uploadSql c _ => s.store.set (sqlKey campaignId c.sampleId) .sql
  | .writeManifest c kpisUploaded =>
    s.store.set (manifestKey campaignId c.sampleId) (.manifest (c.record campaignId kpisUploaded))

/-- The store after an operation that did not return. -/
def State.storedIf (s : State F) (kept : Bool) : Store F :=
  if kept then s.stored campaignId else s.store

def step (s : State F) : Event F → State F
  | .publish c =>
    match s.phase, c.kpiFile with
    | .idle, some content => { s with phase := .uploadKpis c content }
    | .idle, none => { s with phase := c.afterKpis false }
    | _, _ => s
  | .returns =>
    match s.phase with
    | .idle => s
    | .uploadKpis c _ => ⟨s.stored campaignId, c.afterKpis true, s.left⟩
    | .uploadSql c kpisUploaded => ⟨s.stored campaignId, .writeManifest c kpisUploaded, s.left⟩
    | .writeManifest c kpisUploaded =>
      ⟨s.stored campaignId, .idle, s.left.set c.sampleId (c, kpisUploaded)⟩
  | .osError kept =>
    match s.phase with
    | .idle => s
    | .uploadKpis c _ => ⟨s.storedIf campaignId kept, c.afterKpis false, s.left⟩
    | .uploadSql c kpisUploaded =>
      ⟨s.storedIf campaignId kept, .writeManifest c kpisUploaded, s.left⟩
    | .writeManifest c _ => ⟨s.storedIf campaignId kept, .idle, s.left.erase c.sampleId⟩
  | .dies kept =>
    match s.phase with
    | .writeManifest c _ => ⟨s.storedIf campaignId kept, .idle, s.left.erase c.sampleId⟩
    | _ => ⟨s.storedIf campaignId kept, .idle, s.left⟩

/-- An empty store. -/
def start : State F := ⟨∅, .idle, ∅⟩

/-! ## The aggregation of the store -/

/-- The manifests that the coordinator lists. -/
def manifests (store : Store F) : List (AggregatedManifest F) :=
  store.items.filterMap fun item =>
    if "/_manifest.json".toList.isSuffixOf item.1.toList then
      match item.2 with
      | .manifest record => some record
      | _ => none
    else none

/-- The download of a key. -/
def download (store : Store F) (key : String) : StoredObject F :=
  match store.get? key with
  | some (.kpis .unparsable) => .unparsable
  | some (.kpis (.json data)) => .json data
  | _ => .osError

/-- The KPIs of a sample, if its object parses. -/
def kpisOf (store : Store F) (sampleId : String) : Option (Dict String (Json F)) :=
  match store.get? (kpisKey campaignId sampleId) with
  | some (.kpis (.json (.obj items))) => extractKpisDict (Dict.update ∅ items)
  | _ => none

/-! ## The properties -/

/-- A completed sample has its KPIs in the store. -/
def Fenced (store : Store F) : Prop :=
  ∀ sampleId record, store.get? (manifestKey campaignId sampleId) = some (.manifest record) →
    record.status = "completed" →
      record.kpisKey = some (kpisKey campaignId sampleId) ∧
        ∃ content, store.get? (kpisKey campaignId sampleId) = some (.kpis content)

/-- The record is about the call: completed if it was called so and its KPIs went up; with
their key if they did; and an exit code that tells a downgrade. -/
structure Describes (c : Call F) (kpisUploaded : Bool) (record : AggregatedManifest F) :
    Prop where
  sampleId : record.sampleId = c.sampleId
  index : record.index = c.index
  status : record.status = "completed" ↔ c.status = .completed ∧ kpisUploaded = true
  kpisKey : record.kpisKey =
    if kpisUploaded then some (kpisKey campaignId c.sampleId) else none
  exitCode : record.exitCode = c.exitCode ∨
    c.exitCode = 0 ∧ record.exitCode = 1 ∧ record.status = "failed"

/-- The manifest that a returned call left describes it. -/
def Described (s : State F) : Prop :=
  ∀ sampleId c kpisUploaded, s.left.get? sampleId = some (c, kpisUploaded) →
    c.sampleId = sampleId ∧
    ∃ record, s.store.get? (manifestKey campaignId sampleId) = some (.manifest record) ∧
      Describes campaignId c kpisUploaded record

/-- A completed sample whose KPI object parses. -/
def Complete (store : Store F) (m : AggregatedManifest F) : Bool :=
  m.status == "completed" && (kpisOf campaignId store m.sampleId).isSome

/-- The call returns, and its ok table has a row for each completed sample whose KPIs
parse, under the id of the sample. -/
def Aggregates [LT F] [DecidableLT F] (env : Env F) (algorithm : Option String)
    (kpiObjectives : List (String × String)) (store : Store F) : Prop :=
  ∃ result, compileAggregation env (manifests store) (makeKpiFetcher (download store)) algorithm
      kpiObjectives = .ok result ∧
    result.aggregatedResults.column "sample_id" =
      ((ordered (manifests store)).filter (Complete campaignId store)).map
        fun m => some (.str m.sampleId)

end

/-- The KPIs that can be had keep the samples' names, and can be scored. -/
def Publishable (env : Env F) (algorithm : Option String) (kpiObjectives : List (String × String))
    (store : Store F) : Prop :=
  (∀ m ∈ manifests store, OwnName env (makeKpiFetcher (download store)) m) ∧
    (isMultiObjective env algorithm = true →
      Scorable env (makeKpiFetcher (download store)) kpiObjectives (ordered (manifests store)))

/-! ## The keys -/

variable {campaignId : String}

theorem sampleBase_injective {a b : String}
    (h : sampleBase campaignId a = sampleBase campaignId b) : a = b :=
  (String.append_right_inj _).mp h

theorem manifestKey_injective {a b : String}
    (h : manifestKey campaignId a = manifestKey campaignId b) : a = b :=
  sampleBase_injective ((String.append_left_inj _).mp h)

/-- A character near the end of a key, counted from there. -/
def fromEnd (key : String) (i : Nat) : Option Char := key.toList.reverse[i]?

/-- The three keys of a sample end differently. -/
theorem kpisKey_ne_manifestKey {a b : String} : kpisKey campaignId a ≠ manifestKey campaignId b := by
  intro h
  have hk : fromEnd (kpisKey campaignId a) 5 = some 's' := by
    rw [fromEnd, kpisKey, String.toList_append, List.reverse_append]
    rfl
  have hm : fromEnd (manifestKey campaignId b) 5 = some 't' := by
    rw [fromEnd, manifestKey, String.toList_append, List.reverse_append]
    rfl
  rw [h, hm] at hk
  exact absurd hk (by decide)

theorem sqlKey_ne {key : String} (h : fromEnd key 0 = some 'n') {a : String} :
    sqlKey campaignId a ≠ key := by
  intro he
  have hs : fromEnd (sqlKey campaignId a) 0 = some 'l' := by
    rw [fromEnd, sqlKey, String.toList_append, List.reverse_append]
    rfl
  rw [he, h] at hs
  exact absurd hs (by decide)

theorem sqlKey_ne_kpisKey {a b : String} : sqlKey campaignId a ≠ kpisKey campaignId b := by
  refine sqlKey_ne ?_
  rw [fromEnd, kpisKey, String.toList_append, List.reverse_append]
  rfl

theorem sqlKey_ne_manifestKey {a b : String} :
    sqlKey campaignId a ≠ manifestKey campaignId b := by
  refine sqlKey_ne ?_
  rw [fromEnd, manifestKey, String.toList_append, List.reverse_append]
  rfl

/-! ## What is in the store -/

/-- The KPIs of the sample have been uploaded. -/
def HasKpis (campaignId : String) (store : Store F) (sampleId : String) : Prop :=
  ∃ content, store.get? (kpisKey campaignId sampleId) = some (.kpis content)

/-- Manifests are under the keys of their samples, and fenced. -/
structure StoreInv (campaignId : String) (store : Store F) : Prop where
  ownKey : ∀ key record, store.get? key = some (.manifest record) →
    key = manifestKey campaignId record.sampleId
  status : ∀ key record, store.get? key = some (.manifest record) →
    record.status = "completed" ∨ record.status = "failed"
  fenced : Fenced campaignId store

section

variable {store : Store F} {sampleId : String}

theorem HasKpis.set_ne {key : String} {obj : Object F} (h : HasKpis campaignId store sampleId)
    (hne : key ≠ kpisKey campaignId sampleId) :
    HasKpis campaignId (store.set key obj) sampleId := by
  obtain ⟨content, hc⟩ := h
  exact ⟨content, by rw [Dict.get?_set_ne _ hne]; exact hc⟩

theorem HasKpis.setKpis {content : KpiJson F} (h : HasKpis campaignId store sampleId)
    (other : String) :
    HasKpis campaignId (store.set (kpisKey campaignId other) (.kpis content)) sampleId := by
  by_cases hkey : kpisKey campaignId other = kpisKey campaignId sampleId
  · exact ⟨content, by rw [hkey, Dict.get?_set_self]⟩
  · exact h.set_ne hkey

/-- An object that is no manifest, where the KPIs that are there stay. -/
theorem StoreInv.set_other {key : String} {obj : Object F} (h : StoreInv campaignId store)
    (hobj : ∀ record, obj ≠ .manifest record)
    (hkpis : ∀ sampleId, HasKpis campaignId store sampleId →
      HasKpis campaignId (store.set key obj) sampleId) :
    StoreInv campaignId (store.set key obj) := by
  have hold : ∀ key' record, (store.set key obj).get? key' = some (.manifest record) →
      store.get? key' = some (.manifest record) := by
    intro key' record hget
    by_cases hkey : key = key'
    · rw [hkey, Dict.get?_set_self] at hget
      exact absurd (Option.some.inj hget) (hobj record)
    · rwa [Dict.get?_set_ne _ hkey] at hget
  refine ⟨fun key' record hget => h.ownKey key' record (hold key' record hget),
    fun key' record hget => h.status key' record (hold key' record hget), ?_⟩
  intro sampleId record hget hstatus
  obtain ⟨hk, hkeys⟩ := h.fenced sampleId record (hold _ record hget) hstatus
  exact ⟨hk, hkpis sampleId hkeys⟩

theorem StoreInv.setKpis (h : StoreInv campaignId store) (content : KpiJson F) :
    StoreInv campaignId (store.set (kpisKey campaignId sampleId) (.kpis content)) :=
  h.set_other (fun _ => nofun) fun _ hk => hk.setKpis sampleId

theorem StoreInv.setSql (h : StoreInv campaignId store) :
    StoreInv campaignId (store.set (sqlKey campaignId sampleId) .sql) :=
  h.set_other (fun _ => nofun) fun _ hk => hk.set_ne sqlKey_ne_kpisKey

theorem str_eq_completed {status : SampleStatus} :
    status.str = "completed" ↔ status = .completed := by
  cases status <;> decide

/-- A record is about its call. -/
theorem describes_record (c : Call F) (kpisUploaded : Bool) :
    Describes campaignId c kpisUploaded (c.record campaignId kpisUploaded) := by
  refine ⟨rfl, rfl, ?_, rfl, ?_⟩
  · refine Iff.trans (str_eq_completed : (c.outcome kpisUploaded).1.str = _ ↔ _) ?_
    unfold Call.outcome
    cases kpisUploaded with
    | true =>
      rw [if_pos rfl]
      exact (and_iff_left rfl).symm
    | false =>
      rw [if_neg Bool.false_ne_true]
      refine ⟨fun h => ?_, fun h => by cases h.2⟩
      split at h
      · cases h
      · next hnot => exact absurd (Or.inr h) hnot
  · show (c.outcome kpisUploaded).2 = _ ∨ _ ∧ (c.outcome kpisUploaded).2 = 1 ∧
      (c.outcome kpisUploaded).1.str = "failed"
    unfold Call.outcome
    split
    · exact Or.inl rfl
    · split
      · by_cases hexit : c.exitCode = 0
        · refine Or.inr ⟨hexit, ?_, rfl⟩
          exact if_neg (not_not.mpr hexit)
        · exact Or.inl (if_pos hexit)
      · exact Or.inl rfl

theorem StoreInv.setManifest {c : Call F} {kpisUploaded : Bool} (h : StoreInv campaignId store)
    (hkpis : kpisUploaded = true → HasKpis campaignId store c.sampleId) :
    StoreInv campaignId (store.set (manifestKey campaignId c.sampleId)
      (.manifest (c.record campaignId kpisUploaded))) := by
  have hcases : ∀ key record,
      (store.set (manifestKey campaignId c.sampleId)
        (.manifest (c.record campaignId kpisUploaded))).get? key = some (.manifest record) →
      key = manifestKey campaignId c.sampleId ∧ record = c.record campaignId kpisUploaded ∨
        key ≠ manifestKey campaignId c.sampleId ∧ store.get? key = some (.manifest record) := by
    intro key record hget
    by_cases hkey : manifestKey campaignId c.sampleId = key
    · rw [hkey, Dict.get?_set_self] at hget
      exact Or.inl ⟨hkey.symm, Object.manifest.inj (Option.some.inj hget.symm)⟩
    · rw [Dict.get?_set_ne _ hkey] at hget
      exact Or.inr ⟨fun he => hkey he.symm, hget⟩
  refine ⟨?_, ?_, ?_⟩
  · intro key record hget
    rcases hcases key record hget with ⟨rfl, rfl⟩ | ⟨_, hold⟩
    · rfl
    · exact h.ownKey key record hold
  · intro key record hget
    rcases hcases key record hget with ⟨rfl, rfl⟩ | ⟨_, hold⟩
    · show (c.outcome kpisUploaded).1.str = _ ∨ (c.outcome kpisUploaded).1.str = _
      cases (c.outcome kpisUploaded).1 with
      | completed => exact Or.inl rfl
      | failed => exact Or.inr rfl
    · exact h.status key record hold
  · intro sampleId record hget hstatus
    have hkept : ∀ sampleId, HasKpis campaignId store sampleId → HasKpis campaignId
        (store.set (manifestKey campaignId c.sampleId)
          (.manifest (c.record campaignId kpisUploaded))) sampleId :=
      fun _ hk => hk.set_ne fun he => kpisKey_ne_manifestKey he.symm
    rcases hcases _ record hget with ⟨hkey, rfl⟩ | ⟨_, hold⟩
    · obtain ⟨_, hup⟩ := (describes_record c kpisUploaded).status.mp hstatus
      rw [manifestKey_injective hkey]
      refine ⟨?_, hkept _ (hkpis hup)⟩
      have hrecord : Describes campaignId c kpisUploaded _ := describes_record c kpisUploaded
      rw [hrecord.kpisKey, if_pos hup]
    · obtain ⟨hk, hkeys⟩ := h.fenced sampleId record hold hstatus
      exact ⟨hk, hkept sampleId hkeys⟩

end

/-! ## The invariant of a run -/

section

variable {s : State F} {c : Call F} {kpisUploaded : Bool}

/-- Where the phase says that the KPIs were uploaded, they are there. -/
def PhaseOk (campaignId : String) (store : Store F) (phase : Phase F) : Prop :=
  ∀ c, phase = .uploadSql c true ∨ phase = .writeManifest c true →
    HasKpis campaignId store c.sampleId

structure Inv (campaignId : String) (s : State F) : Prop where
  store : StoreInv campaignId s.store
  phase : PhaseOk campaignId s.store s.phase
  described : Described campaignId s

theorem hasKpis_stored {sampleId : String} (h : HasKpis campaignId s.store sampleId) :
    HasKpis campaignId (s.stored campaignId) sampleId := by
  unfold State.stored
  split
  · exact h
  · exact h.setKpis _
  · exact h.set_ne sqlKey_ne_kpisKey
  · exact h.set_ne fun he => kpisKey_ne_manifestKey he.symm

theorem Inv.storeInv_stored (h : Inv campaignId s) :
    StoreInv campaignId (s.stored campaignId) := by
  unfold State.stored
  split
  · exact h.store
  · exact h.store.setKpis _
  · exact h.store.setSql
  · next c kpisUploaded hphase =>
    refine h.store.setManifest fun hup => h.phase c (Or.inr ?_)
    rw [hphase, hup]

/-- A manifest is written in the last phase of its own sample only. -/
theorem get?_manifestKey_stored {sampleId : String}
    (h : ∀ c kpisUploaded, s.phase = .writeManifest c kpisUploaded → c.sampleId ≠ sampleId) :
    (s.stored campaignId).get? (manifestKey campaignId sampleId) =
      s.store.get? (manifestKey campaignId sampleId) := by
  unfold State.stored
  split
  · rfl
  · exact Dict.get?_set_ne _ kpisKey_ne_manifestKey _
  · exact Dict.get?_set_ne _ sqlKey_ne_manifestKey _
  · next c kpisUploaded hphase =>
    exact Dict.get?_set_ne _ (fun he => h c kpisUploaded hphase (manifestKey_injective he)) _

/-- What an operation leaves, if it returned or not. -/
structure Left (campaignId : String) (s : State F) (store : Store F) : Prop where
  storeInv : StoreInv campaignId store
  hasKpis : ∀ sampleId, HasKpis campaignId s.store sampleId → HasKpis campaignId store sampleId
  manifest : ∀ sampleId,
    (∀ c kpisUploaded, s.phase = .writeManifest c kpisUploaded → c.sampleId ≠ sampleId) →
      store.get? (manifestKey campaignId sampleId) =
        s.store.get? (manifestKey campaignId sampleId)

theorem Inv.left_stored (h : Inv campaignId s) : Left campaignId s (s.stored campaignId) :=
  ⟨h.storeInv_stored, fun _ => hasKpis_stored, fun _ => get?_manifestKey_stored⟩

theorem Inv.left_storedIf (h : Inv campaignId s) (kept : Bool) :
    Left campaignId s (s.storedIf campaignId kept) := by
  unfold State.storedIf
  split
  · exact h.left_stored
  · exact ⟨h.store, fun _ hk => hk, fun _ _ => rfl⟩

/-- Outside the last phase, what was said of the manifests is still so. -/
theorem Left.described {store : Store F} (hl : Left campaignId s store) (h : Inv campaignId s)
    (hphase : ∀ c kpisUploaded, s.phase ≠ .writeManifest c kpisUploaded) (phase : Phase F) :
    Described campaignId ⟨store, phase, s.left⟩ := by
  intro sampleId c kpisUploaded hleft
  rw [hl.manifest sampleId fun c u he => absurd he (hphase c u)]
  exact h.described sampleId c kpisUploaded hleft

/-- In the last phase it is so of the other samples. -/
theorem Left.described_erase {store : Store F} (hl : Left campaignId s store)
    (h : Inv campaignId s) (hphase : s.phase = .writeManifest c kpisUploaded) (phase : Phase F) :
    Described campaignId ⟨store, phase, s.left.erase c.sampleId⟩ := by
  intro sampleId c' u hleft
  rw [Dict.get?_erase] at hleft
  split at hleft
  · cases hleft
  · next hne =>
    rw [hl.manifest sampleId fun c'' u' he => ?_]
    · exact h.described sampleId c' u hleft
    · rw [hphase] at he
      cases he
      exact hne

theorem phaseOk_afterKpis {store : Store F}
    (h : kpisUploaded = true → HasKpis campaignId store c.sampleId) :
    PhaseOk campaignId store (c.afterKpis kpisUploaded) := by
  intro c' hphase
  unfold Call.afterKpis at hphase
  split at hphase <;> rcases hphase with hphase | hphase <;> cases hphase <;> exact h rfl

theorem phaseOk_idle {store : Store F} : PhaseOk campaignId store .idle := by
  intro c h
  rcases h with h | h <;> exact nomatch h

theorem phaseOk_writeManifest {store : Store F}
    (h : kpisUploaded = true → HasKpis campaignId store c.sampleId) :
    PhaseOk campaignId store (.writeManifest c kpisUploaded) := by
  intro c' hphase
  rcases hphase with hphase | hphase
  · exact nomatch hphase
  · cases hphase
    exact h rfl

theorem step_publish (h : Inv campaignId s) (c : Call F) :
    Inv campaignId (step campaignId s (.publish c)) := by
  show Inv campaignId (match s.phase, c.kpiFile with
    | .idle, some content => { s with phase := .uploadKpis c content }
    | .idle, none => { s with phase := c.afterKpis false }
    | _, _ => s)
  split
  · refine ⟨h.store, fun c' hphase => ?_, h.described⟩
    rcases hphase with hphase | hphase <;> cases hphase
  · exact ⟨h.store, phaseOk_afterKpis (fun hup => by cases hup), h.described⟩
  · exact h

theorem step_returns (h : Inv campaignId s) : Inv campaignId (step campaignId s .returns) := by
  have hl := h.left_stored
  unfold step
  dsimp only
  split
  · exact h
  · next c content hphase =>
    have hup : HasKpis campaignId (s.stored campaignId) c.sampleId :=
      ⟨content, by rw [State.stored, hphase]; exact Dict.get?_set_self _ _ _⟩
    refine ⟨hl.storeInv, phaseOk_afterKpis fun _ => hup, hl.described h (fun c u => ?_) _⟩
    rw [hphase]
    exact nofun
  · next c kpisUploaded hphase =>
    refine ⟨hl.storeInv, phaseOk_writeManifest fun hup => hl.hasKpis _ (h.phase c (Or.inl ?_)),
      hl.described h (fun c u => ?_) _⟩
    · rw [hphase, hup]
    · rw [hphase]
      exact nofun
  · next c kpisUploaded hphase =>
    refine ⟨hl.storeInv, phaseOk_idle, fun sampleId c' u hleft => ?_⟩
    rw [Dict.get?_set] at hleft
    split at hleft
    · next heq =>
      cases hleft
      refine ⟨heq, c.record campaignId kpisUploaded, ?_, describes_record c kpisUploaded⟩
      rw [← heq, State.stored, hphase]
      exact Dict.get?_set_self _ _ _
    · next hne =>
      rw [hl.manifest sampleId fun c'' u' he => ?_]
      · exact h.described sampleId c' u hleft
      · rw [hphase] at he
        cases he
        exact hne

theorem step_osError (h : Inv campaignId s) (kept : Bool) :
    Inv campaignId (step campaignId s (.osError kept)) := by
  have hl := h.left_storedIf kept
  unfold step
  dsimp only
  split
  · exact h
  · next c content hphase =>
    refine ⟨hl.storeInv, phaseOk_afterKpis (fun hup => by cases hup),
      hl.described h (fun c u => ?_) _⟩
    rw [hphase]
    rintro ⟨⟩
  · next c kpisUploaded hphase =>
    refine ⟨hl.storeInv, phaseOk_writeManifest fun hup => hl.hasKpis _ (h.phase c (Or.inl ?_)),
      hl.described h (fun c u => ?_) _⟩
    · rw [hphase, hup]
    · rw [hphase]
      rintro ⟨⟩
  · next c kpisUploaded hphase =>
    exact ⟨hl.storeInv, phaseOk_idle, hl.described_erase h hphase _⟩

theorem step_dies (h : Inv campaignId s) (kept : Bool) :
    Inv campaignId (step campaignId s (.dies kept)) := by
  have hl := h.left_storedIf kept
  unfold step
  dsimp only
  split
  · next c kpisUploaded hphase =>
    exact ⟨hl.storeInv, phaseOk_idle, hl.described_erase h hphase _⟩
  · next hphase => exact ⟨hl.storeInv, phaseOk_idle, hl.described h hphase _⟩

theorem step_inv (s : State F) (e : Event F) (h : Inv campaignId s) :
    Inv campaignId (step campaignId s e) := by
  cases e with
  | publish c => exact step_publish h c
  | returns => exact step_returns h
  | osError kept => exact step_osError h kept
  | dies kept => exact step_dies h kept

theorem inv_start : Inv campaignId (start : State F) := by
  refine ⟨⟨nofun, nofun, nofun⟩, phaseOk_idle, nofun⟩

/-- Whatever the storage does, at every moment. -/
theorem invariant_run (es : List (Event F)) :
    Always (step campaignId) (Inv campaignId) start es :=
  always_inv _ step_inv inv_start es

end

/-! ## What the aggregator reads -/

section

variable {env : Env F} {store : Store F}

theorem manifest_of_mem {m : AggregatedManifest F} (h : m ∈ manifests store) :
    ∃ key, store.get? key = some (.manifest m) := by
  obtain ⟨item, hitem, hm⟩ := List.mem_filterMap.mp h
  split at hm
  · cases hobj : item.2 with
    | kpis content => rw [hobj] at hm; exact nomatch hm
    | sql => rw [hobj] at hm; exact nomatch hm
    | manifest record =>
      rw [hobj] at hm
      cases hm
      exact ⟨item.1, Dict.mem_items.mp (hobj ▸ hitem)⟩
  · exact nomatch hm

theorem kpisKey_ne_empty {sampleId : String} : kpisKey campaignId sampleId ≠ "" := by
  intro h
  have hn : fromEnd (kpisKey campaignId sampleId) 0 = some 'n' := by
    rw [fromEnd, kpisKey, String.toList_append, List.reverse_append]
    rfl
  rw [h] at hn
  exact nomatch hn

/-- The KPIs that the aggregator gets of a completed sample. -/
theorem fetch_kpisKey {sampleId : String} {content : KpiJson F}
    (h : store.get? (kpisKey campaignId sampleId) = some (.kpis content)) :
    (match makeKpiFetcher (download store) (kpisKey campaignId sampleId) with
      | .ok (some payload) => extractKpisDict payload
      | .ok none => none
      | .error _ => none) = kpisOf campaignId store sampleId := by
  unfold makeKpiFetcher download kpisOf
  rw [if_neg kpisKey_ne_empty, h]
  cases content with
  | unparsable => rfl
  | json data => cases data <;> rfl

/-- The manifests that get a row of the ok table are those of the completed samples whose
KPIs parse. -/
theorem usable_eq (hcompleted : env.lower "completed" = "completed")
    (hfailed : env.lower "failed" = "failed") (h : StoreInv campaignId store)
    {m : AggregatedManifest F} (hm : m ∈ manifests store) :
    usable env (makeKpiFetcher (download store)) m = Complete campaignId store m := by
  obtain ⟨key, hkey⟩ := manifest_of_mem hm
  unfold usable Complete fetchKpis claimedOk
  rcases h.status key m hkey with hstatus | hstatus
  · rw [h.ownKey key m hkey] at hkey
    obtain ⟨hk, content, hcontent⟩ := h.fenced _ m hkey hstatus
    rw [hstatus, hcompleted, hk]
    show Option.isSome (if okStatuses.contains "completed" = true then
      if kpisKey campaignId m.sampleId = "" then none
      else match makeKpiFetcher (download store) (kpisKey campaignId m.sampleId) with
        | .ok (some payload) => extractKpisDict payload
        | .ok none => none
        | .error _ => none
      else none) = _
    rw [if_pos (by decide), if_neg kpisKey_ne_empty, fetch_kpisKey hcontent]
    rfl
  · rw [hstatus, hfailed]
    rfl

variable [LT F] [DecidableLT F]

/-- The aggregation of a store that a run has reached. -/
theorem aggregates_iff (hcompleted : env.lower "completed" = "completed")
    (hfailed : env.lower "failed" = "failed") (h : StoreInv campaignId store)
    {algorithm : Option String} {kpiObjectives : List (String × String)} :
    Aggregates campaignId env algorithm kpiObjectives store ↔
      Publishable env algorithm kpiObjectives store := by
  have hfilter : (ordered (manifests store)).filter (Complete campaignId store) =
      (ordered (manifests store)).filter (usable env (makeKpiFetcher (download store))) :=
    List.filter_congr fun m hm => (usable_eq hcompleted hfailed h (mem_ordered.mp hm)).symm
  unfold Aggregates
  rw [hfilter]
  exact okTable_iff env _ _ algorithm kpiObjectives

/-- The manifests are a fence in every state of a run, for the aggregation too just when
in every state the KPIs that can be had keep the samples' names and can be scored. -/
theorem fence_iff (campaignId : String) (env : Env F)
    (hcompleted : env.lower "completed" = "completed") (hfailed : env.lower "failed" = "failed")
    (algorithm : Option String) (kpiObjectives : List (String × String)) (es : List (Event F)) :
    Always (step campaignId) (fun s => Fenced campaignId s.store ∧ Described campaignId s ∧
        Aggregates campaignId env algorithm kpiObjectives s.store) start es ↔
      Always (step campaignId) (fun s => Publishable env algorithm kpiObjectives s.store)
        start es := by
  refine Always.congr _ (fun s hs => ?_) (invariant_run es)
  rw [aggregates_iff hcompleted hfailed hs.store]
  exact ⟨fun h => h.2.2, fun h => ⟨hs.store.fenced, hs.described, h⟩⟩

end

end

/-! ## One sample -/

/-- A call for sample "0001" with these KPIs. -/
def callWith (kpis : List (String × Json Rat)) : Call Rat where
  sampleId := "0001"
  index := 0
  kpiFile := some (.json (.obj [("sample_id", .str "0001"), ("kpis", .obj kpis)]))
  status := .completed
  exitCode := 0
  archiveIntermediates := false
  sqlFile := false
  firstSevereError := none
  finishedAt := 0

/-- It uploads the KPIs and writes the manifest. -/
def published (kpis : List (String × Json Rat)) : List (Event Rat) :=
  [.publish (callWith kpis), .returns, .returns]

def emptyStore : Store Rat := ∅

def kpisStore (kpis : List (String × Json Rat)) : Store Rat :=
  emptyStore.set (kpisKey "c" "0001")
    (.kpis (.json (.obj [("sample_id", .str "0001"), ("kpis", .obj kpis)])))

def manifestStore (kpis : List (String × Json Rat)) : Store Rat :=
  (kpisStore kpis).set (manifestKey "c" "0001") (.manifest ((callWith kpis).record "c" true))

theorem items_set_set {key key' : String} {obj obj' : Object Rat} (h : key ≠ key') :
    ((emptyStore.set key obj).set key' obj').items = [(key, obj), (key', obj')] := by
  show upsert Prod.fst (key', obj') [(key, obj)] = _
  rw [upsert, if_neg h]
  rfl

theorem not_isSuffixOf_kpisKey :
    "/_manifest.json".toList.isSuffixOf (kpisKey "c" "0001").toList = false := by
  decide +kernel

theorem isSuffixOf_manifestKey :
    "/_manifest.json".toList.isSuffixOf (manifestKey "c" "0001").toList = true := by
  decide +kernel

theorem manifests_manifestStore (kpis : List (String × Json Rat)) :
    manifests (manifestStore kpis) = [(callWith kpis).record "c" true] := by
  rw [manifests, manifestStore, kpisStore, items_set_set kpisKey_ne_manifestKey]
  show List.filterMap _ [_, _] = _
  rw [List.filterMap_cons_none (by rw [not_isSuffixOf_kpisKey]; rfl),
    List.filterMap_cons_some (by rw [isSuffixOf_manifestKey]; rfl), List.filterMap_nil]

theorem manifests_kpisStore (kpis : List (String × Json Rat)) :
    manifests (kpisStore kpis) = [] := by
  show List.filterMap _ [_] = _
  rw [List.filterMap_cons_none (by rw [not_isSuffixOf_kpisKey]; rfl), List.filterMap_nil]

/-- What the aggregator gets of the sample. -/
theorem fetchKpis_manifestStore (kpis : List (String × Json Rat)) :
    fetchKpis plainEnv (makeKpiFetcher (download (manifestStore kpis)))
        ((callWith kpis).record "c" true) =
      extractKpisDict (Dict.update ∅ [("sample_id", .str "0001"), ("kpis", .obj kpis)]) := by
  have hget : (manifestStore kpis).get? (kpisKey "c" "0001") =
      some (.kpis (.json (.obj [("sample_id", .str "0001"), ("kpis", .obj kpis)]))) := by
    rw [manifestStore, Dict.get?_set_ne _ kpisKey_ne_manifestKey.symm, kpisStore,
      Dict.get?_set_self]
  have hfetch := fetch_kpisKey hget
  have hpayload : kpisOf "c" (manifestStore kpis) "0001" =
      extractKpisDict (Dict.update ∅ [("sample_id", .str "0001"), ("kpis", .obj kpis)]) := by
    rw [kpisOf, hget]
  show (if kpisKey "c" "0001" = "" then none else _) = _
  rw [if_neg kpisKey_ne_empty, ← hpayload, ← hfetch]
  rfl

/-- A sample with one float, published once, is fenced at every moment. -/
theorem fence_published :
    Always (step "c") (fun s => Fenced "c" s.store ∧ Described "c" s ∧
      Aggregates "c" plainEnv none [] s.store) start (published [("eui", .float 1)]) := by
  refine (fence_iff "c" plainEnv rfl rfl none [] _).mpr ⟨⟨nofun, nofun⟩, ⟨nofun, nofun⟩, ?_, ?_⟩
  · have hnone : ∀ m ∈ manifests (kpisStore [("eui", .float 1)]),
        OwnName plainEnv (makeKpiFetcher (download (kpisStore [("eui", .float 1)]))) m := by
      rw [manifests_kpisStore]
      exact nofun
    exact ⟨hnone, nofun⟩
  · have hown : ∀ m ∈ manifests (manifestStore [("eui", .float 1)]),
        OwnName plainEnv (makeKpiFetcher (download (manifestStore [("eui", .float 1)]))) m := by
      rw [manifests_manifestStore]
      intro m hm kpis v hkpis hv
      rw [List.mem_singleton.mp hm, fetchKpis_manifestStore] at hkpis
      rw [← Option.some.inj hkpis] at hv
      exact nomatch hv
    exact ⟨hown, nofun⟩

/-- One that publishes a KPI called `sample_id` loses its row. -/
theorem fence_kpi_sample_id :
    ¬ Always (step "c") (fun s => Fenced "c" s.store ∧ Described "c" s ∧
      Aggregates "c" plainEnv none [] s.store) start
        (published [("sample_id", .str "0002"), ("eui", .float 1)]) := by
  intro h
  have hinv : Inv "c" (run (step "c") start
      (published [("sample_id", .str "0002"), ("eui", .float 1)])) := (invariant_run _).last
  have hown := ((aggregates_iff rfl rfl hinv.store).mp h.last.2.2).1
  have hid : (.str "0002" : Json ℚ) = .str "0001" :=
    hown ((callWith _).record "c" true)
      ((manifests_manifestStore _).symm ▸ List.mem_singleton_self _ :
        _ ∈ manifests (manifestStore [("sample_id", .str "0002"), ("eui", .float 1)]))
      _ _ (fetchKpis_manifestStore _) rfl
  injection hid with hid
  exact absurd hid (by decide)

end OSimFlow.Aggregation.CompletionFence
