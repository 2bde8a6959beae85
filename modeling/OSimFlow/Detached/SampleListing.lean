import OSimFlow.Detached.Download
import OSimFlow.Errors
import OSimFlow.Lib.Separator
import OSimFlow.Lib.Sorted
import OSimFlow.Lib.Succeeds

/-!
# The states of the samples, from a listing of the bucket

`sample_states` reads the listing of a campaign key by key, in whatever order it comes. A key
below `work/sim` is cut at its first slash into a sample id and a name; a success marker files
the sample as complete, a failure marker that says nothing of a retry files it as failed unless
it is filed already, and what the substrate reports fills in for the rest. `status` counts.

> `sampleStates_get?`: what a whole listing files, sample by sample, in any order.
>
> `classified_iff`: the states and counts are right for every listing unless an id with a slash
> in it has a marker, or a marker cannot be read.
-/

namespace OSimFlow.Detached.SampleListing

open OSimFlow.Lib

/-- How `download_file` and `read_text` end for an object. -/
inductive Fetched where
  | osError
  | raises (error : PyError)
  | text (content : String)

/-- The result bucket, as `list_results` and `download_file` show it. -/
structure Bucket where
  keys : List String
  fetch : String → Fetched

/-- `S3Handoff`, as far as the status reads it. -/
structure S3Handoff (T : Type) where
  campaignId : String
  submittedAt : T
  sampleIds : List SampleId

inductive CampaignState where
  | running
  | completed
  | completedWithFailures
  | failed
deriving DecidableEq

structure Status (T : Type) where
  campaignId : String
  total : Nat
  completed : Nat
  succeeded : Nat
  failed : List SampleId
  failedCount : Nat
  pending : List SampleId
  state : CampaignState
  submittedAt : T

abbrev States := Dict SampleId SampleState

/-! ## `sample_states` and `status` -/

/-- `key.startswith(head)`, and what is behind it. -/
def behind (head key : String) : Option (List Char) :=
  if head.toList.isPrefixOf key.toList then some (key.toList.drop head.length) else none

/-- `text.partition("/")`, without the slash. -/
def partitionSlash (text : List Char) : String × String :=
  (String.ofList (text.takeWhile (· ≠ '/')), String.ofList (text.dropWhile (· ≠ '/')).tail)

section

variable {T : Type} (record : S3Handoff T) (b : Bucket)

/-- `f"{cid}/{SIM_PREFIX}/"`. -/
def simHead : String := record.campaignId ++ "/work/sim/"

/-- `_is_retrying`. -/
def isRetrying (key : String) : Except PyError Bool :=
  match b.fetch key with
  | .osError => .ok false
  | .raises error => .error error
  | .text content => .ok (strip content = retryingState)

/-- One key of the listing. -/
def visit (states : States) (key : String) : Except PyError States :=
  match behind (simHead record) key with
  | none => .ok states
  | some rest =>
    let (sid, name) := partitionSlash rest
    if sid ∉ record.sampleIds then .ok states
    else if name = completeMarker then .ok (states.set sid .complete)
    else if name = failedMarker then do
      let retrying ← isRetrying b key
      return if retrying then states else states.setDefault sid .failed
    else .ok states

/-- One failure that the substrate reports. -/
def overlay (states : States) (sid : SampleId) : States :=
  if sid ∈ record.sampleIds ∧ states.get? sid = none then states.set sid .failed else states

def sampleStates (failures : Dict SampleId String) : Except PyError States := do
  let states ← b.keys.foldlM (visit record b) ∅
  return failures.keys.foldl (overlay record) states

/-- The ids a dictionary of states files under `st`. -/
def filedUnder (states : States) (st : SampleState) : List SampleId :=
  (states.items.filter fun item => item.2 = st).map Prod.fst

/-- What `status` makes of the states. -/
def summary (states : States) : Status T :=
  let done := states.keys
  let total := record.sampleIds.length
  let failed := sortedBy id (filedUnder states .failed)
  let succeeded := done.length - failed.length
  let state :=
    if ¬ (total ≠ 0 ∧ done.length = total) then CampaignState.running
    else if failed = [] then .completed
    else if succeeded = 0 then .failed
    else .completedWithFailures
  { campaignId := record.campaignId
    total := total
    completed := done.length
    succeeded := succeeded
    failed := failed
    failedCount := failed.length
    pending := sortedBy id (record.sampleIds.dedup.filter fun sid => decide (sid ∉ done))
    state := state
    submittedAt := record.submittedAt }

def status (failures : Dict SampleId String) : Except PyError (Status T) :=
  (sampleStates record b failures).map (summary record)

/-! ## What is asked of them -/

/-- The key under which a worker leaves a marker of a sample. -/
def markerKey (sid : SampleId) (marker : String) : String :=
  simHead record ++ sid ++ "/" ++ marker

/-- The object says that the sample is tried again. -/
def Retrying : Fetched → Prop
  | .text content => strip content = retryingState
  | _ => False

instance : (f : Fetched) → Decidable (Retrying f)
  | .osError | .raises _ => .isFalse id
  | .text content => inferInstanceAs (Decidable (strip content = retryingState))

def Succeeded (sid : SampleId) : Prop := markerKey record sid completeMarker ∈ b.keys

/-- A failure marker that no retry has overwritten. -/
def Failed (sid : SampleId) : Prop :=
  markerKey record sid failedMarker ∈ b.keys ∧
    ¬ Retrying (b.fetch (markerKey record sid failedMarker))

instance (sid : SampleId) : Decidable (Succeeded record b sid) := by
  unfold Succeeded
  infer_instance

instance (sid : SampleId) : Decidable (Failed record b sid) := by
  unfold Failed
  infer_instance

/-- The state of a sample; `none` where it is pending. -/
def expected (failures : Dict SampleId String) (sid : SampleId) : Option SampleState :=
  if Succeeded record b sid then some .complete
  else if Failed record b sid ∨ sid ∈ failures.keys then some .failed
  else none

/-- What the numbers say of the campaign. -/
def stateOfCounts (succeeded failed pending : Nat) : CampaignState :=
  if pending ≠ 0 ∨ succeeded + failed = 0 then .running
  else if failed = 0 then .completed
  else if succeeded = 0 then .failed
  else .completedWithFailures

/-- The status counts the states, and the counts add up. -/
structure Adds (states : States) (s : Status T) : Prop where
  total : s.total = record.sampleIds.length
  sum : s.succeeded + s.failedCount + s.pending.length = s.total
  completed : s.completed = s.succeeded + s.failedCount
  failed : s.failed.Nodup ∧ ∀ sid, sid ∈ s.failed ↔ states.get? sid = some .failed
  pending : s.pending.Nodup ∧
    ∀ sid, sid ∈ s.pending ↔ sid ∈ record.sampleIds ∧ states.get? sid = none
  failedCount : s.failedCount = s.failed.length
  state : s.state = stateOfCounts s.succeeded s.failedCount s.pending.length

/-- The states are those of the samples, the status counts them, and the order of the listing
makes no difference. -/
def Classified (failures : Dict SampleId String) : Prop :=
  ∃ states s, sampleStates record b failures = .ok states ∧ status record b failures = .ok s ∧
    (∀ sid, states.get? sid = if sid ∈ record.sampleIds then expected record b failures sid
      else none) ∧
    Adds record states s ∧
    ∀ keys, keys.Perm b.keys → status record { b with keys := keys } failures = .ok s

/-! ## What is asked of the bucket -/

/-- No marker that is fetched raises, and a sample with a slash in its id has no marker that
makes a difference. -/
structure Legible (failures : Dict SampleId String) : Prop where
  fetched : ∀ sid ∈ record.sampleIds, '/' ∉ sid.toList →
    markerKey record sid failedMarker ∈ b.keys →
    ∀ error, b.fetch (markerKey record sid failedMarker) ≠ .raises error
  flat : ∀ sid ∈ record.sampleIds, '/' ∈ sid.toList →
    ¬ Succeeded record b sid ∧ (Failed record b sid → sid ∈ failures.keys)

/-- The key is that of a marker of a sample whose id has no slash. -/
structure IsMark (sid : SampleId) (marker key : String) : Prop where
  mem : sid ∈ record.sampleIds
  flat : '/' ∉ sid.toList
  eq : key = markerKey record sid marker

/-- The marker stands for a failure. -/
def Fails (sid : SampleId) (key : String) : Prop :=
  IsMark record sid failedMarker key ∧ ¬ Retrying (b.fetch key)

/-! ## One key -/

variable {record b}

/-- A text is cut at its first slash. -/
theorem partitionSlash_eq_iff {text : List Char} {sid name : String} (hname : name ≠ "") :
    partitionSlash text = (sid, name) ↔
      '/' ∉ sid.toList ∧ text = sid.toList ++ '/' :: name.toList := by
  unfold partitionSlash
  rw [Prod.mk.injEq, ← String.toList_inj, ← String.toList_inj, String.toList_ofList,
    String.toList_ofList]
  constructor
  · rintro ⟨hsid, hrest⟩
    have hflat : '/' ∉ sid.toList := by
      intro h
      rw [← hsid] at h
      exact absurd (List.mem_takeWhile_imp h) (by simp)
    refine ⟨hflat, ?_⟩
    have hhead := List.head?_dropWhile_not (fun c => decide (c ≠ '/')) text
    cases hd : text.dropWhile (fun c => decide (c ≠ '/')) with
    | nil =>
      rw [hd] at hrest
      exact absurd (String.toList_inj.mp hrest.symm) hname
    | cons c rest =>
      rw [hd] at hrest hhead
      have hc : c = '/' := by simpa using hhead
      calc text
          = text.takeWhile (fun c => decide (c ≠ '/')) ++ text.dropWhile fun c => decide (c ≠ '/') :=
            List.takeWhile_append_dropWhile.symm
        _ = sid.toList ++ '/' :: name.toList := by rw [hsid, hd, hc, ← hrest, List.tail_cons]
  · rintro ⟨hflat, rfl⟩
    have hpos : ∀ c ∈ sid.toList, decide (c ≠ '/') = true := by
      intro c hc
      refine decide_eq_true ?_
      rintro rfl
      exact hflat hc
    rw [List.takeWhile_append_of_pos hpos, List.dropWhile_append_of_pos hpos]
    simp

theorem behind_eq_some_iff {head key : String} {rest : List Char} :
    behind head key = some rest ↔ key.toList = head.toList ++ rest := by
  unfold behind
  by_cases h : head.toList.isPrefixOf key.toList = true
  · rw [if_pos h, Option.some.injEq]
    obtain ⟨t, ht⟩ := List.isPrefixOf_iff_prefix.mp h
    rw [← ht, ← String.length_toList, List.drop_left, List.append_right_inj]
  · rw [if_neg h]
    refine iff_of_false (fun he => nomatch he) fun he => h ?_
    exact List.isPrefixOf_iff_prefix.mpr ⟨rest, he.symm⟩

theorem toList_markerKey (sid : SampleId) (marker : String) :
    (markerKey record sid marker).toList =
      (simHead record).toList ++ (sid.toList ++ '/' :: marker.toList) := by
  have hsep : "/".toList = ['/'] := by decide
  unfold markerKey
  rw [String.toList_append, String.toList_append, String.toList_append, hsep, List.append_assoc,
    List.append_assoc, List.singleton_append]

/-- How the code finds a marker. -/
theorem isMark_iff {sid : SampleId} {marker key : String} (hmarker : marker ≠ "") :
    IsMark record sid marker key ↔ sid ∈ record.sampleIds ∧
      ∃ rest, behind (simHead record) key = some rest ∧ partitionSlash rest = (sid, marker) := by
  constructor
  · rintro ⟨hmem, hflat, rfl⟩
    refine ⟨hmem, sid.toList ++ '/' :: marker.toList, ?_, ?_⟩
    · exact behind_eq_some_iff.mpr (toList_markerKey sid marker)
    · exact (partitionSlash_eq_iff hmarker).mpr ⟨hflat, rfl⟩
  · rintro ⟨hmem, rest, hbehind, hparts⟩
    obtain ⟨hflat, rfl⟩ := (partitionSlash_eq_iff hmarker).mp hparts
    refine ⟨hmem, hflat, ?_⟩
    rw [← String.toList_inj, toList_markerKey]
    exact behind_eq_some_iff.mp hbehind

theorem completeMarker_ne : completeMarker ≠ "" := by decide

theorem failedMarker_ne : failedMarker ≠ "" := by decide

theorem completeMarker_ne_failedMarker : completeMarker ≠ failedMarker := by decide

/-- A key is that of one marker of one sample. -/
theorem IsMark.unique {sid sid' : SampleId} {marker marker' key : String}
    (h : IsMark record sid marker key) (h' : IsMark record sid' marker' key) :
    sid = sid' ∧ marker = marker' := by
  have hkey := congrArg String.toList (h.eq.symm.trans h'.eq)
  rw [toList_markerKey, toList_markerKey, List.append_right_inj] at hkey
  obtain ⟨hsid, hmarker⟩ := append_sep_inj h.flat h'.flat hkey
  exact ⟨String.toList_inj.mp hsid, String.toList_inj.mp hmarker⟩

/-- What a key does to the states. -/
theorem visit_cases (states : States) (key : String) :
    (∃ sid, IsMark record sid completeMarker key ∧
      visit record b states key = .ok (states.set sid .complete)) ∨
    (∃ sid, IsMark record sid failedMarker key ∧
      visit record b states key = (isRetrying b key).map fun retrying =>
        if retrying then states else states.setDefault sid .failed) ∨
    ((∀ sid, ¬ IsMark record sid completeMarker key ∧ ¬ IsMark record sid failedMarker key) ∧
      visit record b states key = .ok states) := by
  cases hbehind : behind (simHead record) key with
  | none =>
    refine .inr (.inr ⟨fun sid => ⟨?_, ?_⟩, ?_⟩)
    · intro h
      obtain ⟨-, rest, hrest, -⟩ := (isMark_iff completeMarker_ne).mp h
      exact nomatch hbehind.symm.trans hrest
    · intro h
      obtain ⟨-, rest, hrest, -⟩ := (isMark_iff failedMarker_ne).mp h
      exact nomatch hbehind.symm.trans hrest
    · unfold visit
      rw [hbehind]
  | some rest =>
    -- any marker the key stands for is the one that is read off here
    have hread : ∀ sid marker, marker ≠ "" → IsMark record sid marker key →
        partitionSlash rest = (sid, marker) ∧ sid ∈ record.sampleIds := by
      intro sid marker hmarker h
      obtain ⟨hmem, rest', hrest', hparts⟩ := (isMark_iff hmarker).mp h
      rw [Option.some.inj (hbehind.symm.trans hrest')]
      exact ⟨hparts, hmem⟩
    cases hparts : partitionSlash rest with
    | mk sid name =>
      have hvisit : visit record b states key =
          if sid ∉ record.sampleIds then .ok states
          else if name = completeMarker then .ok (states.set sid .complete)
          else if name = failedMarker then do
            let retrying ← isRetrying b key
            return if retrying then states else states.setDefault sid .failed
          else .ok states := by
        unfold visit
        rw [hbehind]
        simp only [hparts]
      rw [hvisit]
      by_cases hmem : sid ∈ record.sampleIds
      · rw [if_neg (not_not.mpr hmem)]
        by_cases hcomplete : name = completeMarker
        · subst hcomplete
          exact .inl ⟨sid, (isMark_iff completeMarker_ne).mpr ⟨hmem, rest, hbehind, hparts⟩, if_pos rfl⟩
        · rw [if_neg hcomplete]
          by_cases hfailed : name = failedMarker
          · subst hfailed
            refine .inr (.inl ⟨sid, (isMark_iff failedMarker_ne).mpr ⟨hmem, rest, hbehind, hparts⟩, ?_⟩)
            rw [if_pos rfl]
            cases isRetrying b key <;> rfl
          · rw [if_neg hfailed]
            refine .inr (.inr ⟨fun sid' => ⟨fun h => ?_, fun h => ?_⟩, rfl⟩)
            · obtain ⟨h', -⟩ := hread _ _ completeMarker_ne h
              exact hcomplete (Prod.mk.inj (hparts.symm.trans h')).2
            · obtain ⟨h', -⟩ := hread _ _ failedMarker_ne h
              exact hfailed (Prod.mk.inj (hparts.symm.trans h')).2
      · rw [if_pos hmem]
        refine .inr (.inr ⟨fun sid' => ⟨fun h => ?_, fun h => ?_⟩, rfl⟩)
        · obtain ⟨h', hmem'⟩ := hread _ _ completeMarker_ne h
          exact hmem ((Prod.mk.inj (hparts.symm.trans h')).1 ▸ hmem')
        · obtain ⟨h', hmem'⟩ := hread _ _ failedMarker_ne h
          exact hmem ((Prod.mk.inj (hparts.symm.trans h')).1 ▸ hmem')

theorem isRetrying_ok {key : String} {retrying : Bool} (h : isRetrying b key = .ok retrying) :
    retrying = decide (Retrying (b.fetch key)) := by
  unfold isRetrying at h
  cases hfetch : b.fetch key with
  | osError =>
    rw [hfetch] at h
    exact (Except.ok.inj h).symm
  | raises error =>
    rw [hfetch] at h
    exact nomatch h
  | text content =>
    rw [hfetch] at h
    exact (Except.ok.inj h).symm

theorem isRetrying_ok_iff {key : String} :
    (∃ retrying, isRetrying b key = .ok retrying) ↔ ∀ error, b.fetch key ≠ .raises error := by
  unfold isRetrying
  cases b.fetch key with
  | osError => exact iff_of_true ⟨_, rfl⟩ (by rintro _ ⟨⟩)
  | raises error => exact iff_of_false (by rintro ⟨_, ⟨⟩⟩) fun h => h error rfl
  | text content => exact iff_of_true ⟨_, rfl⟩ (by rintro _ ⟨⟩)

/-- What a key does to the state of a sample, whichever order the keys come in. -/
theorem visit_spec {states states' : States} {key : String}
    (h : visit record b states key = .ok states') (sid : SampleId) :
    (states'.get? sid = some .complete ↔
      states.get? sid = some .complete ∨ IsMark record sid completeMarker key) ∧
    (states'.get? sid = none ↔ states.get? sid = none ∧
      ¬ IsMark record sid completeMarker key ∧ ¬ Fails record b sid key) := by
  rcases visit_cases (b := b) states key with ⟨sid', hmark, he⟩ | ⟨sid', hmark, he⟩ | ⟨hmark, he⟩
  · rw [he] at h
    cases h
    have hfails : ¬ Fails record b sid key := fun hf =>
      completeMarker_ne_failedMarker (hmark.unique hf.1).2
    rw [Dict.get?_set]
    by_cases hsid : sid' = sid
    · subst hsid
      rw [if_pos rfl]
      exact ⟨iff_of_true rfl (.inr hmark), iff_of_false (fun hn => nomatch hn) fun hn => hn.2.1 hmark⟩
    · rw [if_neg hsid]
      have hcomplete : ¬ IsMark record sid completeMarker key := fun hc =>
        hsid (hmark.unique hc).1
      exact ⟨(or_iff_left hcomplete).symm, (and_iff_left ⟨hcomplete, hfails⟩).symm⟩
  · rw [he] at h
    have hcomplete : ∀ sid, ¬ IsMark record sid completeMarker key := fun _ hc =>
      completeMarker_ne_failedMarker (hc.unique hmark).2
    cases hretrying : isRetrying b key with
    | error e =>
      rw [hretrying] at h
      exact nomatch h
    | ok retrying =>
      rw [hretrying] at h
      cases h
      beta_reduce
      have hr := isRetrying_ok hretrying
      by_cases hre : Retrying (b.fetch key)
      · rw [hr, decide_eq_true hre, if_pos rfl]
        exact ⟨(or_iff_left (hcomplete sid)).symm,
          (and_iff_left ⟨hcomplete sid, fun hf => hf.2 hre⟩).symm⟩
      · rw [hr, decide_eq_false hre, if_neg Bool.false_ne_true, Dict.get?_setDefault]
        by_cases hsid : sid' = sid
        · subst hsid
          rw [if_pos rfl]
          constructor
          · rw [or_iff_left (hcomplete sid')]
            cases states.get? sid' with
            | none => exact iff_of_false (by decide) (by decide)
            | some st => exact Iff.rfl
          · exact iff_of_false (fun hn => nomatch hn) fun hn => hn.2.2 ⟨hmark, hre⟩
        · rw [if_neg hsid]
          have hfails : ¬ Fails record b sid key := fun hf => hsid (hmark.unique hf.1).1
          exact ⟨(or_iff_left (hcomplete sid)).symm, (and_iff_left ⟨hcomplete sid, hfails⟩).symm⟩
  · rw [he] at h
    cases h
    exact ⟨(or_iff_left (hmark sid).1).symm,
      (and_iff_left ⟨(hmark sid).1, fun hf => (hmark sid).2 hf.1⟩).symm⟩

theorem visit_ok_iff (states : States) (key : String) :
    (∃ states', visit record b states key = .ok states') ↔
      ∀ sid, IsMark record sid failedMarker key → ∀ error, b.fetch key ≠ .raises error := by
  rcases visit_cases (b := b) states key with ⟨sid', hmark, he⟩ | ⟨sid', hmark, he⟩ | ⟨hmark, he⟩
  · exact iff_of_true ⟨_, he⟩ fun _ h =>
      absurd (hmark.unique h).2 completeMarker_ne_failedMarker
  · rw [he]
    have hmap : (∃ states', (isRetrying b key).map (fun retrying =>
        if retrying then states else states.setDefault sid' .failed) = .ok states') ↔
        ∃ retrying, isRetrying b key = .ok retrying := by
      cases isRetrying b key with
      | error e => exact iff_of_false (by rintro ⟨_, ⟨⟩⟩) (by rintro ⟨_, ⟨⟩⟩)
      | ok retrying => exact iff_of_true ⟨_, rfl⟩ ⟨_, rfl⟩
    rw [hmap, isRetrying_ok_iff]
    exact ⟨fun h _ _ => h, fun h => h sid' hmark⟩
  · exact iff_of_true ⟨_, he⟩ fun sid h => absurd h (hmark sid).2

/-! ## The listing -/

theorem listing_spec {states states' : States} {keys : List String}
    (h : keys.foldlM (visit record b) states = .ok states') (sid : SampleId) :
    (states'.get? sid = some .complete ↔ states.get? sid = some .complete ∨
      ∃ key ∈ keys, IsMark record sid completeMarker key) ∧
    (states'.get? sid = none ↔ states.get? sid = none ∧
      ∀ key ∈ keys, ¬ IsMark record sid completeMarker key ∧ ¬ Fails record b sid key) := by
  induction keys generalizing states with
  | nil =>
    cases h
    simp
  | cons key keys ih =>
    rw [List.foldlM_cons] at h
    obtain ⟨mid, hvisit, hrest⟩ := bind_eq_ok.mp h
    obtain ⟨hcomplete, hnone⟩ := visit_spec hvisit sid
    obtain ⟨hcomplete', hnone'⟩ := ih hrest
    rw [hcomplete', hnone', hcomplete, hnone]
    simp only [List.mem_cons, exists_eq_or_imp, forall_eq_or_imp, or_assoc, and_assoc, and_self]

theorem listing_ok_iff (states : States) (keys : List String) :
    (∃ states', keys.foldlM (visit record b) states = .ok states') ↔
      ∀ key ∈ keys, ∀ sid, IsMark record sid failedMarker key →
        ∀ error, b.fetch key ≠ .raises error := by
  induction keys generalizing states with
  | nil => exact iff_of_true ⟨states, rfl⟩ fun _ h => nomatch h
  | cons key keys ih =>
    rw [List.foldlM_cons, List.forall_mem_cons, ← visit_ok_iff (b := b) states key]
    constructor
    · rintro ⟨states', h⟩
      obtain ⟨mid, hvisit, hrest⟩ := bind_eq_ok.mp h
      exact ⟨⟨mid, hvisit⟩, (ih mid).mp ⟨states', hrest⟩⟩
    · rintro ⟨⟨mid, hvisit⟩, h⟩
      obtain ⟨states', hrest⟩ := (ih mid).mpr h
      exact ⟨states', bind_eq_ok.mpr ⟨mid, hvisit, hrest⟩⟩

/-! ## The failures of the substrate -/

theorem overlays_spec (states : States) (sids : List SampleId) (sid : SampleId) :
    (((sids.foldl (overlay record) states).get? sid = some .complete ↔
      states.get? sid = some .complete)) ∧
    ((sids.foldl (overlay record) states).get? sid = none ↔ states.get? sid = none ∧
      ¬ (sid ∈ record.sampleIds ∧ sid ∈ sids)) := by
  induction sids generalizing states with
  | nil => simp
  | cons sid' sids ih =>
    obtain ⟨hcomplete, hnone⟩ := ih (overlay record states sid')
    rw [List.foldl_cons, hcomplete, hnone]
    unfold overlay
    by_cases hif : sid' ∈ record.sampleIds ∧ states.get? sid' = none
    · rw [if_pos hif, Dict.get?_set]
      by_cases hsid : sid' = sid
      · subst hsid
        rw [if_pos rfl, hif.2]
        refine ⟨iff_of_false (by decide) (by decide), iff_of_false (fun h => by cases h.1) ?_⟩
        exact fun h => h.2 ⟨hif.1, List.mem_cons_self⟩
      · rw [if_neg hsid, List.mem_cons, or_iff_right (Ne.symm hsid)]
        exact ⟨Iff.rfl, Iff.rfl⟩
    · rw [if_neg hif]
      refine ⟨Iff.rfl, and_congr_right fun hget => not_congr (and_congr_right fun hmem => ?_)⟩
      rw [List.mem_cons, or_iff_right]
      rintro rfl
      exact hif ⟨hmem, hget⟩

theorem sampleStates_ok_iff {failures : Dict SampleId String} {states : States} :
    sampleStates record b failures = .ok states ↔
      ∃ listed, b.keys.foldlM (visit record b) ∅ = .ok listed ∧
        failures.keys.foldl (overlay record) listed = states := by
  unfold sampleStates
  rw [bind_eq_ok]
  exact exists_congr fun _ => and_congr_right fun _ => ⟨Except.ok.inj, fun h => h ▸ rfl⟩

/-- A state is read off two questions. -/
theorem eq_ite_of_iff {o : Option SampleState} {p q : Prop} [Decidable p] [Decidable q]
    (hp : o = some .complete ↔ p) (hq : o = none ↔ q) :
    o = if p then some .complete else if q then none else some .failed := by
  split
  next h => exact hp.mpr h
  next h =>
    split
    next h' => exact hq.mpr h'
    next h' =>
      match o with
      | none => exact absurd (hq.mp rfl) h'
      | some .complete => exact absurd (hp.mp rfl) h
      | some .failed => rfl

theorem exists_complete_iff (sid : SampleId) :
    (∃ key ∈ b.keys, IsMark record sid completeMarker key) ↔
      (sid ∈ record.sampleIds ∧ '/' ∉ sid.toList) ∧ Succeeded record b sid := by
  constructor
  · rintro ⟨key, hkey, hmem, hflat, rfl⟩
    exact ⟨⟨hmem, hflat⟩, hkey⟩
  · rintro ⟨⟨hmem, hflat⟩, hkey⟩
    exact ⟨_, hkey, hmem, hflat, rfl⟩

theorem exists_fails_iff (sid : SampleId) :
    (∃ key ∈ b.keys, Fails record b sid key) ↔
      (sid ∈ record.sampleIds ∧ '/' ∉ sid.toList) ∧ Failed record b sid := by
  constructor
  · rintro ⟨key, hkey, ⟨hmem, hflat, rfl⟩, hretrying⟩
    exact ⟨⟨hmem, hflat⟩, hkey, hretrying⟩
  · rintro ⟨⟨hmem, hflat⟩, hkey, hretrying⟩
    exact ⟨_, hkey, ⟨hmem, hflat, rfl⟩, hretrying⟩

/-- What a whole listing files, in whatever order it comes. -/
theorem sampleStates_get? {failures : Dict SampleId String} {states : States}
    (h : sampleStates record b failures = .ok states) (sid : SampleId) :
    states.get? sid = if sid ∈ record.sampleIds ∧ '/' ∉ sid.toList then
        expected record b failures sid
      else if sid ∈ record.sampleIds ∧ sid ∈ failures.keys then some .failed
      else none := by
  obtain ⟨listed, hlisted, rfl⟩ := sampleStates_ok_iff.mp h
  obtain ⟨hcomplete, hnone⟩ := @overlays_spec T record listed failures.keys sid
  obtain ⟨hcomplete', hnone'⟩ := listing_spec hlisted sid
  rw [hcomplete', Dict.get?_empty, or_iff_right (by decide), exists_complete_iff] at hcomplete
  have hmarks : (∀ key ∈ b.keys, ¬ IsMark record sid completeMarker key ∧
      ¬ Fails record b sid key) ↔ ¬ ((sid ∈ record.sampleIds ∧ '/' ∉ sid.toList) ∧
        Succeeded record b sid) ∧ ¬ ((sid ∈ record.sampleIds ∧ '/' ∉ sid.toList) ∧
        Failed record b sid) := by
    rw [← exists_complete_iff, ← exists_fails_iff]
    simp only [not_exists, not_and, forall_and]
  rw [hnone', Dict.get?_empty, eq_self_iff_true, true_and, hmarks] at hnone
  rw [eq_ite_of_iff hcomplete hnone]
  unfold expected
  by_cases hmark : sid ∈ record.sampleIds ∧ '/' ∉ sid.toList
  · simp only [hmark, true_and, not_false_eq_true, and_self, if_true]
    by_cases hs : Succeeded record b sid
    · rw [if_pos hs, if_pos hs]
    · rw [if_neg hs, if_neg hs]
      by_cases hf : Failed record b sid ∨ sid ∈ failures.keys
      · rw [if_pos hf, if_neg (by tauto)]
      · rw [if_neg hf, if_pos (by tauto)]
  · rw [if_neg hmark, if_neg fun hc => hmark hc.1]
    by_cases hf : sid ∈ record.sampleIds ∧ sid ∈ failures.keys
    · rw [if_pos hf, if_neg fun hn => hn.2 hf]
    · rw [if_neg hf, if_pos ⟨⟨fun hc => hmark hc.1, fun hc => hmark hc.1⟩, hf⟩]

theorem get?_of_notMem {failures : Dict SampleId String} {states : States}
    (h : sampleStates record b failures = .ok states) {sid : SampleId}
    (hsid : sid ∉ record.sampleIds) : states.get? sid = none := by
  rw [sampleStates_get? h, if_neg fun hc => hsid hc.1, if_neg fun hc => hsid hc.1]

/-! ## The counts -/

theorem mem_filedUnder {states : States} {st : SampleState} {sid : SampleId} :
    sid ∈ filedUnder states st ↔ states.get? sid = some st := by
  unfold filedUnder
  rw [← Dict.mem_items, List.mem_map]
  constructor
  · rintro ⟨⟨sid', st'⟩, hitem, rfl⟩
    obtain ⟨hmem, hst⟩ := List.mem_filter.mp hitem
    have hst : st' = st := of_decide_eq_true hst
    exact hst ▸ hmem
  · exact fun h => ⟨(sid, st), List.mem_filter.mpr ⟨h, decide_eq_true rfl⟩, rfl⟩

theorem filedUnder_sublist (states : States) (st : SampleState) :
    (filedUnder states st).Sublist states.keys :=
  List.filter_sublist.map Prod.fst

theorem mem_keys_iff_ne_none {states : States} {sid : SampleId} :
    sid ∈ states.keys ↔ states.get? sid ≠ none := by
  rw [Dict.mem_keys_iff, Option.ne_none_iff_exists']

/-- Filed and pending samples are all the samples. -/
theorem length_keys_add_pending {ids : List SampleId} {states : States} (hids : ids.Nodup)
    (hstates : ∀ sid ∉ ids, states.get? sid = none) :
    states.keys.length + (ids.filter fun sid => decide (sid ∉ states.keys)).length =
      ids.length := by
  have hfiled : states.keys.Perm (ids.filter fun sid => decide (sid ∈ states.keys)) := by
    refine (List.perm_ext_iff_of_nodup states.nodup (hids.filter _)).mpr fun sid => ?_
    rw [List.mem_filter, decide_eq_true_iff]
    refine ⟨fun h => ⟨?_, h⟩, And.right⟩
    by_contra hmem
    exact mem_keys_iff_ne_none.mp h (hstates sid hmem)
  have hsplit := List.length_eq_length_filter_add (l := ids) fun sid => decide (sid ∈ states.keys)
  rw [hfiled.length_eq]
  simp only [decide_not]
  exact hsplit.symm

/-- The samples that succeed, that fail and that are pending are counted once each. -/
theorem summary_adds {states : States} (hids : record.sampleIds.Nodup)
    (hstates : ∀ sid ∉ record.sampleIds, states.get? sid = none) :
    Adds record states (summary record states) := by
  have hfailed := sortedBy_perm id (filedUnder states .failed)
  have hle : (sortedBy id (filedUnder states .failed)).length ≤ states.keys.length := by
    rw [hfailed.length_eq]
    exact (filedUnder_sublist states .failed).length_le
  have hpending := sortedBy_perm id
    (record.sampleIds.filter fun sid => decide (sid ∉ states.keys))
  have hcount := length_keys_add_pending hids hstates
  rw [← hpending.length_eq] at hcount
  have hdedup : record.sampleIds.dedup = record.sampleIds := hids.dedup
  refine ⟨rfl, ?_, ?_, ⟨?_, fun sid => ?_⟩, ⟨?_, fun sid => ?_⟩, rfl, ?_⟩
  · unfold summary
    simp only [hdedup]
    omega
  · unfold summary
    simp only
    omega
  · exact hfailed.nodup_iff.mpr ((filedUnder_sublist states .failed).nodup states.nodup)
  · exact hfailed.mem_iff.trans mem_filedUnder
  · unfold summary
    simp only [hdedup]
    exact hpending.nodup_iff.mpr (hids.filter _)
  · unfold summary
    simp only [hdedup]
    rw [hpending.mem_iff, List.mem_filter, decide_eq_true_iff, mem_keys_iff_ne_none, not_not]
  · unfold summary stateOfCounts
    simp only [hdedup]
    have hrunning : ¬ (record.sampleIds.length ≠ 0 ∧
        states.keys.length = record.sampleIds.length) ↔
        (sortedBy id (record.sampleIds.filter fun sid =>
          decide (sid ∉ states.keys))).length ≠ 0 ∨
        states.keys.length - (sortedBy id (filedUnder states .failed)).length +
          (sortedBy id (filedUnder states .failed)).length = 0 := by omega
    simp only [hrunning, ← List.length_eq_zero_iff]

/-! ## All listings -/

/-- The same states, whatever the order they were filed in. -/
theorem summary_congr {states states' : States} (h : ∀ sid, states.get? sid = states'.get? sid) :
    summary record states = summary record states' := by
  have hkeys : states.keys.Perm states'.keys := by
    refine (List.perm_ext_iff_of_nodup states.nodup states'.nodup).mpr fun sid => ?_
    show sid ∈ states.keys ↔ sid ∈ states'.keys
    rw [mem_keys_iff_ne_none, mem_keys_iff_ne_none, h]
  have hmem : ∀ sid, sid ∈ states.keys ↔ sid ∈ states'.keys := fun _ => hkeys.mem_iff
  have hfailed : sortedBy id (filedUnder states .failed) =
      sortedBy id (filedUnder states' .failed) := by
    refine sortedBy_congr Function.injective_id ?_
    refine (List.perm_ext_iff_of_nodup ((filedUnder_sublist _ _).nodup states.nodup)
      ((filedUnder_sublist _ _).nodup states'.nodup)).mpr fun sid => ?_
    rw [mem_filedUnder, mem_filedUnder, h]
  unfold summary
  simp only [hfailed, hkeys.length_eq, hmem]

/-- The states can be computed if every failure marker that is fetched can be read. -/
theorem exists_sampleStates_iff (failures : Dict SampleId String) :
    (∃ states, sampleStates record b failures = .ok states) ↔
      ∀ sid ∈ record.sampleIds, '/' ∉ sid.toList → markerKey record sid failedMarker ∈ b.keys →
        ∀ error, b.fetch (markerKey record sid failedMarker) ≠ .raises error := by
  have hlisting := @listing_ok_iff T record b ∅ b.keys
  constructor
  · rintro ⟨states, h⟩ sid hmem hflat hkey
    obtain ⟨listed, hlisted, -⟩ := sampleStates_ok_iff.mp h
    exact hlisting.mp ⟨listed, hlisted⟩ _ hkey sid ⟨hmem, hflat, rfl⟩
  · intro h
    obtain ⟨listed, hlisted⟩ := hlisting.mpr fun key hkey sid hmark => by
      obtain ⟨hmem, hflat, rfl⟩ := hmark
      exact h sid hmem hflat hkey
    exact ⟨_, sampleStates_ok_iff.mpr ⟨listed, hlisted, rfl⟩⟩

/-- The order of the listing makes no difference. -/
theorem status_perm {failures : Dict SampleId String} {keys : List String}
    (hkeys : keys.Perm b.keys) {states : States}
    (h : sampleStates record b failures = .ok states) :
    status record { b with keys := keys } failures = .ok (summary record states) := by
  obtain ⟨states', h'⟩ :=
    (@exists_sampleStates_iff T record { b with keys := keys } failures).mpr
      fun sid hmem hflat hkey =>
        (exists_sampleStates_iff failures).mp ⟨states, h⟩ sid hmem hflat (hkeys.mem_iff.mp hkey)
  have hget : ∀ sid, states'.get? sid = states.get? sid := by
    intro sid
    rw [sampleStates_get? h', sampleStates_get? h]
    unfold expected Succeeded Failed
    simp only [hkeys.mem_iff]
  unfold status
  rw [h']
  show Except.ok _ = _
  rw [summary_congr hget]

/-- The states are those of the samples exactly where no marker is lost or unreadable. -/
theorem classified_iff (hids : record.sampleIds.Nodup) (failures : Dict SampleId String) :
    Classified record b failures ↔ Legible record b failures := by
  constructor
  · rintro ⟨states, s, hstates, -, hget, -, -⟩
    refine ⟨(exists_sampleStates_iff failures).mp ⟨states, hstates⟩, fun sid hmem hslash => ?_⟩
    have he := (sampleStates_get? hstates sid).symm.trans (hget sid)
    rw [if_neg fun hc => hc.2 hslash, if_pos hmem] at he
    unfold expected at he
    have hs : ¬ Succeeded record b sid := by
      intro hs
      rw [if_pos hs] at he
      revert he
      split <;> exact fun he => nomatch he
    refine ⟨hs, fun hf => ?_⟩
    by_contra hnot
    rw [if_neg fun hc => hnot hc.2, if_neg hs, if_pos (.inl hf)] at he
    exact nomatch he
  · rintro ⟨hfetched, hflat⟩
    obtain ⟨states, hstates⟩ := (exists_sampleStates_iff failures).mpr hfetched
    refine ⟨states, summary record states, hstates, ?_, fun sid => ?_, ?_, fun keys hkeys => ?_⟩
    · unfold status
      rw [hstates]
      rfl
    · rw [sampleStates_get? hstates]
      by_cases hmem : sid ∈ record.sampleIds
      · rw [if_pos hmem]
        by_cases hslash : '/' ∈ sid.toList
        · obtain ⟨hs, hf⟩ := hflat sid hmem hslash
          rw [if_neg fun hc => hc.2 hslash]
          unfold expected
          rw [if_neg hs]
          have hiff : sid ∈ record.sampleIds ∧ sid ∈ failures.keys ↔
              Failed record b sid ∨ sid ∈ failures.keys :=
            ⟨fun h => .inr h.2, fun h => ⟨hmem, h.elim hf id⟩⟩
          simp only [hiff]
        · rw [if_pos ⟨hmem, hslash⟩]
      · rw [if_neg hmem, if_neg fun hc => hmem hc.1, if_neg fun hc => hmem hc.1]
    · exact summary_adds hids fun sid hsid => get?_of_notMem hstates hsid
    · exact status_perm hkeys hstates

end

/-! ## A slash in an id -/

def nested : S3Handoff Unit := ⟨"sweep", (), ["north/0001"]⟩

/-- The worker of the sample has succeeded. -/
def finished : Bucket := ⟨["sweep/work/sim/north/0001/_OSIMFLOW_COMPLETE"], fun _ => .osError⟩

theorem nested_id_pending : ¬ ∀ (record : S3Handoff Unit) (b : Bucket)
    (failures : Dict SampleId String), record.sampleIds.Nodup → Classified record b failures := by
  intro h
  obtain ⟨states, -, hstates, -, hget, -⟩ := h nested finished ∅ (by decide)
  have hrun : sampleStates nested finished ∅ = .ok ∅ := by decide
  have hstate := hget "north/0001"
  rw [Except.ok.inj (hstates.symm.trans hrun)] at hstate
  revert hstate
  decide

theorem classified_finished :
    Classified nested finished ∅ ↔ Legible nested finished ∅ :=
  classified_iff (by decide) ∅

end OSimFlow.Detached.SampleListing
