import OSimFlow.Aggregation.CompletionFence
import OSimFlow.Campaign.FanoutStep

/-!
# The index of a manifest

`step_extract_kpis` is handed the samples that were simulated. The ones whose KPIs are cached
are done; the others are numbered, and each is published under its number, whether it succeeds
or fails, unless the bookkeeping behind a result went wrong. The number is called the sample's
index in the campaign, and the aggregation orders the manifests by it.

> `indexed_iff`: over all runs of a campaign, the indices are the positions and every sample
> has a manifest exactly if each sample that is published stands, among the samples handed to
> the step that are not cached, where it stands in the campaign, and each is published.
>
> `ordered_of_indexed`: manifests like these are aggregated in the campaign's order.
-/

namespace OSimFlow.Aggregation.ManifestIndex

open OSimFlow.Lib
open OSimFlow.Campaign (Item SampleState StepEnv StepRun ResourceQuota pendingOf runStep)
open OSimFlow.Aggregation.CompletionFence (SampleStatus)

/-- What a `_manifest.json` says of its sample. -/
structure Manifest where
  sampleId : String
  index : Int
  status : SampleStatus
deriving DecidableEq

/-- A run of `step_extract_kpis` in a campaign with these samples. -/
structure ExtractRun (samples : List String) where
  quota : Option ResourceQuota
  env : StepEnv
  state : SampleState
  /-- The simulated samples, in the order of the dictionary. -/
  items : List Item
  keyed : (items.map Item.sid).Nodup
  mem : ∀ item ∈ items, item.sid ∈ samples
  /-- Of a sample whose bookkeeping fails: it was published before. -/
  publishedBefore : String → Bool
  /-- The result storage is configured and takes the manifest of the sample. -/
  stored : String → Bool

namespace ExtractRun

variable {samples : List String} (run : ExtractRun samples)

/-- `pending_items`. -/
def pending : List String := pendingOf run.items

/-- The step, but for what it publishes. -/
def finished : StepRun := runStep run.quota .extractKpis run.env run.state run.items

/-- `{sid: i for i, (sid, _c) in enumerate(pending_items)}`. -/
def indexMap : Dict String Nat := Dict.setAll ∅ run.pending.zipIdx

/-- `_publish_sample_results` is called by `_on_success`. -/
def callsCompleted (sid : String) : Bool :=
  sid ∈ run.finished.submitted &&
    match run.env.awaited sid with
    | .succeeds => true
    | .fails error => error.isBookkeeping && run.publishedBefore sid
    | .lost | .cleared => false

/-- It is called where the failures are recorded. -/
def callsFailed (sid : String) : Bool :=
  let row := run.finished.state.row sid
  row.get? (.status .extract) = some (.str "failed") &&
    row.get? .failureClass ≠ some (.str "bookkeeping_error")

/-- `index_map.get(sid, -1)`. -/
def indexOf (sid : String) : Int :=
  match run.indexMap.get? sid with
  | some i => i
  | none => -1

def manifest (status : SampleStatus) (sid : String) : Manifest :=
  ⟨sid, run.indexOf sid, status⟩

/-- The manifests the run leaves in the storage: on success first, then for the failures. -/
def published : List Manifest :=
  ((run.pending.filter fun sid => run.callsCompleted sid && run.stored sid).map
      (run.manifest .completed)) ++
    (run.pending.filter fun sid => run.callsFailed sid && run.stored sid).map
      (run.manifest .failed)

/-- The sample is published by the run. -/
def Publishes (sid : String) : Prop :=
  sid ∈ run.pending ∧ (run.callsCompleted sid = true ∨ run.callsFailed sid = true) ∧
    run.stored sid = true

/-- The samples without cached KPIs that the step is handed before a sample. -/
def uncachedBefore (sid : String) : Nat :=
  (run.items.takeWhile fun item => item.sid ≠ sid).countP fun item => !item.cached

end ExtractRun

section

variable {samples : List String}

/-! ## What is asked of a campaign -/

/-- The manifests of all the runs of a campaign. -/
def history (runs : List (ExtractRun samples)) : List Manifest :=
  runs.flatMap ExtractRun.published

/-- Every index is the sample's position, every sample has a manifest, and no index is that of
two samples. -/
structure Indexed (runs : List (ExtractRun samples)) : Prop where
  position : ∀ m ∈ history runs, ∃ i : Nat, m.index = i ∧ samples[i]? = some m.sampleId
  complete : ∀ sid ∈ samples, ∃ m ∈ history runs, m.sampleId = sid
  apart : ∀ m ∈ history runs, ∀ m' ∈ history runs, m.index = m'.index → m.sampleId = m'.sampleId

/-- Whoever is published stands, among the samples without cached KPIs, where it stands in the
campaign. -/
def InPlace (runs : List (ExtractRun samples)) : Prop :=
  ∀ run ∈ runs, ∀ sid, run.Publishes sid → run.uncachedBefore sid = samples.idxOf sid

def Covered (runs : List (ExtractRun samples)) : Prop :=
  ∀ sid ∈ samples, ∃ run ∈ runs, run.Publishes sid

/-! ## The numbers -/

/-- Samples with ids of their own are pending in the order they are handed over. -/
theorem pendingOf_eq {items : List Item} (hkeyed : (items.map Item.sid).Nodup) :
    pendingOf items = (items.filter fun item => !item.cached).map Item.sid := by
  have hfold : ∀ (its : List Item) (l : List String), (l ++ its.map Item.sid).Nodup →
      its.foldl (fun pending item =>
        if item.cached then pending else upsert id item.sid pending) l =
      l ++ (its.filter fun item => !item.cached).map Item.sid := by
    intro its
    induction its with
    | nil => simp
    | cons item its ih =>
      intro l hl
      rw [List.foldl_cons]
      have hnot : item.sid ∉ l := fun h =>
        List.nodup_append.mp hl |>.2.2 _ h _ List.mem_cons_self rfl
      by_cases hc : item.cached = true
      · have hl' : (l ++ its.map Item.sid).Nodup :=
          hl.sublist ((List.sublist_cons_self _ _).append_left l)
        rw [if_pos hc, ih l hl', List.filter_cons_of_neg (by simp [hc])]
      · rw [if_neg hc, upsert_of_notMem id (by simpa using hnot), ih _ (by simpa using hl),
          List.filter_cons_of_pos (by simp [hc])]
        simp
  exact hfold items [] (by simpa using hkeyed)

/-- The number of a sample counts the uncached samples before it. -/
theorem idxOf_pendingOf {items : List Item} {sid : String}
    (h : sid ∈ (items.filter fun item => !item.cached).map Item.sid)
    (hkeyed : (items.map Item.sid).Nodup) :
    ((items.filter fun item => !item.cached).map Item.sid).idxOf sid =
      (items.takeWhile fun item => item.sid ≠ sid).countP fun item => !item.cached := by
  induction items with
  | nil => exact absurd h List.not_mem_nil
  | cons item items ih =>
    have hkeyed' := (List.nodup_cons.mp hkeyed).2
    have hfresh : item.sid ∉ (items.filter fun item => !item.cached).map Item.sid := fun hm =>
      (List.nodup_cons.mp hkeyed).1 ((List.filter_sublist.map Item.sid).subset hm)
    by_cases hsid : item.sid = sid
    · subst hsid
      rw [List.takeWhile_cons_of_neg (by simp), List.countP_nil]
      by_cases hc : item.cached = true
      · rw [List.filter_cons_of_neg (by simp [hc])] at h
        exact absurd h hfresh
      · rw [List.filter_cons_of_pos (by simp [hc]), List.map_cons, List.idxOf_cons_self]
    · rw [List.takeWhile_cons_of_pos (by simpa using hsid)]
      by_cases hc : item.cached = true
      · rw [List.filter_cons_of_neg (by simp [hc])] at h ⊢
        rw [List.countP_cons_of_neg (by simp [hc]), ih h hkeyed']
      · rw [List.filter_cons_of_pos (by simp [hc]), List.map_cons] at h ⊢
        have hrest := (List.mem_cons.mp h).resolve_left (Ne.symm hsid)
        rw [List.countP_cons_of_pos (by simp [hc]), List.idxOf_cons_ne _ hsid, ih hrest hkeyed']

namespace ExtractRun

variable (run : ExtractRun samples)

theorem indexMap_get? {sid : String} (h : sid ∈ run.pending) :
    run.indexMap.get? sid = some (run.pending.idxOf sid) := by
  have hmem : (sid, run.pending.idxOf sid) ∈ run.pending.zipIdx := by
    rw [List.mk_mem_zipIdx_iff_getElem?, List.getElem?_idxOf h]
  have hall : ∀ i, (sid, i) ∈ run.pending.zipIdx → i = run.pending.idxOf sid := by
    intro i hi
    rw [List.mk_mem_zipIdx_iff_getElem?] at hi
    obtain ⟨hlt, rfl⟩ := List.getElem?_eq_some_iff.mp hi
    exact ((Campaign.nodup_pendingOf run.items).idxOf_getElem i hlt).symm
  unfold indexMap
  rw [Dict.get?_setAll, Dict.lastOf_eq_some hmem hall]
  rfl

/-- The index counts the uncached samples before a sample. -/
theorem indexOf_eq {sid : String} (h : sid ∈ run.pending) :
    run.indexOf sid = run.uncachedBefore sid := by
  unfold indexOf
  rw [run.indexMap_get? h]
  unfold pending at h ⊢
  rw [pendingOf_eq run.keyed] at h ⊢
  exact congrArg _ (idxOf_pendingOf h run.keyed)

theorem mem_of_publishes {sid : String} (h : run.Publishes sid) : sid ∈ samples := by
  obtain ⟨item, hitem, -, rfl⟩ := Campaign.mem_pendingOf.mp h.1
  exact run.mem item hitem

/-- What is left for a sample. -/
theorem mem_published_iff {sid : String} {index : Int} :
    (∃ m ∈ run.published, m.sampleId = sid ∧ m.index = index) ↔
      run.Publishes sid ∧ index = run.uncachedBefore sid := by
  constructor
  · rintro ⟨m, hm, rfl, rfl⟩
    unfold published at hm
    rcases List.mem_append.mp hm with hm | hm
    · obtain ⟨sid, hsid, rfl⟩ := List.mem_map.mp hm
      obtain ⟨hpending, hcalls⟩ := List.mem_filter.mp hsid
      obtain ⟨hcompleted, hstored⟩ := Bool.and_eq_true_iff.mp hcalls
      exact ⟨⟨hpending, .inl hcompleted, hstored⟩, run.indexOf_eq hpending⟩
    · obtain ⟨sid, hsid, rfl⟩ := List.mem_map.mp hm
      obtain ⟨hpending, hcalls⟩ := List.mem_filter.mp hsid
      obtain ⟨hfailed, hstored⟩ := Bool.and_eq_true_iff.mp hcalls
      exact ⟨⟨hpending, .inr hfailed, hstored⟩, run.indexOf_eq hpending⟩
  · rintro ⟨⟨hpending, hcalls, hstored⟩, rfl⟩
    have hindex := run.indexOf_eq hpending
    rcases hcalls with hcompleted | hfailed
    · refine ⟨run.manifest .completed sid, List.mem_append_left _ ?_, rfl, hindex⟩
      refine List.mem_map_of_mem (List.mem_filter.mpr ⟨hpending, ?_⟩)
      rw [hcompleted, hstored]
      rfl
    · refine ⟨run.manifest .failed sid, List.mem_append_right _ ?_, rfl, hindex⟩
      refine List.mem_map_of_mem (List.mem_filter.mpr ⟨hpending, ?_⟩)
      rw [hfailed, hstored]
      rfl

end ExtractRun

/-! ## The history of a campaign -/

theorem mem_history_iff {runs : List (ExtractRun samples)} {sid : String} {index : Int} :
    (∃ m ∈ history runs, m.sampleId = sid ∧ m.index = index) ↔
      ∃ run ∈ runs, run.Publishes sid ∧ index = run.uncachedBefore sid := by
  unfold history
  constructor
  · rintro ⟨m, hm, hsid, hindex⟩
    obtain ⟨run, hrun, hm⟩ := List.mem_flatMap.mp hm
    exact ⟨run, hrun, run.mem_published_iff.mp ⟨m, hm, hsid, hindex⟩⟩
  · rintro ⟨run, hrun, h⟩
    obtain ⟨m, hm, hparts⟩ := run.mem_published_iff.mpr h
    exact ⟨m, List.mem_flatMap.mpr ⟨run, hrun, hm⟩, hparts⟩

/-- An index is the position of a sample, for a list of different samples. -/
theorem getElem?_eq_some_iff_idxOf {l : List String} (hl : l.Nodup) {i : Nat} {s : String}
    (hs : s ∈ l) : l[i]? = some s ↔ i = l.idxOf s := by
  constructor
  · intro h
    obtain ⟨hi, rfl⟩ := List.getElem?_eq_some_iff.mp h
    exact (hl.idxOf_getElem i hi).symm
  · rintro rfl
    exact List.getElem?_idxOf hs

/-- The manifests are the campaign's exactly if every sample is numbered where it stands, and
published. -/
theorem indexed_iff (hsamples : samples.Nodup) (runs : List (ExtractRun samples)) :
    Indexed runs ↔ InPlace runs ∧ Covered runs := by
  constructor
  · rintro ⟨hposition, hcomplete, -⟩
    constructor
    · intro run hrun sid hpub
      obtain ⟨m, hm, hsid, hindex⟩ := mem_history_iff.mpr ⟨run, hrun, hpub, rfl⟩
      obtain ⟨i, hi, hget⟩ := hposition m hm
      rw [hsid] at hget
      have hidx := (getElem?_eq_some_iff_idxOf hsamples (run.mem_of_publishes hpub)).mp hget
      omega
    · intro sid hsid
      obtain ⟨m, hm, hid⟩ := hcomplete sid hsid
      obtain ⟨run, hrun, hpub, -⟩ := mem_history_iff.mp ⟨m, hm, hid, rfl⟩
      exact ⟨run, hrun, hpub⟩
  · rintro ⟨hplace, hcovered⟩
    have hindex : ∀ m ∈ history runs,
        m.sampleId ∈ samples ∧ m.index = samples.idxOf m.sampleId := by
      intro m hm
      obtain ⟨run, hrun, hpub, hidx⟩ := mem_history_iff.mp ⟨m, hm, rfl, rfl⟩
      exact ⟨run.mem_of_publishes hpub, by rw [hidx, hplace run hrun _ hpub]⟩
    refine ⟨fun m hm => ?_, fun sid hsid => ?_, fun m hm m' hm' he => ?_⟩
    · obtain ⟨hmem, hidx⟩ := hindex m hm
      exact ⟨_, hidx, (getElem?_eq_some_iff_idxOf hsamples hmem).mpr rfl⟩
    · obtain ⟨run, hrun, hpub⟩ := hcovered sid hsid
      obtain ⟨m, hm, hid, -⟩ := mem_history_iff.mpr ⟨run, hrun, hpub, rfl⟩
      exact ⟨m, hm, hid⟩
    · obtain ⟨hmem, hidx⟩ := hindex m hm
      obtain ⟨-, hidx'⟩ := hindex m' hm'
      exact (List.idxOf_inj hmem).mp (by omega)

/-! ## Samples handed over in the campaign's order -/

theorem idxOf_le_of_sublist {l l' : List String} {s : String} (h : l'.Sublist l)
    (hl : l.Nodup) (hs : s ∈ l') : l'.idxOf s ≤ l.idxOf s := by
  induction h with
  | slnil => exact absurd hs List.not_mem_nil
  | cons t h ih =>
    obtain ⟨ht, hl'⟩ := List.nodup_cons.mp hl
    have hle := ih hl' hs
    have hts : t ≠ s := by
      rintro rfl
      exact ht (h.subset hs)
    rw [List.idxOf_cons_ne _ hts]
    omega
  | cons_cons t h ih =>
    by_cases hts : t = s
    · rw [hts, List.idxOf_cons_self, List.idxOf_cons_self]
    · have hle := ih (List.nodup_cons.mp hl).2 ((List.mem_cons.mp hs).resolve_left (Ne.symm hts))
      rw [List.idxOf_cons_ne _ hts, List.idxOf_cons_ne _ hts]
      omega

/-- A sample keeps its place in a part of the list that has everything before it. -/
theorem idxOf_eq_iff_of_sublist {l l' : List String} {s : String} (h : l'.Sublist l)
    (hl : l.Nodup) (hs : s ∈ l') :
    l'.idxOf s = l.idxOf s ↔ ∀ t ∈ l.takeWhile (· ≠ s), t ∈ l' := by
  induction h with
  | slnil => exact absurd hs List.not_mem_nil
  | cons t h ih =>
    obtain ⟨ht, hl'⟩ := List.nodup_cons.mp hl
    have hts : t ≠ s := by
      rintro rfl
      exact ht (h.subset hs)
    have hle := idxOf_le_of_sublist h hl' hs
    rw [List.idxOf_cons_ne _ hts, List.takeWhile_cons_of_pos (by simpa using hts)]
    refine iff_of_false (by omega) fun hall => ht (h.subset (hall t List.mem_cons_self))
  | cons_cons t h ih =>
    obtain ⟨ht, hl'⟩ := List.nodup_cons.mp hl
    by_cases hts : t = s
    · subst hts
      rw [List.idxOf_cons_self, List.idxOf_cons_self, List.takeWhile_cons_of_neg (by simp)]
      exact iff_of_true rfl fun _ hm => nomatch hm
    · have hrest := (List.mem_cons.mp hs).resolve_left (Ne.symm hts)
      rw [List.idxOf_cons_ne _ hts, List.idxOf_cons_ne _ hts, Nat.succ_inj, ih hl' hrest,
        List.takeWhile_cons_of_pos (by simpa using hts), List.forall_mem_cons,
        and_iff_right List.mem_cons_self]
      refine forall₂_congr fun u hu => ?_
      have hut : u ≠ t := by
        rintro rfl
        exact ht ((List.takeWhile_prefix _).subset hu)
      rw [List.mem_cons, or_iff_right hut]

/-- Samples that are handed over in the campaign's order keep their places where none before
them is cached or missing. -/
theorem uncachedBefore_eq_iff (hsamples : samples.Nodup) (run : ExtractRun samples)
    (horder : (run.items.map Item.sid).Sublist samples) {sid : String} (h : sid ∈ run.pending) :
    run.uncachedBefore sid = samples.idxOf sid ↔
      ∀ s ∈ samples.takeWhile (· ≠ sid), ∃ item ∈ run.items, item.cached = false ∧ item.sid = s := by
  have hsub : run.pending.Sublist samples := by
    unfold ExtractRun.pending
    rw [pendingOf_eq run.keyed]
    exact (List.filter_sublist.map Item.sid).trans horder
  have hidx : run.pending.idxOf sid = run.uncachedBefore sid := by
    unfold ExtractRun.pending at h ⊢
    rw [pendingOf_eq run.keyed] at h ⊢
    exact idxOf_pendingOf h run.keyed
  rw [← hidx, idxOf_eq_iff_of_sublist hsub hsamples h]
  exact forall₂_congr fun s _ => Campaign.mem_pendingOf

/-! ## The order of the aggregation -/

/-- Manifests with the positions for their indices are aggregated in the campaign's order. -/
theorem ordered_of_indexed {F : Type} (hsamples : samples.Nodup)
    {manifests : List (AggregatedManifest F)}
    (hids : (manifests.map AggregatedManifest.sampleId).Perm samples)
    (hindex : ∀ m ∈ manifests, m.index = samples.idxOf m.sampleId) :
    (ordered manifests).map AggregatedManifest.sampleId = samples := by
  have hperm : (ordered manifests).Perm manifests := List.mergeSort_perm _ _
  have hsorted : ((ordered manifests).map AggregatedManifest.sampleId).Pairwise
      fun a b => samples.idxOf a ≤ samples.idxOf b := by
    rw [List.pairwise_map]
    refine (pairwise_ordered manifests).imp_of_mem fun {a b} ha hb hab => ?_
    have hle : a.index ≤ b.index := by
      rcases Prod.Lex.le_iff.mp hab with hlt | ⟨heq, -⟩
      · exact hlt.le
      · exact heq.le
    rw [hindex a (hperm.subset ha), hindex b (hperm.subset hb)] at hle
    omega
  have hself : samples.Pairwise fun a b => samples.idxOf a ≤ samples.idxOf b := by
    rw [List.pairwise_iff_getElem]
    intro i j hi hj hij
    rw [hsamples.idxOf_getElem, hsamples.idxOf_getElem]
    omega
  refine List.Perm.eq_of_pairwise (fun a b ha _ hab hba => ?_) hsorted hself
    ((hperm.map _).trans hids)
  have hmem : a ∈ samples := ((hperm.map _).trans hids).subset ha
  exact (List.idxOf_inj hmem).mp (by omega)

/-- Whichever runs the manifests of a campaign that is indexed right come from, the
aggregation has its samples in their order. -/
theorem aggregated_in_order {F : Type} {samples : List String} (hsamples : samples.Nodup)
    {runs : List (ExtractRun samples)} (h : Indexed runs) {manifests : List (AggregatedManifest F)}
    (hids : (manifests.map AggregatedManifest.sampleId).Perm samples)
    (hfrom : ∀ m ∈ manifests, ∃ p ∈ history runs, p.sampleId = m.sampleId ∧ p.index = m.index) :
    (ordered manifests).map AggregatedManifest.sampleId = samples := by
  refine ordered_of_indexed hsamples hids fun m hm => ?_
  obtain ⟨p, hp, hid, hindex⟩ := hfrom m hm
  obtain ⟨i, hi, hget⟩ := h.position p hp
  have hmem : p.sampleId ∈ samples := List.mem_of_getElem? hget
  have hpos := (getElem?_eq_some_iff_idxOf hsamples hmem).mp hget
  rw [← hindex, hi, hpos, hid]

end

/-! ## A failed simulation -/

/-- A run in which all calls return and the storage takes what it is given. -/
def plainRun (samples : List String) (items : List Item) (keyed : (items.map Item.sid).Nodup)
    (mem : ∀ item ∈ items, item.sid ∈ samples) : ExtractRun samples where
  quota := none
  env :=
    { awaited := fun _ => .succeeds
      chunkSize := fun _ => 1
      chunkSize_pos := fun _ => Nat.one_pos
      completion := id
      completion_perm := fun _ => .refl _
      spent := fun _ => ⟨0, 0⟩ }
  state := ∅
  items := items
  keyed := keyed
  mem := mem
  publishedBefore := fun _ => false
  stored := fun _ => true

/-- The simulation of the first sample failed, so only the second is extracted. -/
def secondOnly : ExtractRun ["0001", "0002"] :=
  plainRun _ [⟨"0002", false⟩] (by decide) (by decide)

/-- In the resumed run the first is extracted, and the KPIs of the second are cached. -/
def resumed : ExtractRun ["0001", "0002"] :=
  plainRun _ [⟨"0001", false⟩, ⟨"0002", true⟩] (by decide) (by decide)

theorem both_samples_first : ¬ ∀ (samples : List String) (runs : List (ExtractRun samples)),
    samples.Nodup → Indexed runs := by
  intro h
  have hindexed := h _ [secondOnly, resumed] (by decide)
  have hsecond : (⟨"0002", 0, .completed⟩ : Manifest) ∈ history [secondOnly, resumed] := by
    decide +kernel
  have hfirst : (⟨"0001", 0, .completed⟩ : Manifest) ∈ history [secondOnly, resumed] := by
    decide +kernel
  exact absurd (hindexed.apart _ hsecond _ hfirst rfl) (by decide)

theorem indexed_resumed :
    Indexed [secondOnly, resumed] ↔ InPlace [secondOnly, resumed] ∧ Covered [secondOnly, resumed] :=
  indexed_iff (by decide) [secondOnly, resumed]

/-- A run in which both samples are extracted. -/
def bothExtracted : ExtractRun ["0001", "0002"] :=
  plainRun _ [⟨"0001", false⟩, ⟨"0002", false⟩] (by decide) (by decide)

theorem second_keeps_place :
    bothExtracted.uncachedBefore "0002" = ["0001", "0002"].idxOf "0002" ↔
      ∀ s ∈ ["0001", "0002"].takeWhile (· ≠ "0002"),
        ∃ item ∈ bothExtracted.items, item.cached = false ∧ item.sid = s :=
  uncachedBefore_eq_iff (by decide) bothExtracted (List.Sublist.refl _) (by decide +kernel)

/-- The manifest of the second sample is listed first. -/
theorem aggregated_both :
    (ordered [(⟨"0002", 1, "completed", none, 0, none, none⟩ : AggregatedManifest Empty),
      ⟨"0001", 0, "completed", none, 0, none, none⟩]).map AggregatedManifest.sampleId =
        ["0001", "0002"] := by
  have hhistory : history [bothExtracted] =
      [⟨"0001", 0, .completed⟩, ⟨"0002", 1, .completed⟩] := by
    decide +kernel
  have hindexed : Indexed [bothExtracted] := by
    constructor
    · rw [hhistory]
      exact List.forall_mem_cons.mpr ⟨⟨0, rfl, rfl⟩,
        List.forall_mem_cons.mpr ⟨⟨1, rfl, rfl⟩, fun _ h => nomatch h⟩⟩
    · rw [hhistory]
      simp
    · rw [hhistory]
      simp
  refine aggregated_in_order (by decide) hindexed (by decide) ?_
  rw [hhistory]
  simp

end OSimFlow.Aggregation.ManifestIndex
