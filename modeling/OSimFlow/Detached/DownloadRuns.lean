import OSimFlow.Detached.Download
import OSimFlow.Lib.Run

/-!
# A download that crashes

What repeated calls of `download` promise, whatever is uploaded meanwhile and
wherever a call crashes:

> `MarkedWhole`: a sample whose marker is here has all its selected result
> files here.
>
> `Reflected`: when a call returns, every sample that was done when it listed
> the prefix is copied, and both tables have it as its directory says.

The marker of a failed sample is copied among its files, so it can be here
before them; and the tables are written again only when something was fetched
by the same call, so a crash between a marker and the tables is never made up
for. `download_sound` says that with the steps that do such things left out
(`Orderly`) both hold in every state. The invariant is `Sound`.
-/

namespace OSimFlow.Detached

open OSimFlow.Lib

variable {Kpi : Type}

/-- A result file: neither of the markers. -/
def IsResult (rel : String) : Prop :=
  rel ≠ "" ∧ rel ≠ completeMarker ∧ rel ≠ failedMarker

/-- The samples that this call has marked, or may have, since the tables were written. -/
def Call.busy (c : Call) : List SampleId :=
  match c.phase with
  | .copy sid _ _ | .reason sid _ => sid :: c.fetched
  | .returned => []
  | _ => c.fetched

/-- The samples whose turn is not over. -/
def Call.remaining (c : Call) : List SampleId :=
  match c.phase with
  | .loop todo | .reason _ todo => todo
  | .copy sid _ todo => sid :: todo
  | _ => []

/-- The call further on. -/
abbrev Call.moved (c : Call) (fetched : List SampleId) (phase : Phase) : Call :=
  { c with fetched := fetched, phase := phase }

/-- The tables have the sample as its directory says. -/
structure InTables (h : Handoff Kpi) (d : Disk Kpi) (sid : SampleId) (state : SampleState) :
    Prop where
  csv : ∃ csv, d.csv = some csv ∧
    ∀ kpi, (sid, kpi) ∈ csv.rows ↔ kpiRow h.readers (d.files sid) state = some kpi
  failed : ∃ failed, d.failedCsv = some failed ∧
    (sid ∈ failed ↔ extractFailure h.readers (d.files sid) = true)

theorem InTables.congr {h : Handoff Kpi} {d d' : Disk Kpi} {sid : SampleId}
    {state : SampleState} (hin : InTables h d sid state) (hcsv : d'.csv = d.csv)
    (hfailed : d'.failedCsv = d.failedCsv) (hfiles : d'.files sid = d.files sid) :
    InTables h d' sid state := by
  refine ⟨?_, ?_⟩
  · rw [hcsv, hfiles]
    exact hin.csv
  · rw [hfailed, hfiles]
    exact hin.failed

namespace Session

variable (h : Handoff Kpi) (s : Session Kpi)

def MarkedWhole : Prop :=
  ∀ sid, Marked (s.disk.files sid) → ∀ rel text, (s.remote sid).get? rel = some text →
    IsResult rel → selected s.wanted rel = true → (s.disk.files sid rel).isSome

/-- The directory is a copy of what the prefix holds of the sample, and marked as such. -/
structure Mirrors (c : Call) (sid : SampleId) (state : SampleState) : Prop where
  copied : ∀ rel text, (s.remote sid).get? rel = some text → IsResult rel →
    selected c.includeArtifacts rel = true → s.disk.files sid rel = some text
  marked : (s.disk.files sid state.marker).isSome
  unfailed : state = .complete → s.disk.files sid failedMarker = none

def Reflected : Prop :=
  ∀ c, s.call = some c → c.phase = .returned → ∀ sid ∈ h.sampleIds, ∀ state,
    c.states sid = some state → s.Mirrors c sid state ∧ InTables h s.disk sid state

/-- The next step of the call does no harm: a failure marker is the last object
copied of its sample, and the tables leave out no sample that is marked here. -/
def AdvanceOk (c : Call) : Prop :=
  match c.phase with
  | .copy sid (rel :: keys) _ => rel = failedMarker → c.copies sid rel = true →
      ∀ rel' ∈ keys, c.copies sid rel' = false
  | .aggregate => ∀ sid, Marked (s.disk.files sid) → (c.states sid).isSome
  | _ => True

/-- The steps that do no harm. No sample is tried again once a call found it
failed; artifacts are not asked for after samples were fetched without theirs; and
no crash comes between a new marker, or half of the tables, and the tables. -/
def Orderly : Event → Prop
  | .upload sid _ _ => s.disk.files sid failedMarker = none ∧
      ∀ c, s.call = some c → c.phase ≠ .returned → c.states sid ≠ some .failed
  | .start includeArtifacts _ _ => includeArtifacts = true →
      ∀ sid, Marked (s.disk.files sid) → s.bare sid = true →
        ∀ rel text, (s.remote sid).get? rel = some text → selected false rel = true
  | .advance _ => ∀ c, s.call = some c → s.AdvanceOk c
  | .crash => ∀ c, s.call = some c → c.phase ≠ .writeFailed ∧
      (s.disk.csv = none ∨ ∀ sid ∈ c.busy, ¬ Marked (s.disk.files sid))

/-! ## The invariant -/

/-- What a marker here says of its sample. -/
structure SampleOk (wanted : Bool) (objects : Dict String String) (dir : Dir) (bare : Bool) :
    Prop where
  failedOpen : (dir failedMarker).isSome → objects.get? completeMarker = none
  completeDone : (dir completeMarker).isSome → (objects.get? completeMarker).isSome
  whole : Marked dir → ∀ rel text, objects.get? rel = some text → IsResult rel →
    selected (!bare) rel = true → dir rel = some text
  plain : wanted = true → Marked dir → bare = true →
    ∀ rel text, objects.get? rel = some text → selected false rel = true

/-- What a call knows at its place. -/
def PhaseOk (c : Call) : Prop :=
  match c.phase with
  | .copy sid keys _ =>
    (Marked (s.disk.files sid) → (s.disk.files sid failedMarker).isSome ∧
      c.states sid = some .failed ∧ ∀ rel ∈ keys, c.copies sid rel = false) ∧
    ∀ rel text, (s.remote sid).get? rel = some text → c.copies sid rel = true →
      rel ∈ keys ∨ s.disk.files sid rel = some text
  | .reason sid _ => ∃ state, c.states sid = some state ∧ (s.disk.files sid state.marker).isSome
  | .writeFailed =>
    (∃ csv, s.disk.csv = some csv ∧ csv.rows = csvRows h c s.disk.files) ∧
      ∀ sid, Marked (s.disk.files sid) → (c.states sid).isSome
  | .returned => s.disk.csv.isSome
  | _ => True

structure CallOk (c : Call) : Prop where
  artifacts : c.includeArtifacts = s.wanted
  known : ∀ sid, (c.states sid).isSome → sid ∈ h.sampleIds
  listedComplete : ∀ sid, c.states sid = some .complete →
    ((s.remote sid).get? completeMarker).isSome
  listedFailed : c.phase ≠ .returned → ∀ sid, c.states sid = some .failed →
    (s.remote sid).get? completeMarker = none
  listed : ∀ sid ∈ c.remaining, (c.states sid).isSome
  handled : c.phase ≠ .samples → ∀ sid state, c.states sid = some state →
    sid ∈ c.remaining ∨ (s.disk.files sid state.marker).isSome
  phase : s.PhaseOk h c

/-- The state a marked directory stands for. -/
def stateOf (dir : Dir) : SampleState :=
  if (dir completeMarker).isSome then .complete else .failed

/-- The tables have every marked sample, but those the call is busy with. -/
def TablesOk : Prop :=
  s.disk.csv.isSome → (∀ c, s.call = some c → c.phase ≠ .writeFailed) →
    ∀ sid ∈ h.sampleIds, Marked (s.disk.files sid) → (∀ c, s.call = some c → sid ∉ c.busy) →
      InTables h s.disk sid (stateOf (s.disk.files sid))

structure Sound : Prop where
  samples : ∀ sid, SampleOk s.wanted (s.remote sid) (s.disk.files sid) (s.bare sid)
  tables : s.TablesOk h
  call : ∀ c, s.call = some c → s.CallOk h c

variable {h s}

/-! ## What the invariant gives -/

theorem SampleOk.of_unmarked {wanted bare : Bool} {objects : Dict String String} {dir : Dir}
    (hm : ¬ Marked dir) : SampleOk wanted objects dir bare where
  failedOpen := fun hf => absurd (Or.inr hf) hm
  completeDone := fun hc => absurd (Or.inl hc) hm
  whole := fun h => absurd h hm
  plain := fun _ h => absurd h hm

theorem marked_of_marker {dir : Dir} {state : SampleState} (h : (dir state.marker).isSome) :
    Marked dir := by
  cases state with
  | complete => exact Or.inl h
  | failed => exact Or.inr h

/-- The files selected by the last call are among those the marker stands for. -/
theorem SampleOk.mirrored {wanted bare : Bool} {objects : Dict String String} {dir : Dir}
    (hs : SampleOk wanted objects dir bare) (hm : Marked dir) {rel text : String}
    (hget : objects.get? rel = some text) (hres : IsResult rel)
    (hsel : selected wanted rel = true) : dir rel = some text := by
  refine hs.whole hm rel text hget hres ?_
  cases hb : bare with
  | false => rfl
  | true =>
    cases hw : wanted with
    | false =>
      rw [hw] at hsel
      exact hsel
    | true => exact hs.plain hw hm hb rel text hget

theorem Sound.markedWhole (hs : s.Sound h) : s.MarkedWhole := by
  intro sid hm rel text hget hres hsel
  rw [(hs.samples sid).mirrored hm hget hres hsel]
  rfl

/-- The markers here tell the state that was listed. -/
theorem SampleOk.stateOf_eq {wanted bare : Bool} {objects : Dict String String} {dir : Dir}
    (hs : SampleOk wanted objects dir bare) {state : SampleState}
    (hm : (dir state.marker).isSome) : stateOf dir = state := by
  cases state with
  | complete => exact if_pos hm
  | failed =>
    refine if_neg fun hc => ?_
    have hdone := hs.completeDone hc
    rw [hs.failedOpen hm] at hdone
    exact nomatch hdone

theorem Sound.reflected (hs : s.Sound h) : s.Reflected h := by
  intro c hc hret sid hid state hstate
  have hok := hs.call c hc
  have hmark : (s.disk.files sid state.marker).isSome := by
    rcases hok.handled (by rw [hret]; exact fun h => nomatch h) sid state hstate with hrem | hm
    · rw [Call.remaining, hret] at hrem
      exact absurd hrem List.not_mem_nil
    · exact hm
  have hm := marked_of_marker hmark
  have hsample := hs.samples sid
  refine ⟨⟨fun rel text hget hres hsel => ?_, hmark, fun hcomplete => ?_⟩, ?_⟩
  · rw [hok.artifacts] at hsel
    exact hsample.mirrored hm hget hres hsel
  · subst hcomplete
    have hdone := hok.listedComplete sid hstate
    cases hf : s.disk.files sid failedMarker with
    | none => rfl
    | some text =>
      rw [hsample.failedOpen (by rw [hf]; rfl)] at hdone
      exact nomatch hdone
  · have hcsv : s.disk.csv.isSome := by
      have hp := hok.phase
      rw [PhaseOk, hret] at hp
      exact hp
    rw [← hsample.stateOf_eq hmark]
    refine hs.tables hcsv (fun c' hc' => ?_) sid hid hm fun c' hc' => ?_
    · rw [hc] at hc'
      cases hc'
      rw [hret]
      exact fun h => nomatch h
    · rw [hc] at hc'
      cases hc'
      rw [Call.busy, hret]
      exact List.not_mem_nil

theorem fresh_sound (h : Handoff Kpi) (remote : Remote) (identity : Option String) :
    (fresh remote identity : Session Kpi).Sound h where
  samples := fun _ => .of_unmarked (fun hm => by
    rcases hm with hm | hm <;> exact nomatch hm)
  tables := fun hcsv => nomatch hcsv
  call := fun _ hc => nomatch hc

/-! ## One step at a time -/

/-- An upload concerns a sample without a marker here. -/
theorem upload_sound (hs : s.Sound h) {sid : SampleId} {rel text : String}
    (ho : Orderly s (.upload sid rel text)) : (step h s (.upload sid rel text)).Sound h := by
  by_cases hdone : ((s.remote sid).get? completeMarker).isSome
  · have he : step h s (.upload sid rel text) = s := if_pos hdone
    rw [he]
    exact hs
  have he : step h s (.upload sid rel text) =
      { s with remote := Function.update s.remote sid ((s.remote sid).set rel text) } :=
    if_neg hdone
  rw [he]
  have hunmarked : ¬ Marked (s.disk.files sid) := by
    intro hm
    rcases hm with hm | hm
    · exact hdone ((hs.samples sid).completeDone hm)
    · rw [ho.1] at hm
      exact nomatch hm
  have hother : ∀ sid', sid' ≠ sid →
      Function.update s.remote sid ((s.remote sid).set rel text) sid' = s.remote sid' :=
    fun sid' hne => Function.update_of_ne hne _ _
  refine ⟨fun sid' => ?_, hs.tables, fun c hc => ?_⟩
  · by_cases hsid : sid' = sid
    · subst hsid
      exact .of_unmarked hunmarked
    · show SampleOk _ (Function.update s.remote sid _ sid') _ _
      rw [hother sid' hsid]
      exact hs.samples sid'
  · -- the sample is neither complete nor, while the call runs, listed as failed
    have hok := hs.call c hc
    have hlisted : ∀ sid' state, c.states sid' = some state → c.phase ≠ .returned →
        sid' ≠ sid := by
      intro sid' state hstate hrun hsid
      subst hsid
      cases state with
      | complete => exact hdone (hok.listedComplete sid' hstate)
      | failed => exact ho.2 c hc hrun hstate
    refine ⟨hok.artifacts, hok.known, fun sid' hstate => ?_, fun hrun sid' hstate => ?_, hok.listed,
      hok.handled, ?_⟩
    · have hne : sid' ≠ sid := by
        intro hsid
        subst hsid
        exact hdone (hok.listedComplete sid' hstate)
      show ((Function.update s.remote sid _ sid').get? completeMarker).isSome
      rw [hother sid' hne]
      exact hok.listedComplete sid' hstate
    · show (Function.update s.remote sid _ sid').get? completeMarker = none
      rw [hother sid' (hlisted sid' _ hstate hrun)]
      exact hok.listedFailed hrun sid' hstate
    · have hp := hok.phase
      unfold PhaseOk at hp ⊢
      cases hphase : c.phase with
      | copy sid' keys todo =>
        rw [hphase] at hp
        have hmem : sid' ∈ c.remaining := by
          rw [Call.remaining, hphase]
          exact List.mem_cons_self
        obtain ⟨state, hstate⟩ := Option.isSome_iff_exists.mp (hok.listed sid' hmem)
        have hne := hlisted sid' state hstate (by rw [hphase]; exact fun h => nomatch h)
        refine ⟨hp.1, fun rel' text' hget => hp.2 rel' text' ?_⟩
        rw [← hother sid' hne]
        exact hget
      | samples => trivial
      | loop todo => trivial
      | reason sid' todo => rw [hphase] at hp; exact hp
      | aggregate => trivial
      | writeFailed => rw [hphase] at hp; exact hp
      | returned => rw [hphase] at hp; exact hp

/-- A crash outside the dangerous places leaves the tables good. -/
theorem crash_sound (hs : s.Sound h) (ho : Orderly s .crash) : (step h s .crash).Sound h := by
  refine ⟨hs.samples, fun hcsv _ sid hid hm _ => ?_, fun c hc => nomatch hc⟩
  refine hs.tables hcsv (fun c hc => (ho c hc).1) sid hid hm fun c hc hbusy => ?_
  rcases (ho c hc).2 with hnone | hunmarked
  · have hsome : s.disk.csv.isSome := hcsv
    rw [hnone] at hsome
    exact nomatch hsome
  · exact hunmarked sid hbusy hm

theorem sampleStates_complete {ids : List SampleId} {remote : Remote}
    {failures : SampleId → Option String} {sid : SampleId}
    (hst : sampleStates ids remote failures sid = some .complete) :
    ((remote sid).get? completeMarker).isSome := by
  unfold sampleStates at hst
  by_cases hid : sid ∉ ids
  · rw [if_pos hid] at hst
    exact nomatch hst
  rw [if_neg hid] at hst
  by_cases hdone : ((remote sid).get? completeMarker).isSome
  · exact hdone
  rw [if_neg hdone] at hst
  cases hf : (remote sid).get? failedMarker with
  | none => simp [hf] at hst
  | some text =>
    by_cases hr : strip text = retryingState
    · simp [hf, hr] at hst
    · simp [hf, hr] at hst

theorem sampleStates_failed {ids : List SampleId} {remote : Remote}
    {failures : SampleId → Option String} {sid : SampleId}
    (hst : sampleStates ids remote failures sid = some .failed) :
    (remote sid).get? completeMarker = none := by
  unfold sampleStates at hst
  by_cases hid : sid ∉ ids
  · rw [if_pos hid] at hst
    exact nomatch hst
  rw [if_neg hid] at hst
  by_cases hdone : ((remote sid).get? completeMarker).isSome
  · rw [if_pos hdone] at hst
    exact nomatch hst
  · exact Option.not_isSome_iff_eq_none.mp hdone

theorem sampleStates_known {ids : List SampleId} {remote : Remote}
    {failures : SampleId → Option String} {sid : SampleId}
    (hst : (sampleStates ids remote failures sid).isSome) : sid ∈ ids := by
  by_cases hid : sid ∈ ids
  · exact hid
  · rw [sampleStates, if_pos hid] at hst
    exact nomatch hst

/-- What a call starts from. -/
theorem begin?_eq {remote : Remote} {d : Disk Kpi} {artifacts allowPartial : Bool}
    {failures : SampleId → Option String} {c : Call}
    (hb : begin? h remote d artifacts allowPartial failures = some c) :
    c = ⟨artifacts, failures, sampleStates h.sampleIds remote failures, [], .samples⟩ := by
  unfold begin? at hb
  dsimp only at hb
  split at hb
  · exact nomatch hb
  · split at hb
    · exact (Option.some.inj hb).symm
    · exact nomatch hb

theorem start_sound (hs : s.Sound h) {artifacts allowPartial : Bool}
    {failures : SampleId → Option String}
    (ho : Orderly s (.start artifacts allowPartial failures)) :
    (step h s (.start artifacts allowPartial failures)).Sound h := by
  by_cases hrun : ∃ c ∈ s.call, c.phase ≠ .returned
  · have he : step h s (.start artifacts allowPartial failures) = s := if_pos hrun
    rw [he]
    exact hs
  have hidle : ∀ c, s.call = some c → c.phase = .returned :=
    fun c hc => Decidable.not_not.mp fun hp => hrun ⟨c, hc, hp⟩
  cases hb : begin? h s.remote s.disk artifacts allowPartial failures with
  | none =>
    have he : step h s (.start artifacts allowPartial failures) = s := by
      show (if ∃ c ∈ s.call, c.phase ≠ .returned then s else _) = s
      rw [if_neg hrun, hb]
    rw [he]
    exact hs
  | some c =>
    have he : step h s (.start artifacts allowPartial failures) =
        { s with
          disk := { s.disk with identity := some h.campaignId }
          call := some c
          wanted := artifacts } := by
      show (if ∃ c ∈ s.call, c.phase ≠ .returned then s else _) = _
      rw [if_neg hrun, hb]
    rw [he]
    have hc := begin?_eq hb
    refine ⟨fun sid => ?_, fun hcsv _ sid hid hm _ => ?_, fun c' hc' => ?_⟩
    · have hsample := hs.samples sid
      exact ⟨hsample.failedOpen, hsample.completeDone, hsample.whole,
        fun hw hm hbare => ho hw sid hm hbare⟩
    · -- the last call has returned, so nothing was left out
      have hin := hs.tables hcsv
        (fun c' hc' => by rw [hidle c' hc']; exact fun h => nomatch h) sid hid hm
        (fun c' hc' => by rw [Call.busy, hidle c' hc']; exact List.not_mem_nil)
      exact ⟨hin.csv, hin.failed⟩
    · cases hc'
      subst hc
      exact {
        artifacts := rfl
        known := fun sid => sampleStates_known
        listedComplete := fun sid => sampleStates_complete
        listedFailed := fun _ sid => sampleStates_failed
        listed := fun sid hmem => absurd hmem List.not_mem_nil
        handled := fun hne => absurd rfl hne
        phase := trivial }

/-! ## A step of the call -/

theorem bare_of_marked {c : Call} {next : Disk Kpi × Call} {sid : SampleId}
    (hm : Marked (s.disk.files sid)) : (s.after c next).bare sid = s.bare sid :=
  if_pos hm

theorem bare_of_unmarked {c : Call} {next : Disk Kpi × Call} {sid : SampleId}
    (hm : ¬ Marked (s.disk.files sid)) : (s.after c next).bare sid = !c.includeArtifacts :=
  if_neg hm

/-- A sample whose directory is left alone. -/
theorem sample_kept (hs : s.Sound h) (c c' : Call) {d : Disk Kpi} {sid : SampleId}
    (hf : d.files sid = s.disk.files sid) :
    SampleOk s.wanted (s.remote sid) (d.files sid) ((s.after c (d, c')).bare sid) := by
  rw [hf]
  by_cases hm : Marked (s.disk.files sid)
  · rw [bare_of_marked hm]
    exact hs.samples sid
  · exact .of_unmarked hm

/-- The places where the tables are not written. -/
def Calm (p : Phase) : Prop :=
  p ≠ .writeFailed ∧ p ≠ .returned

/-- A step of the call that writes no table: every directory stays or is that of a
sample the call is busy with. -/
theorem move_sound (hs : s.Sound h) {c : Call} (hc : s.call = some c) (hcalm : Calm c.phase)
    {d : Disk Kpi} {fetched : List SampleId} {phase : Phase}
    (htables : d.csv = s.disk.csv ∧ d.failedCsv = s.disk.failedCsv)
    (hfiles : ∀ sid, d.files sid = s.disk.files sid ∨
      sid ∈ (c.moved fetched phase).busy ∧
        SampleOk s.wanted (s.remote sid) (d.files sid)
          ((s.after c (d, c.moved fetched phase)).bare sid))
    (hbusy : ∀ sid ∈ c.busy, sid ∈ (c.moved fetched phase).busy)
    (hlisted : ∀ sid ∈ (c.moved fetched phase).remaining,
      (c.states sid).isSome)
    (hhandled : ∀ sid state, c.states sid = some state →
      sid ∈ (c.moved fetched phase).remaining ∨
        (d.files sid state.marker).isSome)
    (hphase : (s.after c (d, c.moved fetched phase)).PhaseOk h (c.moved fetched phase)) :
    (s.after c (d, c.moved fetched phase)).Sound h := by
  have hok := hs.call c hc
  refine ⟨fun sid => ?_, fun hcsv _ sid hid hm hfree => ?_, fun c' hc' => ?_⟩
  · rcases hfiles sid with hf | ⟨-, hsample⟩
    · exact sample_kept hs c _ hf
    · exact hsample
  · have hnot := hfree _ rfl
    have hcsv' : s.disk.csv.isSome := by
      rw [← htables.1]
      exact hcsv
    rcases hfiles sid with hf | ⟨hmem, -⟩
    · have hm' : Marked (s.disk.files sid) := by
        rw [← hf]
        exact hm
      have hin := hs.tables hcsv'
        (fun c' hc' => by
          rw [hc] at hc'
          cases hc'
          exact hcalm.1) sid hid hm'
        (fun c' hc' hmem => by
          rw [hc] at hc'
          cases hc'
          exact hnot (hbusy sid hmem))
      show InTables h d sid (stateOf (d.files sid))
      rw [hf]
      exact hin.congr htables.1 htables.2 hf
    · exact absurd hmem hnot
  · cases hc'
    exact ⟨hok.artifacts, hok.known, hok.listedComplete, fun _ => hok.listedFailed hcalm.2, hlisted,
      fun _ => hhandled, hphase⟩

/-- A call that has returned stays as it is. -/
theorem returned_sound (hs : s.Sound h) {c : Call} (hc : s.call = some c) :
    (s.after c (s.disk, c)).Sound h := by
  have hok := hs.call c hc
  refine ⟨fun sid => sample_kept hs c c rfl, fun hcsv hph sid hid hm hfree => ?_,
    fun c' hc' => ?_⟩
  · exact hs.tables hcsv (fun c' hc' => hph c' (hc.symm.trans hc' ▸ rfl)) sid hid hm
      fun c' hc' => hfree c' (hc.symm.trans hc' ▸ rfl)
  · cases hc'
    exact ⟨hok.artifacts, hok.known, hok.listedComplete, hok.listedFailed, hok.listed,
      hok.handled, hok.phase⟩

theorem mem_sortedDone {c : Call} {sid : SampleId} :
    sid ∈ sortedDone h c ↔ sid ∈ h.sampleIds ∧ (c.states sid).isSome := by
  rw [sortedDone, List.mem_insertionSort, List.mem_filter, List.mem_dedup]

theorem localMarker_eq {c : Call} {sid : SampleId} {state : SampleState}
    (hst : c.states sid = some state) : c.localMarker sid = state.marker := by
  unfold Call.localMarker
  rw [hst]
  cases state with
  | complete => exact if_pos rfl
  | failed => exact if_neg (fun h => nomatch h)

theorem write_other {d : Disk Kpi} {sid sid' : SampleId} (hne : sid' ≠ sid)
    (rel text : String) : (d.write sid rel text).files sid' = d.files sid' :=
  Function.update_of_ne hne _ _

theorem write_self (d : Disk Kpi) (sid : SampleId) (rel text : String) :
    (d.write sid rel text).files sid = Function.update (d.files sid) rel (some text) :=
  Function.update_self _ _ _

/-- A sample on its turn whose marker is not here has no marker at all. -/
theorem unmarked_of_listed (hs : s.Sound h) {c : Call} (hc : s.call = some c)
    (hrun : c.phase ≠ .returned) {sid : SampleId} {state : SampleState}
    (hst : c.states sid = some state) (hno : ¬ (s.disk.files sid state.marker).isSome) :
    ¬ Marked (s.disk.files sid) := by
  have hok := hs.call c hc
  have hsample := hs.samples sid
  intro hm
  cases state with
  | complete =>
    have hdone := hok.listedComplete sid hst
    rcases hm with hm | hm
    · exact hno hm
    · rw [hsample.failedOpen hm] at hdone
      exact nomatch hdone
  | failed =>
    rcases hm with hm | hm
    · have hdone := hsample.completeDone hm
      rw [hok.listedFailed hrun sid hst] at hdone
      exact nomatch hdone
    · exact hno hm

/-- A sample gets its marker when all that the call selects of it is here. -/
theorem sample_marked (hs : s.Sound h) {c : Call} (hc : s.call = some c)
    (hrun : c.phase ≠ .returned) (c' : Call) {sid : SampleId} {state : SampleState}
    (hst : c.states sid = some state) (hunmarked : ¬ Marked (s.disk.files sid))
    (hall : ∀ rel text, (s.remote sid).get? rel = some text → IsResult rel →
      selected c.includeArtifacts rel = true → s.disk.files sid rel = some text)
    (text : String) :
    SampleOk s.wanted (s.remote sid) ((s.disk.write sid state.marker text).files sid)
      ((s.after c (s.disk.write sid state.marker text, c')).bare sid) := by
  have hok := hs.call c hc
  rw [bare_of_unmarked hunmarked, write_self]
  have hcomplete : s.disk.files sid completeMarker = none :=
    Option.not_isSome_iff_eq_none.mp fun hm => hunmarked (Or.inl hm)
  have hfailed : s.disk.files sid failedMarker = none :=
    Option.not_isSome_iff_eq_none.mp fun hm => hunmarked (Or.inr hm)
  refine ⟨fun hm => ?_, fun hm => ?_, fun _ rel t hget hres hsel => ?_, fun hw _ hbare => ?_⟩
  · cases state with
    | complete =>
      rw [Function.update_of_ne (by decide : failedMarker ≠ SampleState.complete.marker),
        hfailed] at hm
      exact nomatch hm
    | failed => exact hok.listedFailed hrun sid hst
  · cases state with
    | complete => exact hok.listedComplete sid hst
    | failed =>
      rw [Function.update_of_ne (by decide : completeMarker ≠ SampleState.failed.marker),
        hcomplete] at hm
      exact nomatch hm
  · have hne : rel ≠ state.marker := by
      cases state with
      | complete => exact hres.2.1
      | failed => exact hres.2.2
    rw [Function.update_of_ne hne]
    rw [Bool.not_not] at hsel
    exact hall rel t hget hres hsel
  · -- fetched by a call that wants artifacts
    rw [hok.artifacts, hw] at hbare
    exact nomatch hbare

theorem samples_sound (hs : s.Sound h) {c : Call} (hc : s.call = some c)
    (hp : c.phase = .samples) (available : Bool) :
    (s.after c (c.advance h s.remote available s.disk)).Sound h := by
  have hok := hs.call c hc
  have he : c.advance h s.remote available s.disk =
      ({ s.disk with samplesJson := s.disk.samplesJson || available },
        c.moved c.fetched (.loop (sortedDone h c))) := by
    rw [Call.advance, hp]
  rw [he]
  refine move_sound hs hc (by rw [hp]; exact ⟨(fun h => nomatch h), fun h => nomatch h⟩)
    ⟨rfl, rfl⟩ (fun sid => Or.inl rfl) ?_ ?_ ?_ trivial
  · intro sid hmem
    rw [Call.busy, hp] at hmem
    exact hmem
  · intro sid hmem
    exact (mem_sortedDone.mp hmem).2
  · intro sid state hst
    have hsome : (c.states sid).isSome := by
      rw [hst]
      rfl
    exact Or.inl (mem_sortedDone.mpr ⟨hok.known sid hsome, hsome⟩)

/-- The loop is over: a call that fetched nothing returns, if the table is there. -/
theorem loop_nil_sound (hs : s.Sound h) {c : Call} (hc : s.call = some c)
    (hp : c.phase = .loop []) (available : Bool) :
    (s.after c (c.advance h s.remote available s.disk)).Sound h := by
  have hok := hs.call c hc
  have hcalm : Calm c.phase := by
    rw [hp]
    exact ⟨(fun h => nomatch h), fun h => nomatch h⟩
  have hhandled : ∀ sid state, c.states sid = some state →
      (s.disk.files sid state.marker).isSome := by
    intro sid state hst
    rcases hok.handled (by rw [hp]; exact fun h => nomatch h) sid state hst with hmem | hm
    · rw [Call.remaining, hp] at hmem
      exact absurd hmem List.not_mem_nil
    · exact hm
  by_cases hskip : c.fetched = [] ∧ s.disk.csv.isSome
  · have he : c.advance h s.remote available s.disk = (s.disk, c.moved c.fetched .returned) := by
      rw [Call.advance, hp]
      exact if_pos hskip
    rw [he]
    refine move_sound hs hc hcalm ⟨rfl, rfl⟩ (fun sid => Or.inl rfl) ?_
      (fun sid hmem => absurd hmem List.not_mem_nil)
      (fun sid state hst => Or.inr (hhandled sid state hst)) hskip.2
    intro sid hmem
    rw [Call.busy, hp, hskip.1] at hmem
    exact hmem
  · have he : c.advance h s.remote available s.disk = (s.disk, c.moved c.fetched .aggregate) := by
      rw [Call.advance, hp]
      exact if_neg hskip
    rw [he]
    refine move_sound hs hc hcalm ⟨rfl, rfl⟩ (fun sid => Or.inl rfl) ?_
      (fun sid hmem => absurd hmem List.not_mem_nil)
      (fun sid state hst => Or.inr (hhandled sid state hst)) trivial
    intro sid hmem
    rw [Call.busy, hp] at hmem
    exact hmem

theorem write_keeps {d : Disk Kpi} {sid sid' : SampleId} {rel rel' text : String}
    (hsome : (d.files sid' rel').isSome) :
    ((d.write sid rel text).files sid' rel').isSome := by
  by_cases hsid : sid' = sid
  · subst hsid
    rw [write_self]
    by_cases hrel : rel' = rel
    · subst hrel
      rw [Function.update_self]
      rfl
    · rw [Function.update_of_ne hrel]
      exact hsome
  · rw [write_other hsid]
    exact hsome

theorem write_marker {d : Disk Kpi} {sid : SampleId} {rel text : String} :
    ((d.write sid rel text).files sid rel).isSome := by
  rw [write_self, Function.update_self]
  rfl

/-- The samples that had their turn, and this one. -/
theorem handled_after (hok : s.CallOk h c) {sid : SampleId} {todo : List SampleId}
    (hrem : c.remaining = sid :: todo) (hne : c.phase ≠ .samples) {d : Disk Kpi}
    (hkeep : ∀ sid' rel, (s.disk.files sid' rel).isSome → (d.files sid' rel).isSome)
    (hmark : (d.files sid (c.localMarker sid)).isSome) (sid' : SampleId) (state : SampleState)
    (hst : c.states sid' = some state) :
    sid' ∈ todo ∨ (d.files sid' state.marker).isSome := by
  rcases hok.handled hne sid' state hst with hmem | hm
  · rw [hrem] at hmem
    rcases List.mem_cons.mp hmem with he | hmem
    · subst he
      rw [localMarker_eq hst] at hmark
      exact Or.inr hmark
    · exact Or.inl hmem
  · exact Or.inr (hkeep sid' _ hm)

theorem turn_sound (hs : s.Sound h) {c : Call} (hc : s.call = some c) {sid : SampleId}
    {todo : List SampleId} (hp : c.phase = .loop (sid :: todo)) (available : Bool) :
    (s.after c (c.advance h s.remote available s.disk)).Sound h := by
  have hok := hs.call c hc
  have hcalm : Calm c.phase := by
    rw [hp]
    exact ⟨(fun h => nomatch h), fun h => nomatch h⟩
  have hrem : c.remaining = sid :: todo := by rw [Call.remaining, hp]
  have hne : c.phase ≠ .samples := by
    rw [hp]
    exact fun h => nomatch h
  have hbusy : c.busy = c.fetched := by rw [Call.busy, hp]
  have hlisted : ∀ sid' ∈ todo, (c.states sid').isSome := fun sid' hmem =>
    hok.listed sid' (by rw [hrem]; exact List.mem_cons_of_mem _ hmem)
  obtain ⟨state, hst⟩ := Option.isSome_iff_exists.mp
    (hok.listed sid (by rw [hrem]; exact List.mem_cons_self))
  have he : c.advance h s.remote available s.disk = c.turn s.remote s.disk sid todo := by
    rw [Call.advance, hp]
  rw [he]
  unfold Call.turn
  by_cases hmark : (s.disk.files sid (c.localMarker sid)).isSome
  · -- downloaded before
    rw [if_pos hmark]
    exact move_sound hs hc hcalm ⟨rfl, rfl⟩ (fun sid' => Or.inl rfl)
      (fun sid' hmem => by rw [hbusy] at hmem; exact hmem) hlisted
      (handled_after hok hrem hne (fun _ _ hsome => hsome) hmark) trivial
  rw [if_neg hmark]
  rw [localMarker_eq hst] at hmark ⊢
  have hunmarked := unmarked_of_listed hs hc hcalm.2 hst hmark
  have hcopy : ∀ keys, (∀ rel text, (s.remote sid).get? rel = some text → rel ∈ keys) →
      (s.after c (s.disk, c.moved c.fetched (.copy sid keys todo))).Sound h := by
    intro keys hkeys
    refine move_sound hs hc hcalm ⟨rfl, rfl⟩ (fun sid' => Or.inl rfl)
      (fun sid' hmem => ?_) (fun sid' hmem => ?_) (fun sid' state' hst' => ?_)
      ⟨fun hm => absurd hm hunmarked, fun rel text hget _ => Or.inl (hkeys rel text hget)⟩
    · rw [hbusy] at hmem
      exact List.mem_cons_of_mem _ hmem
    · exact hok.listed sid' (by rw [hrem]; exact hmem)
    · have hold := hok.handled hne sid' state' hst'
      rw [hrem] at hold
      exact hold
  cases hf : c.failures sid with
  | none =>
    exact hcopy _ fun rel text hget =>
      (List.mem_insertionSort _).mpr (Dict.mem_keys_of_get? hget)
  | some reason =>
    cases hk : (s.remote sid).keys with
    | cons rel keys =>
      refine hcopy ((rel :: keys).insertionSort (· ≤ ·)) fun rel' text hget => ?_
      rw [← hk]
      exact (List.mem_insertionSort _).mpr (Dict.mem_keys_of_get? hget)
    | nil =>
      -- nothing was uploaded: the marker is all there is
      have hnone : ∀ rel text, (s.remote sid).get? rel = some text → False := by
        intro rel text hget
        have hmem := Dict.mem_keys_of_get? hget
        rw [hk] at hmem
        exact absurd hmem List.not_mem_nil
      refine move_sound hs hc hcalm ⟨rfl, rfl⟩ (fun sid' => ?_) (fun sid' hmem => ?_) hlisted
        (handled_after hok hrem hne (fun _ _ => write_keeps) ?_) trivial
      · by_cases hsid : sid' = sid
        · subst hsid
          exact Or.inr ⟨List.mem_append_right _ List.mem_cons_self,
            sample_marked hs hc hcalm.2 _ hst hunmarked
              (fun rel text hget => (hnone rel text hget).elim) _⟩
        · exact Or.inl (write_other hsid _ _)
      · rw [hbusy] at hmem
        exact List.mem_append_left _ hmem
      · rw [localMarker_eq hst]
        exact write_marker

theorem copies_of_result {c : Call} {sid : SampleId} {rel : String} (hres : IsResult rel)
    (hsel : selected c.includeArtifacts rel = true) : c.copies sid rel = true := by
  obtain ⟨hempty, hcomplete, hfailed⟩ := hres
  simp [Call.copies, hempty, hcomplete, hfailed, hsel]

theorem not_complete_of_copies {c : Call} {sid : SampleId} {rel : String}
    (hcopy : c.copies sid rel = true) :
    rel ≠ completeMarker ∧ (c.states sid = some .complete → rel ≠ failedMarker) := by
  simp only [Call.copies, Bool.and_eq_true, bne_iff_ne, Bool.not_eq_true'] at hcopy
  refine ⟨hcopy.1.1.2, fun hst hrel => ?_⟩
  have hno := hcopy.1.2
  rw [hst, hrel] at hno
  simp at hno

/-- The last object was copied: the marker is made sure of. -/
theorem copied_sound (hs : s.Sound h) {c : Call} (hc : s.call = some c) {sid : SampleId}
    {todo : List SampleId} (hp : c.phase = .copy sid [] todo) (available : Bool) :
    (s.after c (c.advance h s.remote available s.disk)).Sound h := by
  have hok := hs.call c hc
  have hcalm : Calm c.phase := by
    rw [hp]
    exact ⟨(fun h => nomatch h), fun h => nomatch h⟩
  have hrem : c.remaining = sid :: todo := by rw [Call.remaining, hp]
  have hne : c.phase ≠ .samples := by
    rw [hp]
    exact fun h => nomatch h
  have hbusy : c.busy = sid :: c.fetched := by rw [Call.busy, hp]
  have hlisted : ∀ sid' ∈ todo, (c.states sid').isSome := fun sid' hmem =>
    hok.listed sid' (by rw [hrem]; exact List.mem_cons_of_mem _ hmem)
  obtain ⟨state, hst⟩ := Option.isSome_iff_exists.mp
    (hok.listed sid (by rw [hrem]; exact List.mem_cons_self))
  have hphase := hok.phase
  rw [PhaseOk, hp] at hphase
  by_cases hmark : (s.disk.files sid (c.localMarker sid)).isSome
  · have he : c.advance h s.remote available s.disk =
        (s.disk, c.moved c.fetched (.reason sid todo)) := by
      rw [Call.advance, hp]
      exact if_pos hmark
    rw [he]
    refine move_sound hs hc hcalm ⟨rfl, rfl⟩ (fun sid' => Or.inl rfl)
      (fun sid' hmem => by rw [hbusy] at hmem; exact hmem) hlisted
      (handled_after hok hrem hne (fun _ _ hsome => hsome) hmark) ⟨state, hst, ?_⟩
    rw [localMarker_eq hst] at hmark
    exact hmark
  · have he : c.advance h s.remote available s.disk =
        (s.disk.write sid state.marker "", c.moved c.fetched (.reason sid todo)) := by
      rw [Call.advance, hp, ← localMarker_eq hst]
      exact if_neg hmark
    rw [he]
    rw [localMarker_eq hst] at hmark
    have hunmarked := unmarked_of_listed hs hc hcalm.2 hst hmark
    refine move_sound hs hc hcalm ⟨rfl, rfl⟩ (fun sid' => ?_)
      (fun sid' hmem => by rw [hbusy] at hmem; exact hmem) hlisted
      (handled_after hok hrem hne (fun _ _ => write_keeps) ?_) ⟨state, hst, write_marker⟩
    · by_cases hsid : sid' = sid
      · subst hsid
        refine Or.inr ⟨List.mem_cons_self, sample_marked hs hc hcalm.2 _ hst hunmarked ?_ _⟩
        intro rel text hget hres hsel
        rcases hphase.2 rel text hget (copies_of_result hres hsel) with hmem | hhere
        · exact absurd hmem List.not_mem_nil
        · exact hhere
      · exact Or.inl (write_other hsid _ _)
    · rw [localMarker_eq hst]
      exact write_marker

/-- One object copied, or passed over. -/
theorem copy_sound (hs : s.Sound h) {c : Call} (hc : s.call = some c) {sid : SampleId}
    {rel : String} {keys : List String} {todo : List SampleId}
    (hp : c.phase = .copy sid (rel :: keys) todo) (ha : s.AdvanceOk c) (available : Bool) :
    (s.after c (c.advance h s.remote available s.disk)).Sound h := by
  have hok := hs.call c hc
  have hcalm : Calm c.phase := by
    rw [hp]
    exact ⟨(fun h => nomatch h), fun h => nomatch h⟩
  have hrem : c.remaining = sid :: todo := by rw [Call.remaining, hp]
  have hne : c.phase ≠ .samples := by
    rw [hp]
    exact fun h => nomatch h
  have hbusy : c.busy = sid :: c.fetched := by rw [Call.busy, hp]
  have hlisted : ∀ sid' ∈ sid :: todo, (c.states sid').isSome := fun sid' hmem =>
    hok.listed sid' (by rw [hrem]; exact hmem)
  have hhandled := hok.handled hne
  rw [hrem] at hhandled
  obtain ⟨state, hst⟩ := Option.isSome_iff_exists.mp (hlisted sid List.mem_cons_self)
  have hphase := hok.phase
  rw [PhaseOk, hp] at hphase
  rw [AdvanceOk, hp] at ha
  have hpass : (∀ text, c.copies sid rel = true → (s.remote sid).get? rel ≠ some text) →
      (s.after c (s.disk, c.moved c.fetched (.copy sid keys todo))).Sound h := by
    intro hno
    refine move_sound hs hc hcalm ⟨rfl, rfl⟩ (fun sid' => Or.inl rfl)
      (fun sid' hmem => by rw [hbusy] at hmem; exact hmem) hlisted hhandled
      ⟨fun hm => ?_, fun rel' text hget hcopy => ?_⟩
    · obtain ⟨hf, hfail, hnone⟩ := hphase.1 hm
      exact ⟨hf, hfail, fun rel' hmem => hnone rel' (List.mem_cons_of_mem _ hmem)⟩
    · rcases hphase.2 rel' text hget hcopy with hmem | hhere
      · rcases List.mem_cons.mp hmem with he | hmem
        · subst he
          exact absurd hget (hno text hcopy)
        · exact Or.inl hmem
      · exact Or.inr hhere
  cases hcopy : c.copies sid rel with
  | false =>
    have he : c.advance h s.remote available s.disk =
        (s.disk, c.moved c.fetched (.copy sid keys todo)) := by
      rw [Call.advance, hp]
      dsimp only
      rw [hcopy]
    rw [he]
    exact hpass fun text htrue => by rw [hcopy] at htrue; exact nomatch htrue
  | true =>
    cases hget : (s.remote sid).get? rel with
    | none =>
      have he : c.advance h s.remote available s.disk =
          (s.disk, c.moved c.fetched (.copy sid keys todo)) := by
        rw [Call.advance, hp]
        dsimp only
        rw [hcopy, hget]
      rw [he]
      exact hpass fun text _ => by rw [hget]; exact fun h => nomatch h
    | some text =>
      have he : c.advance h s.remote available s.disk =
          (s.disk.write sid rel text, c.moved c.fetched (.copy sid keys todo)) := by
        rw [Call.advance, hp]
        dsimp only
        rw [hcopy, hget]
      rw [he]
      have hunmarked : ¬ Marked (s.disk.files sid) := by
        intro hm
        have hno := (hphase.1 hm).2.2 rel List.mem_cons_self
        rw [hcopy] at hno
        exact nomatch hno
      have hkeys : ∀ rel' text', (s.remote sid).get? rel' = some text' →
          c.copies sid rel' = true →
          rel' ∈ keys ∨ (s.disk.write sid rel text).files sid rel' = some text' := by
        intro rel' text' hget' hcopy'
        rw [write_self]
        by_cases hrel : rel' = rel
        · subst hrel
          rw [hget] at hget'
          rw [Function.update_self]
          exact Or.inr hget'
        · rw [Function.update_of_ne hrel]
          rcases hphase.2 rel' text' hget' hcopy' with hmem | hhere
          · exact Or.inl ((List.mem_cons.mp hmem).resolve_left hrel)
          · exact Or.inr hhere
      have hnotcomplete := not_complete_of_copies hcopy
      by_cases hrel : rel = failedMarker
      · -- the failure marker: nothing is left to copy
        have hfail : c.states sid = some .failed := by
          cases state with
          | complete => exact absurd hrel (hnotcomplete.2 hst)
          | failed => exact hst
        have hnone := ha hrel hcopy
        have hall : ∀ rel' text', (s.remote sid).get? rel' = some text' → IsResult rel' →
            selected c.includeArtifacts rel' = true → s.disk.files sid rel' = some text' := by
          intro rel' text' hget' hres hsel
          have hcopy' : c.copies sid rel' = true := copies_of_result hres hsel
          rcases hphase.2 rel' text' hget' hcopy' with hmem | hhere
          · rcases List.mem_cons.mp hmem with he | hmem
            · exact absurd (he.trans hrel) hres.2.2
            · rw [hnone rel' hmem] at hcopy'
              exact nomatch hcopy'
          · exact hhere
        subst hrel
        refine move_sound hs hc hcalm ⟨rfl, rfl⟩ (fun sid' => ?_)
          (fun sid' hmem => by rw [hbusy] at hmem; exact hmem) hlisted
          (fun sid' state' hst' => (hhandled sid' state' hst').imp_right write_keeps)
          ⟨fun _ => ⟨write_marker, hfail, hnone⟩, hkeys⟩
        by_cases hsid : sid' = sid
        · subst hsid
          exact Or.inr ⟨List.mem_cons_self,
            sample_marked hs hc hcalm.2 _ hfail hunmarked hall text⟩
        · exact Or.inl (write_other hsid _ _)
      · -- a result file: the sample stays unmarked
        have hstill : ¬ Marked ((s.disk.write sid rel text).files sid) := by
          rw [write_self]
          intro hm
          rcases hm with hm | hm
          · rw [Function.update_of_ne (Ne.symm hnotcomplete.1)] at hm
            exact hunmarked (Or.inl hm)
          · rw [Function.update_of_ne (Ne.symm hrel)] at hm
            exact hunmarked (Or.inr hm)
        refine move_sound hs hc hcalm ⟨rfl, rfl⟩ (fun sid' => ?_)
          (fun sid' hmem => by rw [hbusy] at hmem; exact hmem) hlisted
          (fun sid' state' hst' => (hhandled sid' state' hst').imp_right write_keeps)
          ⟨fun hm => absurd hm hstill, hkeys⟩
        by_cases hsid : sid' = sid
        · subst hsid
          exact Or.inr ⟨List.mem_cons_self, .of_unmarked hstill⟩
        · exact Or.inl (write_other hsid _ _)

/-- A failure marker filled in keeps its sample as it is. -/
theorem sample_refilled (hs : s.Sound h) (c c' : Call) {sid : SampleId}
    (hf : (s.disk.files sid failedMarker).isSome) (text : String) :
    SampleOk s.wanted (s.remote sid) ((s.disk.write sid failedMarker text).files sid)
      ((s.after c (s.disk.write sid failedMarker text, c')).bare sid) := by
  have hm : Marked (s.disk.files sid) := Or.inr hf
  have hsample := hs.samples sid
  rw [bare_of_marked hm, write_self]
  refine ⟨fun _ => hsample.failedOpen hf, fun hc => ?_, fun _ rel t hget hres hsel => ?_,
    fun hw _ => hsample.plain hw hm⟩
  · rw [Function.update_of_ne (by decide)] at hc
    exact hsample.completeDone hc
  · rw [Function.update_of_ne hres.2.2]
    exact hsample.whole hm rel t hget hres hsel

theorem reason_sound (hs : s.Sound h) {c : Call} (hc : s.call = some c) {sid : SampleId}
    {todo : List SampleId} (hp : c.phase = .reason sid todo) (available : Bool) :
    (s.after c (c.advance h s.remote available s.disk)).Sound h := by
  have hok := hs.call c hc
  have hcalm : Calm c.phase := by
    rw [hp]
    exact ⟨(fun h => nomatch h), fun h => nomatch h⟩
  have hrem : c.remaining = todo := by rw [Call.remaining, hp]
  have hbusy : ∀ sid' ∈ c.busy, sid' ∈ c.fetched ++ [sid] := by
    intro sid' hmem
    rw [Call.busy, hp] at hmem
    rcases List.mem_cons.mp hmem with he | hmem
    · rw [he]
      exact List.mem_append_right _ List.mem_cons_self
    · exact List.mem_append_left _ hmem
  have hlisted := hok.listed
  have hhandled := hok.handled (by rw [hp]; exact fun h => nomatch h)
  rw [hrem] at hlisted hhandled
  have hstay : (s.after c (s.disk, c.moved (c.fetched ++ [sid]) (.loop todo))).Sound h :=
    move_sound hs hc hcalm ⟨rfl, rfl⟩ (fun sid' => Or.inl rfl) hbusy hlisted hhandled trivial
  have hfill : (s.disk.files sid failedMarker).isSome → ∀ text,
      (s.after c (s.disk.write sid failedMarker text,
        c.moved (c.fetched ++ [sid]) (.loop todo))).Sound h := by
    intro hf text
    refine move_sound hs hc hcalm ⟨rfl, rfl⟩ (fun sid' => ?_) hbusy hlisted
      (fun sid' state hst => (hhandled sid' state hst).imp_right write_keeps) trivial
    by_cases hsid : sid' = sid
    · subst hsid
      exact Or.inr ⟨List.mem_append_right _ List.mem_cons_self, sample_refilled hs c _ hf text⟩
    · exact Or.inl (write_other hsid _ _)
  rw [Call.advance, hp]
  dsimp only
  split
  · next reason text _ _ htext =>
    split
    · exact hfill (by rw [htext]; rfl) _
    · exact hstay
  · exact hstay

theorem mem_csvRows {c : Call} {files : SampleId → Dir} {sid : SampleId} {kpi : Kpi} :
    (sid, kpi) ∈ csvRows h c files ↔ sid ∈ h.sampleIds ∧ ∃ state, c.states sid = some state ∧
      kpiRow h.readers (files sid) state = some kpi := by
  unfold csvRows
  rw [List.mem_filterMap]
  constructor
  · intro hmem
    obtain ⟨sid', hid, hrow⟩ := hmem
    obtain ⟨state, hst, hrow⟩ := Option.bind_eq_some_iff.mp hrow
    obtain ⟨kpi', hk, he⟩ := Option.map_eq_some_iff.mp hrow
    cases he
    exact ⟨hid, state, hst, hk⟩
  · intro hmem
    obtain ⟨hid, state, hst, hk⟩ := hmem
    exact ⟨sid, hid, Option.bind_eq_some_iff.mpr
      ⟨state, hst, Option.map_eq_some_iff.mpr ⟨kpi, hk, rfl⟩⟩⟩

/-- The first table is written: every sample marked here is in it. -/
theorem aggregate_sound (hs : s.Sound h) {c : Call} (hc : s.call = some c)
    (hp : c.phase = .aggregate) (ha : s.AdvanceOk c) (available : Bool) :
    (s.after c (c.advance h s.remote available s.disk)).Sound h := by
  have hok := hs.call c hc
  rw [AdvanceOk, hp] at ha
  have hrem : c.remaining = [] := by rw [Call.remaining, hp]
  have hhandled := hok.handled (by rw [hp]; exact fun h => nomatch h)
  rw [hrem] at hhandled
  have he : c.advance h s.remote available s.disk =
      ({ s.disk with csv := some ⟨s.disk.samplesJson, csvRows h c s.disk.files⟩ },
        c.moved c.fetched .writeFailed) := by
    rw [Call.advance, hp]
  rw [he]
  refine ⟨fun sid => sample_kept hs c _ rfl, fun _ hph => absurd rfl (hph _ rfl),
    fun c' hc' => ?_⟩
  cases hc'
  exact ⟨hok.artifacts, hok.known, hok.listedComplete,
    fun _ => hok.listedFailed (by rw [hp]; exact fun h => nomatch h),
    fun sid hmem => absurd hmem List.not_mem_nil, fun _ => hhandled, ⟨⟨_, rfl, rfl⟩, ha⟩⟩

/-- Both tables are written. -/
theorem writeFailed_sound (hs : s.Sound h) {c : Call} (hc : s.call = some c)
    (hp : c.phase = .writeFailed) (available : Bool) :
    (s.after c (c.advance h s.remote available s.disk)).Sound h := by
  have hok := hs.call c hc
  have hphase := hok.phase
  rw [PhaseOk, hp] at hphase
  obtain ⟨⟨csv, hcsv, hrows⟩, hall⟩ := hphase
  have hrem : c.remaining = [] := by rw [Call.remaining, hp]
  have hhandled := hok.handled (by rw [hp]; exact fun h => nomatch h)
  rw [hrem] at hhandled
  have he : c.advance h s.remote available s.disk =
      ({ s.disk with failedCsv := some (failedRows h c s.disk.files) },
        c.moved c.fetched .returned) := by
    rw [Call.advance, hp]
  rw [he]
  refine ⟨fun sid => sample_kept hs c _ rfl, fun _ _ sid hid hm _ => ?_, fun c' hc' => ?_⟩
  · have hmarked : Marked (s.disk.files sid) := hm
    obtain ⟨state, hst⟩ := Option.isSome_iff_exists.mp (hall sid hmarked)
    have hmark := (hhandled sid state hst).resolve_left List.not_mem_nil
    show InTables h _ sid (stateOf (s.disk.files sid))
    rw [(hs.samples sid).stateOf_eq hmark]
    refine ⟨⟨csv, hcsv, fun kpi => ?_⟩, ⟨_, rfl, ?_⟩⟩
    · rw [hrows, mem_csvRows]
      constructor
      · intro hrow
        obtain ⟨-, state', hst', hk⟩ := hrow
        rw [hst] at hst'
        cases hst'
        exact hk
      · intro hk
        exact ⟨hid, state, hst, hk⟩
    · rw [failedRows, List.mem_filter, hst]
      show sid ∈ h.sampleIds ∧ extractFailure h.readers (s.disk.files sid) = true ↔ _
      exact ⟨fun hrow => hrow.2, fun hf => ⟨hid, hf⟩⟩
  · cases hc'
    refine ⟨hok.artifacts, hok.known, hok.listedComplete, fun hne => absurd rfl hne,
      fun sid hmem => absurd hmem List.not_mem_nil, fun _ => hhandled, ?_⟩
    show s.disk.csv.isSome
    rw [hcsv]
    rfl

theorem advance_sound (hs : s.Sound h) {available : Bool}
    (ho : Orderly s (.advance available)) : (step h s (.advance available)).Sound h := by
  cases hc : s.call with
  | none =>
    have he : step h s (.advance available) = s := by
      rw [step, hc]
    rw [he]
    exact hs
  | some c =>
    have he : step h s (.advance available) =
        s.after c (c.advance h s.remote available s.disk) := by
      rw [step, hc]
    rw [he]
    cases hp : c.phase with
    | samples => exact samples_sound hs hc hp available
    | loop todo =>
      cases todo with
      | nil => exact loop_nil_sound hs hc hp available
      | cons sid todo => exact turn_sound hs hc hp available
    | copy sid keys todo =>
      cases keys with
      | nil => exact copied_sound hs hc hp available
      | cons rel keys => exact copy_sound hs hc hp (ho c hc) available
    | reason sid todo => exact reason_sound hs hc hp available
    | aggregate => exact aggregate_sound hs hc hp (ho c hc) available
    | writeFailed => exact writeFailed_sound hs hc hp available
    | returned =>
      have hstay : c.advance h s.remote available s.disk = (s.disk, c) := by
        rw [Call.advance, hp]
      rw [hstay]
      exact returned_sound hs hc

theorem step_sound (hs : s.Sound h) (e : Event) (ho : Orderly s e) : (step h s e).Sound h := by
  cases e with
  | upload sid rel text => exact upload_sound hs ho
  | start artifacts allowPartial failures => exact start_sound hs ho
  | advance available => exact advance_sound hs ho
  | crash => exact crash_sound hs ho

/-- In a run whose steps do no harm, in every state the marked samples are whole and,
when a call has returned, both tables have what it found done. -/
theorem download_sound (h : Handoff Kpi) (remote : Remote) (identity : Option String)
    {es : List Event} (ho : Along (step h) Orderly (fresh remote identity) es) :
    Always (step h) (fun s => s.MarkedWhole ∧ s.Reflected h) (fresh remote identity) es :=
  Always.mono (step h) (fun _ hs => ⟨hs.markedWhole, hs.reflected⟩)
    (Along.always (step h) (I := Sound h) (fun _ e hs ho => step_sound hs e ho)
      (fresh_sound h remote identity) ho)

/-! ## Runs -/

/-- A campaign of one sample. -/
def oneSample : Handoff Unit :=
  ⟨"sweep", ["0001"], ⟨fun _ => false, fun _ => false, fun _ => some ()⟩⟩

/-- The worker's uploads, then a download from its start to its return. -/
def plainRun : List Event :=
  .upload "0001" "eplusout.sql" "db" :: .upload "0001" completeMarker "" ::
    .start false false (fun _ => none) :: List.replicate 9 (.advance true)

/-- A directory that holds the database only. -/
def databaseOnly : Dir :=
  Function.update (fun _ => none) "eplusout.sql" (some "db")

theorem plainRun_orderly : Along (step oneSample) Orderly (fresh (fun _ => ∅) none) plainRun := by
  refine ⟨⟨rfl, fun _ h => nomatch h⟩, ⟨rfl, fun _ h => nomatch h⟩, (fun h => nomatch h),
    fun c hc => ?_, fun c hc => ?_, fun c hc => ?_, fun c hc => ?_, fun c hc => ?_,
    fun c hc => ?_, fun c hc => ?_, fun c hc => ?_, fun c hc => ?_, trivial⟩
  all_goals cases hc
  · trivial
  · trivial
  · exact fun h => absurd h (by decide)
  · exact fun h => absurd h (by decide)
  · trivial
  · trivial
  · trivial
  · intro sid hm
    by_cases hsid : sid = "0001"
    · subst hsid
      rfl
    · -- nothing was written for another sample
      change Marked (Function.update (Function.update (fun _ _ => none) "0001" databaseOnly)
        "0001" (Function.update databaseOnly completeMarker (some "")) sid) at hm
      rw [Function.update_of_ne hsid, Function.update_of_ne hsid] at hm
      rcases hm with hm | hm <;> exact nomatch hm
  · trivial

theorem plainRun_sound :
    Always (step oneSample) (fun s => s.MarkedWhole ∧ s.Reflected oneSample)
      (fresh (fun _ => ∅) none) plainRun :=
  download_sound oneSample (fun _ => ∅) none plainRun_orderly

/-- A failed sample with its diagnostics, and a download that crashes at the second object. -/
def failedRun : List Event :=
  [.upload "0001" "out.osw" "Fail", .upload "0001" failedMarker "",
    .start false false (fun _ => none), .advance true, .advance true, .advance true, .crash]

/-- A download before anything is done, then one that crashes at the marker, then a third. -/
def earlyRun : List Event :=
  .start false true (fun _ => none) :: List.replicate 4 (.advance true) ++
    .upload "0001" "eplusout.sql" "db" :: .upload "0001" completeMarker "" ::
    .start false false (fun _ => none) :: List.replicate 5 (.advance true) ++
    .crash :: .start false false (fun _ => none) :: List.replicate 3 (.advance true)

/-- The failure marker is here before the diagnostics; and a table without the sample
stays as it is, for a marker is here and nothing is fetched. -/
theorem marker_before_files :
    ¬ Always (step oneSample) MarkedWhole (fresh (fun _ => ∅) none) failedRun ∧
      ¬ Always (step oneSample) (Reflected oneSample) (fresh (fun _ => ∅) none) earlyRun := by
  refine ⟨fun hrun => ?_, fun hrun => ?_⟩
  · have hwhole : MarkedWhole (run (step oneSample) (fresh (fun _ => ∅) none) failedRun) :=
      Always.last (step oneSample) hrun
    have hsome := hwhole "0001" (Or.inr rfl) "out.osw" "Fail" rfl
      ⟨by decide, by decide, by decide⟩ rfl
    exact nomatch hsome
  · have hreflected : Reflected oneSample (run (step oneSample) (fresh (fun _ => ∅) none) earlyRun) :=
      Always.last (step oneSample) hrun
    have hin := (hreflected _ rfl rfl "0001" List.mem_cons_self .complete rfl).2
    obtain ⟨csv, hcsv, hrows⟩ := hin.csv
    have hempty : some (⟨true, []⟩ : Csv Unit) = some csv := hcsv
    cases hempty
    exact absurd ((hrows ()).mpr rfl) List.not_mem_nil

end Session

end OSimFlow.Detached
