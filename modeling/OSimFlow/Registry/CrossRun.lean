import OSimFlow.Json
import OSimFlow.Lib.Run
import OSimFlow.Lib.Separator
import OSimFlow.Lib.Succeeds

/-!
# Campaigns side by side

The aggregator registers directories, each with a label or none, and loads the tables of
the registered directories into a dictionary by label: two directories with one label are
one entry there. The dictionary is loaded once and is not emptied when a campaign is
registered or removed. A row gets its label and its sample id, joined by an underscore, as
its global id. The endpoint that compares directories loads them the same way, and looks
each of them up under the stem of its path first.

> `apart_of_good`: in every run where the aggregator aggregates while what it has loaded is
> what is registered, each campaign is in the table once and the global ids tell the rows
> apart, if no two readable directories have one label and no sample id reads like the end
> of another label; a comparison has the statistics of each directory, if no other
> directory is labelled like it or like its stem.

Two campaigns are one if the directory and the label are.
-/

namespace OSimFlow.Registry.CrossRun

open OSimFlow.Lib (Dict Along Always append_char_eq_iff ne_append_char)

variable {P F : Type} [DecidableEq P]

/-! ## Directories -/

/-- A table as it is read from a file. -/
structure Table (F : Type) where
  columns : List String
  rows : List (Dict String (Json F))

/-- What there is to read in `run.json`. -/
inductive RunJson (F : Type) where
  | missing
  /-- It cannot be opened, or is no JSON. -/
  | invalid
  /-- It is no UTF-8, which raises another `ValueError`. -/
  | undecodable
  /-- It is JSON, but no object. -/
  | notObject
  | object (campaignId : Option (Json F))

/-- The directories, with what Python and pandas make of them. -/
structure Disk (P F : Type) where
  stem : P → String
  runJson : P → RunJson F
  /-- `pd.read_csv`, where the file is there and can be read. -/
  readCsv : P → Option (Table F)
  /-- `bool(v)` -/
  truthy : Json F → Bool
  /-- `str(v)` -/
  str : Json F → String

variable (disk : Disk P F)

/-- `_resolve_label`. -/
def resolveLabel (outdir : P) : String :=
  match disk.runJson outdir with
  | .object (some cid) => if disk.truthy cid then disk.str cid else disk.stem outdir
  | _ => disk.stem outdir

/-- `label_hint or self._resolve_label(outdir)`. -/
def labelOf (outdir : P) (labelHint : Option String) : String :=
  match labelHint with
  | none => resolveLabel disk outdir
  | some label => if label = "" then resolveLabel disk outdir else label

/-- A table with a column of sample ids. -/
def withSampleIds (df : Table F) : Table F :=
  if "sample_id" ∈ df.columns then df
  else if "Unnamed: 0" ∈ df.columns then
    let name (c : String) := if c = "Unnamed: 0" then "sample_id" else c
    { columns := df.columns.map name
      rows := df.rows.map fun row => Dict.update ∅ (row.items.map fun cell => (name cell.1, cell.2)) }
  else
    { columns := "sample_id" :: df.columns
      rows := df.rows.mapIdx fun i row => Dict.update ∅ (("sample_id", .int i) :: row.items) }

/-- `_load_csv`. -/
def loadCsv (outdir : P) : Option (Table F) := (disk.readCsv outdir).map withSampleIds

/-! ## The aggregator -/

/-- `CampaignRunData`. -/
structure CampaignRunData (P F : Type) where
  outdir : P
  label : String
  df : Table F
  nSamples : Nat

/-- The registered campaigns, what is loaded, and the table that was combined from it. -/
structure CrossRunAggregator (P F : Type) where
  campaigns : List (P × Option String)
  runs : Dict String (CampaignRunData P F)
  combinedDf : Option (List (Dict String (Json F)))

/-- The aggregator as it is constructed. -/
def CrossRunAggregator.new (campaigns : List (P × Option String)) : CrossRunAggregator P F :=
  ⟨campaigns, ∅, none⟩

/-- What `load` files, campaign by campaign. -/
def loadOne (runs : Dict String (CampaignRunData P F)) (campaign : P × Option String) :
    Dict String (CampaignRunData P F) :=
  match loadCsv disk campaign.1 with
  | none => runs
  | some df =>
    let label := labelOf disk campaign.1 campaign.2
    runs.set label ⟨campaign.1, label, df, df.rows.length⟩

def loadRuns (campaigns : List (P × Option String)) : Dict String (CampaignRunData P F) :=
  campaigns.foldl (loadOne disk) ∅

/-- The text of the sample id of a row. -/
def sampleId (row : Dict String (Json F)) : String :=
  disk.str ((row.get? "sample_id").getD .null)

def globalSampleId (label : String) (row : Dict String (Json F)) : String :=
  label ++ "_" ++ sampleId disk row

/-- The columns that `aggregate` adds. -/
def annotate (label : String) (row : Dict String (Json F)) : Dict String (Json F) :=
  (row.set "campaign" (.str label)).set "global_sample_id" (.str (globalSampleId disk label row))

/-- `pd.concat` of the tables that are loaded, row by row. -/
def combine (runs : Dict String (CampaignRunData P F)) : List (Dict String (Json F)) :=
  runs.items.flatMap fun run => run.2.df.rows.map (annotate disk run.1)

namespace CrossRunAggregator

variable (s : CrossRunAggregator P F)

/-- `add_campaign`. -/
def addCampaign (outdir : P) (label : Option String) : CrossRunAggregator P F :=
  { s with campaigns := s.campaigns ++ [(outdir, label)], combinedDf := none }

/-- `remove_campaign`. -/
def removeCampaign (label : String) : CrossRunAggregator P F :=
  let campaigns := s.campaigns.filter fun campaign => campaign.2 ≠ some label
  if campaigns.length < s.campaigns.length then
    { s with campaigns := campaigns, combinedDf := none }
  else { s with campaigns := campaigns }

/-- `load`. -/
def load : CrossRunAggregator P F := { s with runs := loadRuns disk s.campaigns }

/-- `if not self._runs: self.load()`. -/
def loaded : CrossRunAggregator P F := if s.runs.items.isEmpty then s.load disk else s

/-- `aggregate`, with the aggregator that it leaves. -/
def aggregate : CrossRunAggregator P F × List (Dict String (Json F)) :=
  let s := s.loaded disk
  let combined := combine disk s.runs
  ({ s with combinedDf := some combined }, combined)

end CrossRunAggregator

/-! ## The endpoint -/

/-- What is raised on the way. -/
inductive Raised where
  | valueError
  | attributeError
  | validationError
  | httpException (status : Nat) (detail : String)

/-- `CampaignComparisonEntry`; the statistics of a directory that is found. -/
structure CampaignComparisonEntry (P S : Type) where
  identifier : P
  campaignId : Option String
  found : Option (Nat × S)

/-- The `campaign_id` of an entry. -/
def entryId (outdir : P) : Except Raised (Option String) :=
  match disk.runJson outdir with
  | .missing | .invalid => .ok (some (disk.stem outdir))
  | .undecodable => .error .valueError
  | .notObject => .error .attributeError
  | .object none => .ok (some (disk.stem outdir))
  | .object (some .null) => .ok none
  | .object (some (.str cid)) => .ok (some cid)
  | .object (some _) => .error .validationError

/-- The run that the endpoint takes for a directory. -/
def runOf (runs : Dict String (CampaignRunData P F)) (outdir : P) :
    Option (CampaignRunData P F) :=
  match runs.get? (disk.stem outdir) with
  | some run => some run
  | none => runs.values.find? fun run => run.outdir = outdir

/-- `compare_campaigns_get`, from the directories on that it has resolved; `kpiStats` are the
statistics of the columns of a table. -/
def compareCampaignsGet {S : Type} (kpiStats : Table F → S) (outdirs : List P) :
    Except Raised (List (CampaignComparisonEntry P S)) :=
  if outdirs.length < 2 then
    .error (.httpException 400 "At least two campaign directories are required")
  else
    let runs := loadRuns disk (outdirs.map fun outdir => (outdir, none))
    outdirs.mapM fun outdir => do
      let campaignId ← entryId disk outdir
      return ⟨outdir, campaignId,
        (runOf disk runs outdir).map fun run => (run.nSamples, kpiStats run.df)⟩

/-! ## Runs -/

/-- A call on the aggregator, or a request that compares directories. -/
inductive Event (P : Type) where
  | addCampaign (outdir : P) (label : Option String)
  | removeCampaign (label : String)
  | load
  | aggregate
  | compare (outdirs : List P)

def step (s : CrossRunAggregator P F) : Event P → CrossRunAggregator P F
  | .addCampaign outdir label => s.addCampaign outdir label
  | .removeCampaign label => s.removeCampaign label
  | .load => s.load disk
  | .aggregate => (s.aggregate disk).1
  | .compare _ => s

/-- The campaigns that are registered and can be read. -/
def registered (campaigns : List (P × Option String)) : List (P × String) :=
  (campaigns.map fun campaign => (campaign.1, labelOf disk campaign.1 campaign.2)).dedup.filter
    fun campaign => (loadCsv disk campaign.1).isSome

/-- The rows of a directory. -/
def rowsIn (outdir : P) : List (Dict String (Json F)) :=
  ((loadCsv disk outdir).map Table.rows).getD []

/-- The rows that the combined table is to have. -/
def expected (campaigns : List (P × Option String)) : List (Dict String (Json F)) :=
  (registered disk campaigns).flatMap fun campaign =>
    (rowsIn disk campaign.1).map (annotate disk campaign.2)

/-- The table has every row of every registered campaign once and no other, and the global
id tells campaigns and sample ids apart. -/
structure Apart (campaigns : List (P × Option String)) (table : List (Dict String (Json F))) :
    Prop where
  complete : table.Perm (expected disk campaigns)
  distinct : ∀ c ∈ registered disk campaigns, ∀ c' ∈ registered disk campaigns,
    ∀ row ∈ rowsIn disk c.1, ∀ row' ∈ rowsIn disk c'.1,
      globalSampleId disk c.2 row = globalSampleId disk c'.2 row' →
        c = c' ∧ sampleId disk row = sampleId disk row'

variable {S : Type} (kpiStats : Table F → S)

/-- An entry has the statistics of its own directory. -/
def Own (entry : CampaignComparisonEntry P S) : Prop :=
  entry.found = (loadCsv disk entry.identifier).map fun df => (df.rows.length, kpiStats df)

/-- What an event is to do. -/
def Right (s : CrossRunAggregator P F) : Event P → Prop
  | .aggregate => Apart disk s.campaigns (s.aggregate disk).2
  | .compare outdirs => ∀ entries, compareCampaignsGet disk kpiStats outdirs = .ok entries →
      ∀ entry ∈ entries, Own disk kpiStats entry
  | _ => True

/-- Nothing is loaded, or what is registered. -/
def Fresh (s : CrossRunAggregator P F) : Prop :=
  s.runs.items = [] ∨ ∀ label, s.runs.get? label = (loadRuns disk s.campaigns).get? label

/-- No two registered campaigns have one label. -/
def Labelled (campaigns : List (P × Option String)) : Prop :=
  ∀ c ∈ registered disk campaigns, ∀ c' ∈ registered disk campaigns, c.2 = c'.2 → c = c'

/-- `label'` goes on behind `label` as `sid` begins, and both end in `sid'`. -/
def Splits (label label' sid sid' : String) : Prop :=
  ∃ x, label' = label ++ "_" ++ x ∧ sid = x ++ "_" ++ sid'

/-- No sample id begins with what another label has behind the label of its campaign. -/
def Unmixed (campaigns : List (P × Option String)) : Prop :=
  ∀ c ∈ registered disk campaigns, ∀ c' ∈ registered disk campaigns,
    ∀ row ∈ rowsIn disk c.1, ∀ row' ∈ rowsIn disk c'.1,
      ¬ Splits c.2 c'.2 (sampleId disk row) (sampleId disk row')

/-- No directory has the label of another one that can be read, or is named like it. -/
def Recognised (outdirs : List P) : Prop :=
  ∀ d ∈ outdirs, ∀ d' ∈ outdirs, (loadCsv disk d').isSome → d' ≠ d →
    resolveLabel disk d' ≠ disk.stem d ∧
      ((loadCsv disk d).isSome → resolveLabel disk d' ≠ resolveLabel disk d)

/-- The events that go well. -/
def Good (s : CrossRunAggregator P F) : Event P → Prop
  | .aggregate => Fresh disk s ∧ Labelled disk s.campaigns ∧ Unmixed disk s.campaigns
  | .compare outdirs => Recognised disk outdirs
  | _ => True

/-! ## What is loaded -/

section

variable {disk} {campaigns : List (P × Option String)}

/-- What `load` makes of a registered campaign. -/
def runFor (disk : Disk P F) (campaign : P × String) : CampaignRunData P F :=
  let df := (loadCsv disk campaign.1).getD ⟨[], []⟩
  ⟨campaign.1, campaign.2, df, df.rows.length⟩

theorem mem_registered {d : P} {label : String} :
    (d, label) ∈ registered disk campaigns ↔
      (loadCsv disk d).isSome ∧ ∃ hint, (d, hint) ∈ campaigns ∧ labelOf disk d hint = label := by
  simp only [registered, List.mem_filter, List.mem_dedup, List.mem_map, Prod.mk.injEq,
    Prod.exists]
  constructor
  · intro h
    obtain ⟨⟨d', hint, hmem, rfl, hlabel⟩, hsome⟩ := h
    exact ⟨hsome, hint, hmem, hlabel⟩
  · intro h
    obtain ⟨hsome, hint, hmem, hlabel⟩ := h
    exact ⟨⟨d, hint, hmem, rfl, hlabel⟩, hsome⟩

/-- The readable campaigns, in the order of registration, by their labels. -/
def filedRuns (disk : Disk P F) (campaigns : List (P × Option String)) :
    List (String × CampaignRunData P F) :=
  (campaigns.filter fun campaign => (loadCsv disk campaign.1).isSome).map fun campaign =>
    let label := labelOf disk campaign.1 campaign.2
    (label, runFor disk (campaign.1, label))

omit [DecidableEq P] in
theorem foldl_loadOne (runs : Dict String (CampaignRunData P F)) :
    campaigns.foldl (loadOne disk) runs = runs.setAll (filedRuns disk campaigns) := by
  induction campaigns generalizing runs with
  | nil => rfl
  | cons campaign campaigns ih =>
    rw [List.foldl_cons, ih, loadOne]
    unfold filedRuns
    rw [List.filter_cons]
    cases hload : loadCsv disk campaign.1 with
    | none => rfl
    | some df =>
      show Dict.setAll (runs.set _ _) _ = Dict.setAll (runs.set _ (runFor disk _)) _
      rw [runFor, hload]
      rfl

theorem mem_filedRuns {label : String} {run : CampaignRunData P F} :
    (label, run) ∈ filedRuns disk campaigns ↔
      ∃ d, (d, label) ∈ registered disk campaigns ∧ run = runFor disk (d, label) := by
  simp only [filedRuns, List.mem_map, List.mem_filter, Prod.mk.injEq, Prod.exists, mem_registered]
  constructor
  · intro h
    obtain ⟨d, hint, ⟨hmem, hsome⟩, rfl, rfl⟩ := h
    exact ⟨d, ⟨hsome, hint, hmem, rfl⟩, rfl⟩
  · intro h
    obtain ⟨d, ⟨hsome, hint, hmem, rfl⟩, rfl⟩ := h
    exact ⟨d, hint, ⟨hmem, hsome⟩, rfl, rfl⟩

/-- What is under a label comes from a campaign with the label. -/
theorem of_get?_loadRuns {label : String} {run : CampaignRunData P F}
    (h : (loadRuns disk campaigns).get? label = some run) :
    ∃ d, (d, label) ∈ registered disk campaigns ∧ run = runFor disk (d, label) := by
  rw [loadRuns, foldl_loadOne, Dict.get?_setAll, Dict.get?_empty, Option.or_none] at h
  exact mem_filedRuns.mp (Dict.mem_of_lastOf h)

/-- Where no other campaign has the label, it is there. -/
theorem get?_loadRuns {d : P} {label : String} (hmem : (d, label) ∈ registered disk campaigns)
    (honly : ∀ d', (d', label) ∈ registered disk campaigns → d' = d) :
    (loadRuns disk campaigns).get? label = some (runFor disk (d, label)) := by
  rw [loadRuns, foldl_loadOne, Dict.get?_setAll, Dict.get?_empty, Option.or_none]
  refine Dict.lastOf_eq_some (mem_filedRuns.mpr ⟨d, hmem, rfl⟩) fun run hrun => ?_
  obtain ⟨d', hd', rfl⟩ := mem_filedRuns.mp hrun
  rw [honly d' hd']

/-- Loaded runs are the registered campaigns, in some order, if their labels differ. -/
theorem items_perm (hlabels : Labelled disk campaigns) {runs : Dict String (CampaignRunData P F)}
    (hruns : ∀ label, runs.get? label = (loadRuns disk campaigns).get? label) :
    runs.items.Perm
      ((registered disk campaigns).map fun campaign => (campaign.2, runFor disk campaign)) := by
  have hitems : runs.items.Nodup := List.Nodup.of_map Prod.fst runs.nodup
  have hregistered : (registered disk campaigns).Nodup := (List.nodup_dedup _).filter _
  have hmap := hregistered.map_on (f := fun campaign => (campaign.2, runFor disk campaign))
    fun c hc c' hc' heq => hlabels c hc c' hc' (congrArg Prod.fst heq)
  rw [List.perm_ext_iff_of_nodup hitems hmap]
  intro item
  obtain ⟨label, run⟩ := item
  rw [Dict.mem_items, hruns, List.mem_map]
  constructor
  · intro h
    obtain ⟨d, hmem, rfl⟩ := of_get?_loadRuns h
    exact ⟨(d, label), hmem, rfl⟩
  · intro h
    obtain ⟨c, hmem, heq⟩ := h
    injection heq with hlabel hrun
    subst hlabel hrun
    exact get?_loadRuns hmem fun d' hd' => congrArg Prod.fst (hlabels _ hd' _ hmem rfl)

/-! ## Aggregating -/

theorem combine_perm (hlabels : Labelled disk campaigns)
    {runs : Dict String (CampaignRunData P F)}
    (hruns : ∀ label, runs.get? label = (loadRuns disk campaigns).get? label) :
    (combine disk runs).Perm (expected disk campaigns) := by
  refine ((items_perm hlabels hruns).flatMap_right _).trans (List.Perm.of_eq ?_)
  rw [List.flatMap_map]
  refine List.flatMap_congr fun campaign hcampaign => ?_
  show (runFor disk campaign).df.rows.map _ = _
  rw [runFor, rowsIn]
  cases loadCsv disk campaign.1 with
  | none => rfl
  | some df => rfl

omit [DecidableEq P] in
theorem globalSampleId_eq_iff {label label' : String} {row row' : Dict String (Json F)} :
    globalSampleId disk label row = globalSampleId disk label' row' ↔
      (label = label' ∧ sampleId disk row = sampleId disk row') ∨
      Splits label label' (sampleId disk row) (sampleId disk row') ∨
      Splits label' label (sampleId disk row') (sampleId disk row) :=
  append_char_eq_iff '_' _ _ _ _

/-- Where the labels differ, the ids tell the rows apart exactly if no sample id reads on
in another label. -/
theorem distinct_iff (hlabels : Labelled disk campaigns) :
    (∀ c ∈ registered disk campaigns, ∀ c' ∈ registered disk campaigns,
      ∀ row ∈ rowsIn disk c.1, ∀ row' ∈ rowsIn disk c'.1,
        globalSampleId disk c.2 row = globalSampleId disk c'.2 row' →
          c = c' ∧ sampleId disk row = sampleId disk row') ↔ Unmixed disk campaigns := by
  constructor
  · intro h c hc c' hc' row hrow row' hrow' hsplits
    obtain ⟨rfl, -⟩ := h c hc c' hc' row hrow row' hrow'
      (globalSampleId_eq_iff.mpr (.inr (.inl hsplits)))
    -- the label would go on behind itself
    obtain ⟨x, hx, -⟩ := hsplits
    exact ne_append_char '_' c.2 x hx
  · intro h c hc c' hc' row hrow row' hrow' heq
    rcases globalSampleId_eq_iff.mp heq with ⟨hlabel, hsid⟩ | hsplits | hsplits
    · exact ⟨hlabels c hc c' hc' hlabel, hsid⟩
    · exact absurd hsplits (h c hc c' hc' row hrow row' hrow')
    · exact absurd hsplits (h c' hc' c hc row' hrow' row hrow)

theorem aggregate_apart {s : CrossRunAggregator P F} (hfresh : Fresh disk s)
    (hlabels : Labelled disk s.campaigns) (hunmixed : Unmixed disk s.campaigns) :
    Apart disk s.campaigns (s.aggregate disk).2 := by
  refine ⟨combine_perm hlabels ?_, (distinct_iff hlabels).mpr hunmixed⟩
  intro label
  show (CrossRunAggregator.loaded disk s).runs.get? label = _
  rw [CrossRunAggregator.loaded]
  by_cases hempty : s.runs.items.isEmpty
  · rw [if_pos hempty]
    rfl
  · rw [if_neg hempty]
    rcases hfresh with hnil | hruns
    · exact absurd (List.isEmpty_iff.mpr hnil) hempty
    · exact hruns label

/-! ## Comparing -/

omit [DecidableEq P] in
theorem runFor_found {S : Type} {kpiStats : Table F → S} {d : P} {df : Table F} {label : String}
    (h : loadCsv disk d = some df) :
    ((runFor disk (d, label)).nSamples, kpiStats (runFor disk (d, label)).df) =
      (df.rows.length, kpiStats df) := by
  rw [runFor, h]
  rfl

/-- The endpoint takes the run of the directory itself. -/
theorem runOf_own {S : Type} {kpiStats : Table F → S} {outdirs : List P}
    (h : Recognised disk outdirs) {d : P} (hd : d ∈ outdirs) :
    (runOf disk (loadRuns disk (outdirs.map fun outdir => (outdir, none))) d).map
        (fun run => (run.nSamples, kpiStats run.df)) =
      (loadCsv disk d).map fun df => (df.rows.length, kpiStats df) := by
  have hmem : ∀ d' label, (d', label) ∈ registered disk (outdirs.map fun d => (d, none)) ↔
      (loadCsv disk d').isSome ∧ d' ∈ outdirs ∧ resolveLabel disk d' = label := by
    intro d' label
    rw [mem_registered]
    simp [labelOf]
  rw [runOf]
  split
  next run hrun =>
    obtain ⟨d', hd', rfl⟩ := of_get?_loadRuns hrun
    obtain ⟨hsome, hin, hlabel⟩ := (hmem d' _).mp hd'
    have heq : d' = d := by
      by_contra hne
      exact (h d hd d' hin hsome hne).1 hlabel
    subst heq
    obtain ⟨df, hdf⟩ := Option.isSome_iff_exists.mp hsome
    rw [hdf, Option.map_some, Option.map_some, runFor_found hdf]
  next =>
    cases hdf : loadCsv disk d with
    | none =>
      rw [Option.map_none, Option.map_eq_none_iff, List.find?_eq_none]
      intro run hrun
      obtain ⟨label, hget⟩ := Dict.mem_values_iff.mp hrun
      obtain ⟨d', hd', rfl⟩ := of_get?_loadRuns hget
      obtain ⟨hsome, -, -⟩ := (hmem d' _).mp hd'
      rw [decide_eq_true_iff]
      intro heq
      rw [show d' = d from heq, hdf] at hsome
      cases hsome
    | some df =>
      have hsome : (loadCsv disk d).isSome := Option.isSome_iff_exists.mpr ⟨df, hdf⟩
      have hget := get?_loadRuns ((hmem d _).mpr ⟨hsome, hd, rfl⟩) fun d' hd' => by
        obtain ⟨hsome', hin, hlabel⟩ := (hmem d' _).mp hd'
        by_contra hne
        exact (h d hd d' hin hsome' hne).2 hsome hlabel
      have hfound : (((loadRuns disk (outdirs.map fun d => (d, none))).values.find?
          fun run => run.outdir = d)).isSome := by
        rw [List.find?_isSome]
        exact ⟨_, Dict.mem_values_iff.mpr ⟨_, hget⟩, decide_eq_true rfl⟩
      obtain ⟨run, hrun⟩ := Option.isSome_iff_exists.mp hfound
      obtain ⟨label, hlabel⟩ := Dict.mem_values_iff.mp (List.mem_of_find?_eq_some hrun)
      obtain ⟨d', hd', rfl⟩ := of_get?_loadRuns hlabel
      have hdir := List.find?_some hrun
      have heq : d' = d := of_decide_eq_true hdir
      subst heq
      rw [hrun, Option.map_some, Option.map_some, runFor_found hdf]

end

/-! ## When campaigns are kept apart -/

/-- A run whose events are good keeps the campaigns apart, at every step. -/
theorem apart_of_good (campaigns : List (P × Option String)) (es : List (Event P))
    (h : Along (step disk) (Good disk) (CrossRunAggregator.new campaigns) es) :
    Along (step disk) (Right disk kpiStats) (CrossRunAggregator.new campaigns) es := by
  refine h.imp (step disk) (I := fun _ => True) (fun _ _ _ _ => trivial) (fun s e _ hgood => ?_)
    trivial
  cases e with
  | aggregate =>
    obtain ⟨hfresh, hlabels, hunmixed⟩ := hgood
    exact aggregate_apart hfresh hlabels hunmixed
  | compare outdirs =>
    intro entries hentries entry hentry
    rw [compareCampaignsGet] at hentries
    split at hentries
    next => cases hentries
    next =>
      obtain ⟨d, hd, hone⟩ := OSimFlow.Lib.mapM_ok_mem hentries entry hentry
      obtain ⟨campaignId, -, hret⟩ := OSimFlow.Lib.bind_eq_ok.mp hone
      obtain rfl := Except.ok.inj hret
      exact runOf_own hgood hd
  | _ => trivial

/-! ## Two directories of one sample -/

/-- Every directory can be read, and holds one sample. -/
def oneSample : Disk String Empty where
  stem outdir := outdir
  runJson _ := .missing
  readCsv _ := some ⟨["sample_id"], [⟨[("sample_id", .int 0)], by decide⟩]⟩
  truthy _ := true
  str _ := "0"

/-- A campaign that is added between two calls of `aggregate`. -/
def addedLate : List (Event String) :=
  [.addCampaign "a" none, .aggregate, .addCampaign "b" none, .aggregate]

/-- The second table has the row of the first campaign only. -/
theorem late_missing :
    ¬ Along (step oneSample) (Right oneSample fun df => df.columns) (.new []) addedLate := by
  intro h
  have happart : Apart oneSample [("a", none), ("b", none)] _ := h.2.2.2.1
  exact absurd happart.complete.length_eq (by decide +kernel)

/-- Both campaigns are added first. -/
def addedEarly : List (Event String) :=
  [.addCampaign "a" none, .addCampaign "b" none, .aggregate, .compare ["a", "b"]]

theorem early_apart :
    Along (step oneSample) (Good oneSample) (.new []) addedEarly ∧
      Along (step oneSample) (Right oneSample fun df => df.columns) (.new []) addedEarly := by
  have hlabels : Labelled oneSample [("a", none), ("b", none)] := by
    unfold Labelled
    decide +kernel
  have hunmixed : Unmixed oneSample [("a", none), ("b", none)] :=
    (distinct_iff hlabels).mp (by decide +kernel)
  have hgood : Along (step oneSample) (Good oneSample) (.new []) addedEarly := by
    refine ⟨trivial, trivial, ⟨Or.inl rfl, hlabels, hunmixed⟩, ?_, trivial⟩
    show Recognised oneSample ["a", "b"]
    unfold Recognised
    decide +kernel
  exact ⟨hgood, apart_of_good oneSample (fun df => df.columns) [] addedEarly hgood⟩

end OSimFlow.Registry.CrossRun
