import Mathlib.Algebra.Order.BigOperators.Group.List
import OSimFlow.Json
import OSimFlow.Lib.Paging
import OSimFlow.Lib.PosixPath

/-!
# Querying the results of campaigns, page by page

The command line filters the table of each campaign, cuts the page out of each of the
tables, and counts the rows of the page. The endpoint filters the table of one campaign,
counts what is left, and then cuts the page.

> `flatMap_rowsOf_perm`: the pages together hold every row that matches, once, with the
> label of its campaign.
>
> `covered_iff`: the pages have the size asked for, and the totals are those of the
> endpoint, exactly if the filter applies to every table and no row matches: behind the
> last row there is a page that counts none. Among several campaigns a page grows with
> their number (`within_iff`).

What pandas does with one column is a parameter: a comparison gives a Boolean for each row,
or raises.
-/

namespace OSimFlow.Registry.ResultsQuery

open OSimFlow.Lib (Dict PosixPath slice page map_page page_nil page_one page_eq_nil length_page_le
  flatMap_pages_perm)

/-! ## Tables and filters -/

/-- What is raised on the way. -/
inductive Raised where
  | keyError (key : String)
  | typeError (message : String)
  | attributeError (message : String)
  | httpException (status : Nat) (detail : String)
deriving DecidableEq

/-- A table, as it is read from a file; one without columns has no rows. -/
structure DataFrame (C : Type) where
  columns : List String
  rows : List (Dict String C)
  keyed : ∀ row ∈ rows, row.keys = columns
  shaped : columns = [] → rows = []

/-- The comparisons that a filter makes. -/
inductive Comparison where
  | eq | ne | gt | ge | lt | le | isin

/-- What the query uses of pandas and of the JSON decoder. -/
structure Pandas (F C : Type) where
  loads : String → Option (Json F)
  isZero : F → Bool
  compare : Comparison → List C → Json F → Except Raised (List Bool)
  notna : C → Bool
  toJson : C → Json F

namespace DataFrame

variable {F C : Type}

/-- `df.empty` -/
def empty (df : DataFrame C) : Bool := df.columns.isEmpty || df.rows.isEmpty

theorem empty_iff {df : DataFrame C} : df.empty = true ↔ df.rows = [] := by
  rw [empty, Bool.or_eq_true, List.isEmpty_iff, List.isEmpty_iff]
  exact ⟨fun h => h.elim df.shaped id, .inr⟩

/-- `df[mask]` -/
def mask (df : DataFrame C) (keep : List Bool) : DataFrame C where
  columns := df.columns
  rows := ((df.rows.zip keep).filter Prod.snd).map Prod.fst
  keyed row hrow := by
    obtain ⟨pair, hpair, rfl⟩ := List.mem_map.mp hrow
    exact df.keyed _ (List.of_mem_zip (List.mem_filter.mp hpair).1).1
  shaped h := by simp [df.shaped h]

/-- `df[key]` -/
def column (df : DataFrame C) (key : String) : Except Raised (List C) :=
  if key ∈ df.columns then .ok (df.rows.filterMap fun row => row.get? key)
  else .error (.keyError key)

end DataFrame

variable {F C : Type} (pd : Pandas F C)

/-- `bool(v)`. -/
def truthy : Json F → Bool
  | .null => false
  | .bool b => b
  | .int n => n != 0
  | .float x => !pd.isZero x
  | .str s => s != ""
  | .arr items => !items.isEmpty
  | .obj items => !items.isEmpty

/-- `df[key] <comparison> value`. -/
def compare (df : DataFrame C) (key : String) (comparison : Comparison) (value : Json F) :
    Except Raised (List Bool) := do
  pd.compare comparison (← df.column key) value

/-- One operator of a filter; one that is not known is logged. -/
def applyOperator (df : DataFrame C) (key op : String) (value : Json F) :
    Except Raised (DataFrame C) :=
  if op = "$eq" then df.mask <$> compare pd df key .eq value
  else if op = "$ne" then df.mask <$> compare pd df key .ne value
  else if op = "$gt" then df.mask <$> compare pd df key .gt value
  else if op = "$gte" then df.mask <$> compare pd df key .ge value
  else if op = "$lt" then df.mask <$> compare pd df key .lt value
  else if op = "$lte" then df.mask <$> compare pd df key .le value
  else if op = "$in" then df.mask <$> compare pd df key .isin value
  else if op = "$nin" then
    (fun keep => df.mask (keep.map not)) <$> compare pd df key .isin value
  else if op = "$exists" then
    (fun cells => df.mask (cells.map fun cell => pd.notna cell == truthy pd value)) <$>
      df.column key
  else .ok df

/-- One entry of a filter. -/
def applyEntry (df : DataFrame C) (entry : String × Json F) : Except Raised (DataFrame C) :=
  if entry.1.toList.head? = some '$' then .ok df
  else match entry.2 with
    | .obj operators => (Dict.update ∅ operators).items.foldlM
        (fun df op => applyOperator pd df entry.1 op.1 op.2) df
    | value => df.mask <$> compare pd df entry.1 .eq value

/-- `apply_filter`. -/
def applyFilter (df : DataFrame C) (filterSpec : Dict String (Json F)) :
    Except Raised (DataFrame C) :=
  filterSpec.items.foldlM (applyEntry pd) df

/-- `json.loads(df.to_json(orient="records"))`. -/
def records (rows : List (Dict String C)) : List (Dict String (Json F)) :=
  rows.map fun row => Dict.update ∅ (row.items.map fun cell => (cell.1, pd.toJson cell.2))

/-! ## The command line -/

/-- The directories: the one that the program runs in, and the table that
`load_aggregated_results` reads from each. -/
structure Disk (C : Type) where
  cwd : PosixPath
  table : PosixPath → Option (DataFrame C)

variable (disk : Disk C)

/-- What a query asks for, but the page. -/
structure Query where
  campaignIds : Option (List String)
  outdirs : Option (List String)
  filterExpr : Option String
  perPage : Nat

/-- `_resolve_paths`, with the table of each directory. -/
def resolvePaths (q : Query) : List (DataFrame C × String) :=
  ((q.outdirs.getD []).filterMap fun outdir =>
    let p := PosixPath.parse outdir.toList
    (disk.table p).map fun df => (df, String.ofList p.name)) ++
  (q.campaignIds.getD []).filterMap fun cid =>
    (disk.table (disk.cwd.div cid.toList)).map fun df => (df, cid)

/-- What the command line returns. -/
structure Answer (F : Type) where
  rows : List (Dict String (Json F))
  total : Nat
  columns : List String
  campaignsQueried : Nat

def Answer.nothing : Answer F := ⟨[], 0, [], 0⟩

/-- What the loop over the campaigns collects. -/
structure Collected (F : Type) where
  allRows : List (Dict String (Json F))
  allColumns : List String
  campaignsQueried : Nat

/-- `row["_campaign"] = label`, for each row. -/
def labelled (label : String) (rows : List (Dict String (Json F))) :
    List (Dict String (Json F)) :=
  rows.map fun row => row.set "_campaign" (.str label)

/-- `if filter_spec: df = apply_filter(df, filter_spec)`. -/
def filtered (filterSpec : Json F) (df : DataFrame C) : Except Raised (DataFrame C) :=
  if truthy pd filterSpec then
    match filterSpec with
    | .obj items => applyFilter pd df (Dict.update ∅ items)
    | _ => .error (.attributeError "object has no attribute 'items'")
  else .ok df

/-- The body of the loop. -/
def visit (filterSpec : Json F) (perPage n : Nat) (found : Collected F)
    (campaign : DataFrame C × String) : Except Raised (Collected F) :=
  if campaign.1.empty then .ok found
  else do
    let df ← filtered pd filterSpec campaign.1
    if df.empty then .ok found
    else
      let pageRows := records pd (slice ((n - 1) * perPage) (n * perPage) df.rows)
      .ok { allRows := found.allRows ++ labelled campaign.2 pageRows
            allColumns := found.allColumns ++ df.columns.filter (fun col => col ≠ "sample_id")
            campaignsQueried := found.campaignsQueried + 1 }

/-- `filter_spec`, if the text of the filter can be read. -/
def filterSpec (filterExpr : Option String) : Option (Json F) :=
  match filterExpr with
  | none => some (.obj [])
  | some text => if text = "" then some (.obj []) else pd.loads text

/-- `query_results_cli`, for the page with the number `n`. -/
def queryResultsCli (q : Query) (n : Nat) : Except Raised (Answer F) :=
  if q.campaignIds.getD [] = [] ∧ q.outdirs.getD [] = [] then .ok Answer.nothing
  else match filterSpec pd q.filterExpr with
    | none => .ok Answer.nothing
    | some spec => do
      let found ← (resolvePaths disk q).foldlM (visit pd spec q.perPage n) ⟨[], [], 0⟩
      let columns := found.allColumns.dedup.insertionSort (· ≤ ·)
      .ok ⟨found.allRows, found.allRows.length, columns, found.campaignsQueried⟩

/-! ## The endpoint -/

/-- What the endpoint returns, but what it was asked for. -/
structure Page (F : Type) where
  rows : List (Dict String (Json F))
  total : Nat

/-- `_campaign_dir_from_id`, with the table of the directory. -/
def campaignDirFromId (campaignId : String) : Except Raised (DataFrame C) :=
  let text := campaignId.toList
  if '/' ∈ text ∨ '\\' ∈ text ∨ ['.', '.'] <:+: text then
    .error (.httpException 400 "Invalid campaign_id")
  else match disk.table (disk.cwd.div text) with
    | some df => .ok df
    | none => .error (.httpException 404 ("Campaign '" ++ campaignId ++ "' not found"))

/-- The filter of the endpoint. -/
def restFiltered (filterParam : Option String) (df : DataFrame C) :
    Except Raised (DataFrame C) :=
  match filterParam with
  | none => .ok df
  | some text =>
    if text = "" then .ok df
    else match pd.loads text with
      | none => .error (.httpException 400 "Invalid filter JSON: ")
      | some (.obj items) => match applyFilter pd df (Dict.update ∅ items) with
        | .error (.typeError m) => .error (.httpException 400 ("Invalid filter JSON: " ++ m))
        | result => result
      | some _ => .ok df

/-- `query_campaign_results`. -/
def queryCampaignResults (campaignId : String) (status filterParam : Option String)
    (perPage n : Nat) : Except Raised (Page F) :=
  if n < 1 ∨ perPage < 1 ∨ 1000 < perPage then
    .error (.httpException 422 "Input should be within its bounds")
  else do
    let df ← campaignDirFromId disk campaignId
    if df.empty then .ok ⟨[], 0⟩
    else
      let df ← match status with
        | some status =>
          if "status" ∈ df.columns then df.mask <$> compare pd df "status" .eq (.str status)
          else .ok df
        | none => .ok df
      let df ← restFiltered pd filterParam df
      .ok ⟨records pd (slice ((n - 1) * perPage) ((n - 1) * perPage + perPage) df.rows),
        df.rows.length⟩

/-! ## The rows that match -/

/-- The rows of a campaign that the filter leaves. -/
def matchingOf (filterSpec : Json F) (campaign : DataFrame C × String) :
    Except Raised (List (Dict String (Json F)) × String) :=
  if campaign.1.empty then .ok ([], campaign.2)
  else (filtered pd filterSpec campaign.1).map fun df => (records pd df.rows, campaign.2)

/-- The rows that match, campaign by campaign; none where the filter cannot be read or
applied. -/
def matching (q : Query) : Option (List (List (Dict String (Json F)) × String)) :=
  match filterSpec pd q.filterExpr with
  | none => none
  | some spec => ((resolvePaths disk q).mapM (matchingOf pd spec)).toOption

/-- All of them, each labelled with its own campaign. -/
def allMatching (found : List (List (Dict String (Json F)) × String)) :
    List (Dict String (Json F)) :=
  found.flatMap fun campaign => labelled campaign.2 campaign.1

/-- The rows on a page. -/
def rowsOf (q : Query) (n : Nat) : List (Dict String (Json F)) :=
  match queryResultsCli pd disk q n with
  | .ok answer => answer.rows
  | .error _ => []

/-- The pages cover what matches, have the size asked for, and count it; and the endpoint
has the same pages of a campaign that is asked for alone. -/
structure Covers (q : Query) (found : List (List (Dict String (Json F)) × String)) : Prop where
  counted : ∀ n ≥ 1, ∃ answer, queryResultsCli pd disk q n = .ok answer ∧
    answer.rows.length ≤ q.perPage ∧ answer.total = (allMatching found).length
  exactlyOnce : ∃ last, ∀ m ≥ last,
    ((List.range m).flatMap fun n => rowsOf pd disk q (n + 1)).Perm (allMatching found)
  sameAsRest : ∀ id df, q.campaignIds = some [id] → q.outdirs.getD [] = [] →
    campaignDirFromId disk id = .ok df → q.perPage ≤ 1000 → ∀ n ≥ 1, ∃ answer rest,
      queryResultsCli pd disk q n = .ok answer ∧
      queryCampaignResults pd disk id none q.filterExpr q.perPage n = .ok rest ∧
      answer.rows = labelled id rest.rows ∧ answer.total = rest.total

/-- Paginated queries cover the result exactly once. -/
def Covered (q : Query) : Prop :=
  ∃ found, matching pd disk q = some found ∧ Covers pd disk q found

/-- The filter applies to every table, and no row matches. -/
def NothingMatches (q : Query) : Prop :=
  ∃ found, matching pd disk q = some found ∧ ∀ campaign ∈ found, campaign.1 = []

/-! ## What is on a page -/

theorem slice_eq_page (k n : Nat) {α : Type} (l : List α) :
    slice ((n - 1) * k) (n * k) l = page k n l := rfl

/-- The page of each campaign, one after the other. -/
def pageOf (k n : Nat) (found : List (List (Dict String (Json F)) × String)) :
    List (Dict String (Json F)) :=
  found.flatMap fun campaign => labelled campaign.2 (page k n campaign.1)

theorem visit_spec (spec : Json F) (k n : Nat) (found : Collected F)
    (campaign : DataFrame C × String) :
    (visit pd spec k n found campaign).map Collected.allRows =
      (matchingOf pd spec campaign).map fun rows =>
        found.allRows ++ labelled rows.2 (page k n rows.1) := by
  rw [visit, matchingOf]
  by_cases hempty : campaign.1.empty
  · rw [if_pos hempty, if_pos hempty]
    simp [Except.map, labelled]
  · rw [if_neg hempty, if_neg hempty]
    cases hfiltered : filtered pd spec campaign.1 with
    | error e => rfl
    | ok df =>
      show Except.map _ (if df.empty = true then _ else _) = Except.ok _
      split
      next hnone => simp [Except.map, DataFrame.empty_iff.mp hnone, records, labelled]
      next => simp [Except.map, records, ← map_page, slice_eq_page]

/-- The loop puts the page of each campaign behind what it has. -/
theorem foldlM_visit (spec : Json F) (k n : Nat) (paths : List (DataFrame C × String))
    (found : Collected F) :
    (paths.foldlM (visit pd spec k n) found).map Collected.allRows =
      (paths.mapM (matchingOf pd spec)).map fun rows => found.allRows ++ pageOf k n rows := by
  induction paths generalizing found with
  | nil => simp [Except.map, pageOf, pure, Except.pure]
  | cons campaign paths ih =>
    rw [List.foldlM_cons, List.mapM_cons]
    have hstep := visit_spec pd spec k n found campaign
    cases hvisit : visit pd spec k n found campaign with
    | error e =>
      cases hrows : matchingOf pd spec campaign with
      | error e' =>
        rw [hvisit, hrows] at hstep
        injection hstep with he
        rw [he]
        rfl
      | ok rows =>
        rw [hvisit, hrows] at hstep
        cases hstep
    | ok found' =>
      cases hrows : matchingOf pd spec campaign with
      | error e' =>
        rw [hvisit, hrows] at hstep
        cases hstep
      | ok rows =>
        rw [hvisit, hrows] at hstep
        injection hstep with hfound
        refine (ih found').trans ?_
        rw [hfound]
        cases hrest : paths.mapM (matchingOf pd spec) with
        | error e => simp [Except.map, bind, Except.bind]
        | ok rest =>
          simp [Except.map, bind, Except.bind, pure, Except.pure, pageOf]

section

variable {pd disk} {q : Query} {found : List (List (Dict String (Json F)) × String)}

/-- Where the filter applies, the query answers with the page of each campaign. -/
theorem answer_of_matching (h : matching pd disk q = some found) (n : Nat) :
    ∃ answer, queryResultsCli pd disk q n = .ok answer ∧
      answer.rows = pageOf q.perPage n found ∧ answer.total = answer.rows.length := by
  rw [matching] at h
  rw [queryResultsCli]
  cases hspec : filterSpec pd q.filterExpr with
  | none =>
    rw [hspec] at h
    cases h
  | some spec =>
    rw [hspec] at h
    dsimp only at h ⊢
    cases hrows : (resolvePaths disk q).mapM (matchingOf pd spec) with
    | error e =>
      rw [hrows] at h
      cases h
    | ok rows =>
      rw [hrows] at h
      obtain rfl : rows = found := Option.some.inj h
      split
      next hnone =>
        -- nothing is asked for, and nothing is resolved
        have hpaths : resolvePaths disk q = [] := by simp [resolvePaths, hnone.1, hnone.2]
        rw [hpaths] at hrows
        obtain rfl : [] = rows := Except.ok.inj hrows
        exact ⟨_, rfl, rfl, rfl⟩
      next =>
        have hloop := foldlM_visit pd spec q.perPage n (resolvePaths disk q) ⟨[], [], 0⟩
        rw [hrows] at hloop
        cases hfold : (resolvePaths disk q).foldlM (visit pd spec q.perPage n) ⟨[], [], 0⟩ with
        | error e =>
          rw [hfold] at hloop
          cases hloop
        | ok collected =>
          rw [hfold] at hloop
          have hall : collected.allRows = [] ++ pageOf q.perPage n rows := Except.ok.inj hloop
          exact ⟨_, rfl, hall, rfl⟩

theorem rowsOf_eq (h : matching pd disk q = some found) (n : Nat) :
    rowsOf pd disk q n = pageOf q.perPage n found := by
  obtain ⟨answer, hanswer, hrows, -⟩ := answer_of_matching h n
  rw [rowsOf, hanswer]
  exact hrows

theorem length_labelled (label : String) (rows : List (Dict String (Json F))) :
    (labelled label rows).length = rows.length := List.length_map _

theorem length_pageOf (k n : Nat) (found : List (List (Dict String (Json F)) × String)) :
    (pageOf k n found).length = (found.map fun campaign => (page k n campaign.1).length).sum := by
  rw [pageOf, List.length_flatMap]
  simp only [length_labelled]

theorem length_allMatching (found : List (List (Dict String (Json F)) × String)) :
    (allMatching found).length = (found.map fun campaign => campaign.1.length).sum := by
  rw [allMatching, List.length_flatMap]
  simp only [length_labelled]

/-- From the page on that the longest table ends with, nothing comes. -/
theorem pageOf_eq_nil {k n : Nat}
    (h : ∀ campaign ∈ found, campaign.1.length ≤ (n - 1) * k) : pageOf k n found = [] := by
  rw [pageOf, List.flatMap_eq_nil_iff]
  intro campaign hcampaign
  rw [page_eq_nil (h campaign hcampaign)]
  rfl

/-- Every row that matches is on one page, once, with the label of its campaign. -/
theorem flatMap_rowsOf_perm (h : matching pd disk q = some found) {m : Nat}
    (hm : ∀ campaign ∈ found, campaign.1.length ≤ m * q.perPage) :
    ((List.range m).flatMap fun n => rowsOf pd disk q (n + 1)).Perm (allMatching found) := by
  have hlengths : ∀ l ∈ found.map fun campaign => labelled campaign.2 campaign.1,
      l.length ≤ m * q.perPage := by
    intro l hl
    obtain ⟨campaign, hcampaign, rfl⟩ := List.mem_map.mp hl
    rw [length_labelled]
    exact hm campaign hcampaign
  have hpages := flatMap_pages_perm hlengths
  rw [List.flatten_eq_flatMap] at hpages
  simp only [List.flatMap_map, id_eq] at hpages
  simp only [rowsOf_eq h, pageOf, labelled, map_page]
  exact hpages

theorem length_le_sum {campaign : List (Dict String (Json F)) × String} (h : campaign ∈ found) :
    campaign.1.length ≤ (found.map fun campaign => campaign.1.length).sum :=
  List.single_le_sum (fun _ _ => Nat.zero_le _) _ (List.mem_map.mpr ⟨campaign, h, rfl⟩)

variable (found) in
/-- There are enough pages. -/
theorem exists_last (hper : 1 ≤ q.perPage) :
    ∃ last, ∀ m ≥ last, ∀ campaign ∈ found, campaign.1.length ≤ m * q.perPage := by
  refine ⟨(found.map fun campaign => campaign.1.length).sum, fun m hm campaign hcampaign => ?_⟩
  have hle := length_le_sum hcampaign
  exact (hle.trans hm).trans (Nat.le_mul_of_pos_right m hper)

/-- No page is too long exactly if the tables, each up to the size of a page, fit on one. -/
theorem within_iff (h : matching pd disk q = some found) :
    (∀ n ≥ 1, (rowsOf pd disk q n).length ≤ q.perPage) ↔
      (found.map fun campaign => min q.perPage campaign.1.length).sum ≤ q.perPage := by
  have hfirst : (pageOf q.perPage 1 found).length =
      (found.map fun campaign => min q.perPage campaign.1.length).sum := by
    rw [length_pageOf]
    simp only [page_one, List.length_take]
  constructor
  · intro hall
    have hone := hall 1 (Nat.le_refl 1)
    rwa [rowsOf_eq h, hfirst] at hone
  · intro hsum n hn
    obtain ⟨n, rfl⟩ : ∃ m, n = m + 1 := ⟨n - 1, by omega⟩
    rw [rowsOf_eq h]
    refine le_trans ?_ (hfirst.trans_le hsum)
    rw [length_pageOf, length_pageOf]
    exact List.sum_le_sum fun campaign _ => length_page_le q.perPage n campaign.1

/-! ## One campaign, at both ends -/

theorem table_of_campaignDirFromId {id : String} {df : DataFrame C}
    (h : campaignDirFromId disk id = .ok df) :
    disk.table (disk.cwd.div id.toList) = some df := by
  rw [campaignDirFromId] at h
  split at h
  · cases h
  · split at h
    next df' htable =>
      rw [htable, Except.ok.inj h]
    next => cases h

/-- Where the filter applies, the endpoint keeps the rows that the command line keeps. -/
theorem restFiltered_of_filtered {spec : Json F} {df df' : DataFrame C}
    (hspec : filterSpec pd q.filterExpr = some spec) (h : filtered pd spec df = .ok df') :
    restFiltered pd q.filterExpr df = .ok df' := by
  have hnone : filtered pd (.obj []) df = .ok df := rfl
  unfold filterSpec at hspec
  unfold restFiltered
  cases hexpr : q.filterExpr with
  | none =>
    rw [hexpr] at hspec
    obtain rfl : .obj [] = spec := Option.some.inj hspec
    exact hnone.symm.trans h
  | some text =>
    rw [hexpr] at hspec
    dsimp only at hspec ⊢
    split
    next htext =>
      rw [if_pos htext] at hspec
      obtain rfl : .obj [] = spec := Option.some.inj hspec
      exact hnone.symm.trans h
    next htext =>
      rw [if_neg htext] at hspec
      rw [hspec]
      unfold filtered at h
      -- what is no object is ignored here, and is an error there unless it is false
      by_cases htrue : truthy pd spec = true
      · rw [if_pos htrue] at h
        cases spec with
        | obj items =>
          dsimp only at h ⊢
          rw [h]
        | _ => cases h
      · rw [if_neg htrue] at h
        cases spec with
        | obj items =>
          have hitems : items = [] := by simpa [truthy] using htrue
          rw [hitems]
          exact h
        | _ => exact h

/-- The endpoint has the page of a campaign that is asked for alone, and counts all of it. -/
theorem rest_of_matching {id : String} {df : DataFrame C} (h : matching pd disk q = some found)
    (hids : q.campaignIds = some [id]) (houtdirs : q.outdirs.getD [] = [])
    (hdir : campaignDirFromId disk id = .ok df) (hper : 1 ≤ q.perPage) (hmax : q.perPage ≤ 1000)
    {n : Nat} (hn : 1 ≤ n) :
    ∃ rows, found = [(rows, id)] ∧
      queryCampaignResults pd disk id none q.filterExpr q.perPage n =
        .ok ⟨page q.perPage n rows, rows.length⟩ := by
  have hpaths : resolvePaths disk q = [(df, id)] := by
    simp [resolvePaths, houtdirs, hids, table_of_campaignDirFromId hdir]
  have hslice : (n - 1) * q.perPage + q.perPage = n * q.perPage := by
    obtain ⟨m, rfl⟩ : ∃ m, n = m + 1 := ⟨n - 1, by omega⟩
    rw [Nat.add_sub_cancel, Nat.succ_mul]
  rw [matching] at h
  rw [queryCampaignResults, if_neg (by omega), hdir]
  cases hspec : filterSpec pd q.filterExpr with
  | none =>
    rw [hspec] at h
    cases h
  | some spec =>
    rw [hspec, hpaths] at h
    dsimp only at h
    show ∃ rows, found = _ ∧ (if df.empty = true then _ else _) = _
    by_cases hempty : df.empty
    · have hrows : matchingOf pd spec (df, id) = .ok ([], id) := if_pos hempty
      rw [List.mapM_cons, hrows] at h
      obtain rfl : [([], id)] = found := Option.some.inj h
      refine ⟨[], rfl, ?_⟩
      rw [if_pos hempty, page_nil]
      rfl
    · cases hfiltered : filtered pd spec df with
      | error e =>
        have hrows : matchingOf pd spec (df, id) = .error e := by
          rw [matchingOf, if_neg hempty, hfiltered]
          rfl
        rw [List.mapM_cons, hrows] at h
        cases h
      | ok df' =>
        have hrows : matchingOf pd spec (df, id) = .ok (records pd df'.rows, id) := by
          rw [matchingOf, if_neg hempty, hfiltered]
          rfl
        rw [List.mapM_cons, hrows] at h
        obtain rfl : [(records pd df'.rows, id)] = found := Option.some.inj h
        refine ⟨_, rfl, ?_⟩
        rw [if_neg hempty]
        show (restFiltered pd q.filterExpr df >>= _) = _
        rw [restFiltered_of_filtered hspec hfiltered]
        show Except.ok _ = _
        rw [hslice, slice_eq_page, records, map_page, records, List.length_map]

/-- A campaign that is asked for alone has the same rows on its pages at both ends. -/
theorem rows_eq_rest {id : String} {df : DataFrame C} (h : matching pd disk q = some found)
    (hids : q.campaignIds = some [id]) (houtdirs : q.outdirs.getD [] = [])
    (hdir : campaignDirFromId disk id = .ok df) (hper : 1 ≤ q.perPage) (hmax : q.perPage ≤ 1000)
    {n : Nat} (hn : 1 ≤ n) :
    ∃ rest, queryCampaignResults pd disk id none q.filterExpr q.perPage n = .ok rest ∧
      rowsOf pd disk q n = labelled id rest.rows ∧ rest.total = (allMatching found).length := by
  obtain ⟨rows, rfl, hrest⟩ := rest_of_matching h hids houtdirs hdir hper hmax hn
  refine ⟨_, hrest, ?_, ?_⟩
  · rw [rowsOf_eq h]
    simp [pageOf]
  · simp [length_allMatching]

/-! ## When the pages are right -/

/-- A page behind the last one counts nothing. -/
theorem nothingMatches_of_covers (h : matching pd disk q = some found) (hper : 1 ≤ q.perPage)
    (hc : Covers pd disk q found) : ∀ campaign ∈ found, campaign.1 = [] := by
  obtain ⟨last, hlast⟩ := exists_last found hper
  obtain ⟨answer, hanswer, -, htotal⟩ := hc.counted (last + 1) (Nat.succ_le_succ (Nat.zero_le _))
  obtain ⟨answer', hanswer', hrows, hcount⟩ := answer_of_matching h (last + 1)
  obtain rfl : answer = answer' := Except.ok.inj (hanswer.symm.trans hanswer')
  have hnil : answer.rows = [] := by
    rw [hrows]
    exact pageOf_eq_nil (hlast last (Nat.le_refl last))
  have hzero : (allMatching found).length = 0 := by
    rw [← htotal, hcount, hnil]
    rfl
  intro campaign hcampaign
  have hle := length_le_sum hcampaign
  rw [← length_allMatching, hzero] at hle
  exact List.length_eq_zero_iff.mp (Nat.le_zero.mp hle)

theorem covers_of_nothingMatches (h : matching pd disk q = some found) (hper : 1 ≤ q.perPage)
    (hnone : ∀ campaign ∈ found, campaign.1 = []) : Covers pd disk q found := by
  have hpage : ∀ n, pageOf q.perPage n found = [] := by
    intro n
    refine pageOf_eq_nil fun campaign hcampaign => ?_
    rw [hnone campaign hcampaign]
    exact Nat.zero_le _
  have hall : allMatching found = [] := by
    rw [allMatching, List.flatMap_eq_nil_iff]
    intro campaign hcampaign
    rw [hnone campaign hcampaign]
    rfl
  refine ⟨fun n _ => ?_, ⟨0, fun m _ => ?_⟩, fun id df hids houtdirs hdir hmax n hn => ?_⟩
  · obtain ⟨answer, hanswer, hrows, hcount⟩ := answer_of_matching h n
    rw [hpage n] at hrows
    refine ⟨answer, hanswer, ?_, ?_⟩
    · rw [hrows]
      exact Nat.zero_le _
    · rw [hcount, hrows, hall]
  · refine flatMap_rowsOf_perm h fun campaign hcampaign => ?_
    rw [hnone campaign hcampaign]
    exact Nat.zero_le _
  · obtain ⟨answer, hanswer, hrows, hcount⟩ := answer_of_matching h n
    obtain ⟨rows, rfl, hrest⟩ := rest_of_matching h hids houtdirs hdir hper hmax hn
    have hnil : rows = [] := hnone (rows, id) (List.mem_singleton.mpr rfl)
    rw [hpage n] at hrows
    refine ⟨answer, _, hanswer, hrest, ?_, ?_⟩
    · rw [hrows, hnil, page_nil]
      rfl
    · rw [hcount, hrows, hnil]

end

/-- The pages of a query are right exactly if its filter applies and no row matches. -/
theorem covered_iff (q : Query) (hper : 1 ≤ q.perPage) :
    Covered pd disk q ↔ NothingMatches pd disk q := by
  constructor
  · intro h
    obtain ⟨found, hfound, hc⟩ := h
    exact ⟨found, hfound, nothingMatches_of_covers hfound hper hc⟩
  · intro h
    obtain ⟨found, hfound, hnone⟩ := h
    exact ⟨found, hfound, covers_of_nothingMatches hfound hper hnone⟩

/-! ## Two campaigns of two rows -/

/-- pandas, for cells that are numbers, and for one filter. -/
def plainPandas : Pandas Empty Int where
  loads text := if text = "\x7b\"sample_id\": 3\x7d" then some (.obj [("sample_id", .int 3)])
    else none
  isZero x := x.elim
  compare
    | .eq, cells, .int m => .ok (cells.map fun n => decide (n = m))
    | _, _, _ => .error (.typeError "not supported")
  notna _ := true
  toJson n := .int n

/-- A table of two samples. -/
def twoRows : DataFrame Int where
  columns := ["sample_id"]
  rows := [⟨[("sample_id", 1)], by decide⟩, ⟨[("sample_id", 2)], by decide⟩]
  keyed := by decide
  shaped := by decide

/-- Every directory holds the table. -/
def twoRowDisk : Disk Int := ⟨PosixPath.parse "/runs".toList, fun _ => some twoRows⟩

/-- Two campaigns, with pages of two rows. -/
def bothCampaigns : Query := ⟨some ["a", "b"], none, none, 2⟩

/-- The first page has four rows. -/
theorem page_overfull : ¬ Covered plainPandas twoRowDisk bothCampaigns := by
  rintro ⟨found, -, hc⟩
  obtain ⟨answer, hanswer, hle, -⟩ := hc.counted 1 (Nat.le_refl 1)
  have hlength : answer.rows.length = 4 := by
    have hrows : rowsOf plainPandas twoRowDisk bothCampaigns 1 = answer.rows := by
      rw [rowsOf, hanswer]
    rw [← hrows]
    decide +kernel
  rw [hlength] at hle
  exact absurd hle (by decide)

/-- No sample has the number three. -/
def thirdSample : Query :=
  ⟨some ["a", "b"], none, some "\x7b\"sample_id\": 3\x7d", 2⟩

theorem covered_third : 1 ≤ thirdSample.perPage ∧
    Covered plainPandas twoRowDisk thirdSample :=
  ⟨by decide, (covered_iff plainPandas twoRowDisk thirdSample (by decide)).mpr
    ⟨[([], "a"), ([], "b")], by rfl, by decide⟩⟩

/-- The rows of one of the campaigns, labelled or not. -/
def recordsOfTwo : List (Dict String (Json Empty)) := records plainPandas twoRows.rows

/-- Two rows for each campaign are two too many for a page of two. -/
theorem both_not_within :
    ¬ ∀ n ≥ 1, (rowsOf plainPandas twoRowDisk bothCampaigns n).length ≤ bothCampaigns.perPage := by
  have h : matching plainPandas twoRowDisk bothCampaigns =
      some [(recordsOfTwo, "a"), (recordsOfTwo, "b")] := rfl
  rw [within_iff h]
  decide

/-- The second page of one of the campaigns, with one row on each. -/
theorem second_row_alone :
    ∃ rest, queryCampaignResults plainPandas twoRowDisk "a" none none 1 2 = .ok rest ∧
      rowsOf plainPandas twoRowDisk ⟨some ["a"], none, none, 1⟩ 2 = labelled "a" rest.rows ∧
        rest.total = (allMatching [(recordsOfTwo, "a")]).length :=
  have hdir : campaignDirFromId twoRowDisk "a" = .ok twoRows := rfl
  rows_eq_rest (q := ⟨some ["a"], none, none, 1⟩) rfl rfl rfl hdir (by decide) (by decide)
    (by decide)

end OSimFlow.Registry.ResultsQuery
