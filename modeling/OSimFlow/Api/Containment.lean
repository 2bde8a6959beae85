import OSimFlow.Detached.Download
import OSimFlow.Executors.JobNames
import OSimFlow.Lib.Instances
import OSimFlow.Lib.Paths

/-!
# The campaign directories the REST API reaches

Nine endpoints turn strings of a request into a directory. Six take a `campaign_id`, refuse
separators and `..` in it and look it up below the campaigns base directory; an empty id or
`.` is the base directory itself. `create` and the `GET` comparison resolve an `outdir` and
refuse what is not in the base directory, itself included. The `POST` comparison checks
nothing: any directory with a `run.json` is read.

> `contained_iff`: a request stays strictly below the base directory exactly if it names
> neither the base directory itself nor, in a `POST` comparison, one outside.
>
> `compare_post_reads_anywhere`: a comparison that reads a directory outside.

Symbolic links stand with the location they lead to; nothing below the base directory is one.
-/

namespace OSimFlow.Containment

open OSimFlow.Lib
open OSimFlow.Detached (isSpace)
open OSimFlow.Executors.JobNames (Suffix)

/-! ## Paths -/

abbrev Name := List Char

abbrev Location := List Name

def dotdot : Name := ['.', '.']

structure Path where
  absolute : Bool
  parts : List Name
deriving DecidableEq

/-- `Path(text)`. -/
def Path.ofText (text : Name) : Path :=
  ⟨decide (text.head? = some '/'),
    (text.splitOn '/').filter fun c => decide (c ≠ []) && decide (c ≠ ['.'])⟩

/-- `path / text`. -/
def Path.join (path : Path) (text : Name) : Path :=
  if (Path.ofText text).absolute then Path.ofText text
  else ⟨path.absolute, path.parts ++ (Path.ofText text).parts⟩

/-- `path / name / …` for names without separators. -/
def Path.child (path : Path) (names : List Name) : Path := ⟨path.absolute, path.parts ++ names⟩

/-! ## The file system -/

inductive Kind where
  | file
  | directory
deriving DecidableEq

/-- What the handlers read in a `run.json`. -/
structure RunJson where
  finished : Bool
  status : Option Name
  perSample : List (Name × Name)

structure FileSystem where
  nodes : List (Location × Kind)
  link : Location → Option Location
  link_resolved : ∀ p target, link p = some target → Resolved dotdot link target
  cwd : Location
  /-- The contents of a file, when they can be read and parsed. -/
  json : Location → Option RunJson

namespace FileSystem

variable (fs : FileSystem)

def absolute (path : Path) : Location :=
  if path.absolute then path.parts else fs.cwd ++ path.parts

/-- `path.resolve()`. -/
def resolve (path : Path) : Location := Lib.resolve dotdot fs.link (fs.absolute path)

def kind (loc : Location) : Option Kind :=
  if loc = [] then some .directory else fs.nodes.lookup loc

/-- What stands at each directory on the way and at the end. -/
def way (path : Path) : List (Option Kind) :=
  (List.range ((fs.absolute path).length + 1)).map fun k =>
    fs.kind (Lib.resolve dotdot fs.link ((fs.absolute path).take k))

def isDir (path : Path) : Bool := (fs.way path).all fun k => decide (k = some .directory)

/-- `path.mkdir(parents=True, exist_ok=True)` succeeds. -/
def mkdir (path : Path) : Bool := (fs.way path).all fun k => decide (k ≠ some .file)

def exist (path : Path) : Bool := (fs.kind (fs.resolve path)).isSome

def isFile (path : Path) : Bool := decide (fs.kind (fs.resolve path) = some .file)

def iterdir (path : Path) : List Name :=
  fs.nodes.filterMap fun (loc, _) =>
    if loc.dropLast = fs.resolve path then loc.getLast? else none

end FileSystem

/-! ## The application and its answers -/

inductive Level where
  | readonly
  | readwrite
  | admin
deriving DecidableEq

structure App where
  campaignsBaseDir : Option Path
  outdir : Option Path

inductive Op where
  | read
  | zip
  | write
  | unlink
deriving DecidableEq

/-- A file of a campaign directory that a handler uses. -/
structure Access where
  dir : Path
  file : List Name
  op : Op

/-- The status code, the campaign directories the answer is about, and the files used. -/
structure Outcome where
  status : Nat
  served : List Path
  accesses : List Access

/-- The directories a handler reaches. -/
def Outcome.dirs (o : Outcome) : List Path := o.accesses.map Access.dir ++ o.served

/-- `raise HTTPException(status_code=status)`. -/
def reject (status : Nat) : Outcome := ⟨status, [], []⟩

def runJsonName : Name := ['r', 'u', 'n', '.', 'j', 's', 'o', 'n']

def samplesJsonName : Name := ['s', 'a', 'm', 'p', 'l', 'e', 's', '.', 'j', 's', 'o', 'n']

def resultsName : Name :=
  ['a', 'g', 'g', 'r', 'e', 'g', 'a', 't', 'e', 'd', '_', 'r', 'e', 's', 'u', 'l', 't', 's',
    '.', 'c', 's', 'v']

def failedName : Name :=
  ['f', 'a', 'i', 'l', 'e', 'd', '_', 's', 'i', 'm', 'u', 'l', 'a', 't', 'i', 'o', 'n', 's',
    '.', 'c', 's', 'v']

def configName : Name :=
  ['c', 'a', 'm', 'p', 'a', 'i', 'g', 'n', '_', 'c', 'o', 'n', 'f', 'i', 'g',
    '.', 'j', 's', 'o', 'n']

def auditName : Name := ['a', 'u', 'd', 'i', 't', '.', 'j', 's', 'o', 'n', 'l']

def pauseName : Name := ['.', 'p', 'a', 'u', 's', 'e']

def paused : Name := ['p', 'a', 'u', 's', 'e', 'd']

variable (fs : FileSystem) (app : App) (permits : Level → Bool)

/-- `_campaigns_base_dir`. -/
def campaignsBaseDir : Option Path :=
  match app.campaignsBaseDir with
  | some base => some base
  | none => app.outdir

/-- `"/" in campaign_id or "\\" in campaign_id or ".." in campaign_id`. -/
def traverses (campaignId : Name) : Bool :=
  decide ('/' ∈ campaignId) || decide ('\\' ∈ campaignId) || decide (dotdot <:+: campaignId)

/-- `_campaign_dir_from_id`. -/
def campaignDirFromId (base : Path) (campaignId : Name) : Except Nat Path :=
  if traverses campaignId then .error 400
  else if fs.isDir (base.join campaignId) then .ok (base.join campaignId)
  else .error 404

/-- `validate_path_within_base`. -/
def validatePathWithinBase (resolved base : Location) : Bool := decide (base <+: resolved)

/-! ## Endpoints with a `campaign_id` -/

/-- The permission check and the directory, and what the endpoint does with it. -/
def onCampaign (level : Option Level) (campaignId : Name) (body : Path → Outcome) : Outcome :=
  if level.any fun l => !permits l then reject 403
  else
    match campaignsBaseDir app with
    | none => reject 503
    | some base =>
      match campaignDirFromId fs base campaignId with
      | .error status => reject status
      | .ok dir => body dir

def runJson (dir : Path) : Option RunJson := fs.json (fs.resolve (dir.child [runJsonName]))

def readRunJson (dir : Path) : Access := ⟨dir, [runJsonName], .read⟩

def getCampaignStatus (campaignId : Name) : Outcome :=
  onCampaign fs app permits none campaignId fun dir =>
    if fs.exist (dir.child [runJsonName]) then
      match runJson fs dir with
      | none => ⟨500, [], [readRunJson dir]⟩
      | some _ => ⟨200, [dir], [readRunJson dir]⟩
    else reject 404

def pauseWrites (dir : Path) : List Access :=
  [⟨dir, [pauseName], .write⟩, ⟨dir, [runJsonName], .write⟩, ⟨dir, [auditName], .write⟩]

def pauseCampaign (campaignId : Name) : Outcome :=
  onCampaign fs app permits (some .readwrite) campaignId fun dir =>
    if fs.exist (dir.child [runJsonName]) then
      match runJson fs dir with
      | none => ⟨500, [], [readRunJson dir]⟩
      | some data =>
        if data.finished then ⟨409, [], [readRunJson dir]⟩
        else if data.status = some paused then ⟨409, [], [readRunJson dir]⟩
        else ⟨200, [dir], readRunJson dir :: pauseWrites dir⟩
    else ⟨200, [dir], pauseWrites dir⟩

def resumeWrites (dir : Path) : List Access :=
  (if fs.exist (dir.child [pauseName]) then [⟨dir, [pauseName], .unlink⟩] else []) ++
    [⟨dir, [runJsonName], .write⟩, ⟨dir, [auditName], .write⟩]

def resumeCampaign (campaignId : Name) : Outcome :=
  onCampaign fs app permits (some .readwrite) campaignId fun dir =>
    if fs.exist (dir.child [runJsonName]) then
      match runJson fs dir with
      | none => ⟨500, [], [readRunJson dir]⟩
      | some data =>
        if data.finished then ⟨409, [], [readRunJson dir]⟩
        else if data.status ≠ some paused then ⟨409, [], [readRunJson dir]⟩
        else ⟨200, [dir], readRunJson dir :: resumeWrites fs dir⟩
    else ⟨200, [dir], resumeWrites fs dir⟩

def kpiName : Name := ['k', 'p', 'i', '.', 'j', 's', 'o', 'n']

def kpisName : Name := ['k', 'p', 'i', 's', '.', 'j', 's', 'o', 'n']

def sqlName : Name := ['e', 'p', 'l', 'u', 's', 'o', 'u', 't', '.', 's', 'q', 'l']

def plotsName : Name := ['p', 'l', 'o', 't', 's']

def simDir : List Name := [['w', 'o', 'r', 'k'], ['s', 'i', 'm']]

/-- `_iter_sample_files`. -/
def iterSampleFiles (dir : Path) (suffix : Name) : List (List Name) :=
  if fs.isDir (dir.child simDir) then
    ((fs.iterdir (dir.child simDir)).filter fun s =>
      fs.isDir (dir.child (simDir ++ [s])) && fs.isFile (dir.child (simDir ++ [s, suffix]))).map
        fun s => simDir ++ [s, suffix]
  else []

/-- `_iter_plot_files` with `*.png`, in a directory below the campaign's. -/
def iterPlotFiles (dir : Path) (sub : List Name) : List (List Name) :=
  ((fs.iterdir (dir.child sub)).filter fun name =>
    decide (['.', 'p', 'n', 'g'] <:+ name) && fs.isFile (dir.child (sub ++ [name]))).map
      fun name => sub ++ [name]

/-- `_iter_campaign_bundle`. -/
def iterCampaignBundle (dir : Path) (includeSql : Bool) : List (List Name) :=
  (([runJsonName, samplesJsonName, resultsName, failedName].filter fun name =>
      fs.isFile (dir.child [name])).map fun name => [name]) ++
    iterSampleFiles fs dir kpiName ++ iterSampleFiles fs dir kpisName ++
    iterPlotFiles fs dir [] ++
    (if fs.isDir (dir.child [plotsName]) then iterPlotFiles fs dir [plotsName] else []) ++
    (if includeSql then iterSampleFiles fs dir sqlName else [])

def downloadCampaignBundle (campaignId : Name) (includeSql : Bool) : Outcome :=
  onCampaign fs app permits none campaignId fun dir =>
    ⟨200, [dir], (iterCampaignBundle fs dir includeSql).map fun file => ⟨dir, file, .zip⟩⟩

def batchUploadSamples (campaignId : Name) : Outcome :=
  onCampaign fs app permits (some .readwrite) campaignId fun dir =>
    if fs.exist (dir.child [runJsonName]) then
      match runJson fs dir with
      | none => ⟨500, [], [readRunJson dir]⟩
      | some _ => ⟨200, [dir], [readRunJson dir, ⟨dir, [runJsonName], .write⟩]⟩
    else reject 404

def requeueable : List Name :=
  [['o', 'k'], ['c', 'o', 'm', 'p', 'l', 'e', 't', 'e', 'd'], ['f', 'a', 'i', 'l', 'e', 'd']]

attribute [local instance] Lib.lawfulBEq_list in
def requeueSample (campaignId sampleId : Name) : Outcome :=
  onCampaign fs app permits (some .readwrite) campaignId fun dir =>
    if fs.exist (dir.child [runJsonName]) then
      match runJson fs dir with
      | none => ⟨500, [], [readRunJson dir]⟩
      | some data =>
        match data.perSample.lookup sampleId with
        | none => ⟨404, [], [readRunJson dir]⟩
        | some status =>
          if status ∈ requeueable then
            ⟨200, [dir], [readRunJson dir, ⟨dir, [runJsonName], .write⟩]⟩
          else ⟨422, [], [readRunJson dir]⟩
    else reject 404

/-! ## Endpoints with an `outdir` -/

/-- The directory is made, and the files of a new campaign are written into it. -/
def writeCampaign (outdir : Path) (autoStart : Bool) : Outcome :=
  if fs.mkdir outdir then
    ⟨201, [outdir], [⟨outdir, [auditName], .write⟩, ⟨outdir, [configName], .write⟩] ++
      if autoStart then [⟨outdir, [runJsonName], .write⟩] else []⟩
  else reject 500

/-- `f"campaign-{uuid.uuid4().hex[:8]}"`. -/
def newCampaignId (suffix : Suffix) : Name :=
  ['c', 'a', 'm', 'p', 'a', 'i', 'g', 'n', '-'] ++ suffix.chars

def createCampaign (outdir : Option Name) (autoStart : Bool) (suffix : Suffix) : Outcome :=
  if !permits .admin then reject 403
  else
    match campaignsBaseDir app with
    | none => reject 503
    | some base =>
      if fs.mkdir base then
        match outdir with
        | some text =>
          let resolved := fs.resolve (Path.ofText text)
          if validatePathWithinBase resolved (fs.resolve base) then
            writeCampaign fs ⟨true, resolved⟩ autoStart
          else reject 400
        | none => writeCampaign fs (base.join (newCampaignId suffix)) autoStart
      else reject 500

/-- `_resolve_by_outdir`. -/
def resolveByOutdir (outdir : Name) : Option Path :=
  let path : Path := ⟨true, fs.absolute (Path.ofText outdir)⟩
  if fs.isDir path then some path else none

/-- `_resolve_by_campaign_id` without a registry. -/
def resolveByCampaignId (campaignId : Name) : Option Path :=
  let candidates := (app.campaignsBaseDir.toList ++ app.outdir.toList).map (·.join campaignId)
  candidates.find? fs.isDir

/-- `_resolve_campaign_dir`. -/
def resolveCampaignDir (campaignId outdir : Option Name) : Option Path :=
  match outdir with
  | some outdir => resolveByOutdir fs outdir
  | none =>
    match campaignId with
    | none => none
    | some campaignId =>
      if traverses campaignId then none else resolveByCampaignId fs app campaignId

/-- The directories of a `GET` comparison, each looked up and checked in turn. -/
def checkOutdirs (base : Location) : List Name → Except Nat (List Path)
  | [] => .ok []
  | d :: ds =>
    match resolveCampaignDir fs app none (some d) with
    | none => .error 404
    | some dir =>
      if validatePathWithinBase (fs.resolve dir) base then
        (checkOutdirs base ds).map (dir :: ·)
      else .error 403

/-- `[d.strip() for d in item.split(",") if d.strip()]`. -/
def splitDirs (item : Name) : List Name :=
  ((item.splitOn ',').map (strip isSpace)).filter fun d => decide (d ≠ [])

/-- The files of `dir` that `CrossRunAggregator.load` and the labels are read from. -/
def comparedFiles (dir : Path) : List Access :=
  let label := if fs.exist (dir.child [runJsonName]) then [readRunJson dir] else []
  label ++ (if fs.exist (dir.child [resultsName]) then [⟨dir, [resultsName], .read⟩] else []) ++
    label

def compareCampaignsGet (outdir : List Name) : Outcome :=
  if outdir.length < 2 then reject 422
  else if !permits .readonly then reject 403
  else if (outdir.flatMap splitDirs).length < 2 then reject 400
  else
    match campaignsBaseDir app with
    | none => reject 503
    | some base =>
      match checkOutdirs fs app (fs.resolve base) (outdir.flatMap splitDirs) with
      | .error status => reject status
      | .ok dirs => ⟨200, dirs, dirs.flatMap (comparedFiles fs)⟩

structure Identifier where
  campaignId : Option Name
  outdir : Option Name

/-- The files read in a directory that a `POST` comparison has found. -/
def readEntry (dir : Path) : List Path × List Access :=
  if fs.exist (dir.child [runJsonName]) then
    match runJson fs dir with
    | none => ([dir], [readRunJson dir])
    | some _ =>
      ([dir], readRunJson dir ::
        if fs.exist (dir.child [resultsName]) then [⟨dir, [resultsName], .read⟩] else [])
  else ([], [])

/-- One entry of a `POST` comparison: the directory when it is found, and the files read. -/
def compareEntry (identifier : Identifier) : List Path × List Access :=
  match resolveCampaignDir fs app identifier.campaignId identifier.outdir with
  | none => ([], [])
  | some dir => readEntry fs dir

def compareCampaignsPost (campaigns : List Identifier) : Outcome :=
  if campaigns.length < 2 then reject 422
  else if !permits .readonly then reject 403
  else ⟨200, campaigns.flatMap fun i => (compareEntry fs app i).1,
    campaigns.flatMap fun i => (compareEntry fs app i).2⟩

/-! ## Requests -/

inductive Request where
  | create (outdir : Option Name) (autoStart : Bool) (suffix : Suffix)
  | get (campaignId : Name)
  | pause (campaignId : Name)
  | resume (campaignId : Name)
  | download (campaignId : Name) (includeSql : Bool)
  | upload (campaignId : Name)
  | requeue (campaignId sampleId : Name)
  | compareGet (outdir : List Name)
  | comparePost (campaigns : List Identifier)

def handle : Request → Outcome
  | .create outdir autoStart suffix => createCampaign fs app permits outdir autoStart suffix
  | .get campaignId => getCampaignStatus fs app permits campaignId
  | .pause campaignId => pauseCampaign fs app permits campaignId
  | .resume campaignId => resumeCampaign fs app permits campaignId
  | .download campaignId includeSql => downloadCampaignBundle fs app permits campaignId includeSql
  | .upload campaignId => batchUploadSamples fs app permits campaignId
  | .requeue campaignId sampleId => requeueSample fs app permits campaignId sampleId
  | .compareGet outdir => compareCampaignsGet fs app permits outdir
  | .comparePost campaigns => compareCampaignsPost fs app permits campaigns

/-- Every directory that is reached is strictly below the base directory. What is neither
used nor served is refused. -/
def Contained (base : Path) (o : Outcome) : Prop :=
  ∀ d ∈ o.dirs, Below (fs.resolve base) (fs.resolve d)

/-- Nothing below the base directory is a symbolic link. -/
def NoLinksBelow (base : Path) : Prop :=
  ∀ loc, Below (fs.resolve base) loc → fs.link loc = none

/-! ## What a request must not name -/

/-- The id is the base directory's own. -/
def NamesBase (campaignId : Name) : Prop := campaignId = [] ∨ campaignId = ['.']

/-- An endpoint that gets as far as a directory is given an id that is not the base's. -/
def StaysById (base : Path) (level : Option Level) (needsRunJson : Bool) (campaignId : Name) :
    Prop :=
  (∀ l ∈ level, permits l) → fs.isDir base →
    (needsRunJson → fs.exist (base.child [runJsonName])) → ¬ NamesBase campaignId

/-- A compared directory has no `run.json`, or it is strictly below the base directory. -/
def StaysAt (base dir : Path) : Prop :=
  fs.exist (dir.child [runJsonName]) → Below (fs.resolve base) (fs.resolve dir)

/-- An entry of a `POST` comparison: an existing `outdir` is strictly below the base directory;
an id is not the base's, and one that is found only in the application's `outdir` is found
strictly below the base directory. -/
def StaysEntry (base : Path) (identifier : Identifier) : Prop :=
  match identifier.outdir, identifier.campaignId with
  | some outdir, _ =>
    fs.isDir ⟨true, fs.absolute (Path.ofText outdir)⟩ → StaysAt fs base (Path.ofText outdir)
  | none, some campaignId =>
    ¬ traverses campaignId →
      (fs.isDir (base.join campaignId) → fs.exist ((base.join campaignId).child [runJsonName]) →
        ¬ NamesBase campaignId) ∧
      (¬ fs.isDir (base.join campaignId) → ∀ outdir ∈ app.outdir,
        fs.isDir (outdir.join campaignId) → StaysAt fs base (outdir.join campaignId))
  | none, none => True

/-- An `outdir` of a `GET` comparison that exists and is in the base directory. -/
def Accepted (base : Path) (outdir : Name) : Prop :=
  fs.isDir ⟨true, fs.absolute (Path.ofText outdir)⟩ ∧
    fs.resolve base <+: fs.resolve (Path.ofText outdir)

def Stays (base : Path) : Request → Prop
  | .create outdir _ _ =>
    permits .admin → fs.mkdir base → ∀ text ∈ outdir,
      fs.mkdir ⟨true, fs.resolve (Path.ofText text)⟩ →
        fs.resolve (Path.ofText text) ≠ fs.resolve base
  | .get campaignId => StaysById fs permits base none true campaignId
  | .pause campaignId => StaysById fs permits base (some .readwrite) false campaignId
  | .resume campaignId => StaysById fs permits base (some .readwrite) false campaignId
  | .download campaignId _ => StaysById fs permits base none false campaignId
  | .upload campaignId => StaysById fs permits base (some .readwrite) true campaignId
  | .requeue campaignId _ => StaysById fs permits base (some .readwrite) true campaignId
  | .compareGet outdir =>
    2 ≤ outdir.length → permits .readonly → 2 ≤ (outdir.flatMap splitDirs).length →
      (∀ d ∈ outdir.flatMap splitDirs, Accepted fs base d) →
        ∀ d ∈ outdir.flatMap splitDirs, fs.resolve (Path.ofText d) ≠ fs.resolve base
  | .comparePost campaigns =>
    2 ≤ campaigns.length → permits .readonly → ∀ i ∈ campaigns, StaysEntry fs app base i

variable {fs app permits} {base : Path}

/-! ## Paths of the file system -/

theorem splitOn_slash {text : Name} (h : '/' ∉ text) : text.splitOn '/' = [text] := by
  rw [List.splitOn_eq_splitOnP]
  refine List.splitOnP_eq_singleton fun c hc => ?_
  exact beq_eq_false_iff_ne.mpr fun hc' => h (hc' ▸ hc)

theorem join_of_no_slash {text : Name} (h : '/' ∉ text) (path : Path) :
    path.join text = path.child (Path.ofText text).parts := by
  have hrel : (Path.ofText text).absolute = false :=
    decide_eq_false fun hhead => h (List.mem_of_head? hhead)
  unfold Path.join
  rw [hrel]
  rfl

/-- The empty id and `.` lead to the base directory itself. -/
theorem join_namesBase {text : Name} (h : NamesBase text) (path : Path) : path.join text = path := by
  have hslash : '/' ∉ text := by
    rcases h with rfl | rfl <;> simp
  have hparts : (Path.ofText text).parts = [] := by
    rcases h with rfl | rfl <;> rfl
  rw [join_of_no_slash hslash, hparts]
  unfold Path.child
  rw [List.append_nil]

theorem join_name {text : Name} (hslash : '/' ∉ text) (h : ¬ NamesBase text) (path : Path) :
    path.join text = path.child [text] := by
  unfold NamesBase at h
  rw [not_or] at h
  have hparts : (Path.ofText text).parts = [text] := by
    unfold Path.ofText
    rw [splitOn_slash hslash]
    simp [h.1, h.2]
  rw [join_of_no_slash hslash, hparts]

theorem absolute_child (path : Path) (names : List Name) :
    fs.absolute (path.child names) = fs.absolute path ++ names := by
  unfold FileSystem.absolute Path.child
  by_cases h : path.absolute = true
  · rw [if_pos h, if_pos h]
  · rw [if_neg h, if_neg h, List.append_assoc]

/-- A name that is not `..` stands strictly below. -/
theorem below_child (hlinks : NoLinksBelow fs base) {name : Name} (hname : name ≠ dotdot) :
    Below (fs.resolve base) (fs.resolve (base.child [name])) := by
  have h : fs.resolve (base.child [name]) =
      Lib.resolve dotdot fs.link (fs.absolute base ++ [name]) := by
    unfold FileSystem.resolve
    rw [absolute_child]
  rw [h]
  exact below_resolve_concat hname hlinks

theorem of_not_traverses {campaignId : Name} (h : traverses campaignId = false) :
    '/' ∉ campaignId ∧ campaignId ≠ dotdot := by
  unfold traverses at h
  simp only [Bool.or_eq_false_iff, decide_eq_false_iff_not] at h
  refine ⟨h.1.1, fun hdots => h.2 ?_⟩
  rw [hdots]

/-- The directory of an id that passes the check. -/
theorem below_join_iff (hlinks : NoLinksBelow fs base) {campaignId : Name}
    (h : traverses campaignId = false) :
    Below (fs.resolve base) (fs.resolve (base.join campaignId)) ↔ ¬ NamesBase campaignId := by
  obtain ⟨hslash, hdots⟩ := of_not_traverses h
  by_cases hb : NamesBase campaignId
  · rw [join_namesBase hb]
    exact iff_of_false (not_below_self _) (not_not_intro hb)
  · rw [join_name hslash hb]
    exact iff_of_true (below_child hlinks hdots) hb

theorem resolve_absolute (path : Path) :
    fs.resolve ⟨true, fs.absolute path⟩ = fs.resolve path := rfl

/-- A path that is resolved already. -/
theorem resolve_resolved (path : Path) : fs.resolve ⟨true, fs.resolve path⟩ = fs.resolve path :=
  resolve_resolve fs.link_resolved (fs.absolute path)

theorem exist_absolute (path : Path) (names : List Name) :
    fs.exist (Path.child ⟨true, fs.absolute path⟩ names) = fs.exist (path.child names) := by
  unfold FileSystem.exist FileSystem.resolve
  rw [absolute_child, absolute_child]
  rfl

/-! ## Outcomes -/

theorem contained_reject (status : Nat) : Contained fs base (reject status) :=
  fun _ h => nomatch h

/-- The outcome is about one directory, which it reaches. -/
def Touches (dir : Path) (o : Outcome) : Prop := dir ∈ o.dirs ∧ ∀ d ∈ o.dirs, d = dir

theorem contained_touches {o : Outcome} {dir : Path} (h : Touches dir o) :
    Contained fs base o ↔ Below (fs.resolve base) (fs.resolve dir) := by
  refine ⟨fun hc => hc dir h.1, fun hbelow d hd => ?_⟩
  rw [h.2 d hd]
  exact hbelow

theorem touches_read (status : Nat) (dir : Path) :
    Touches dir ⟨status, [], [readRunJson dir]⟩ :=
  ⟨List.mem_singleton_self dir, fun _ h => List.mem_singleton.mp h⟩

theorem touches_served (status : Nat) {dir : Path} {accesses : List Access}
    (h : ∀ a ∈ accesses, a.dir = dir) : Touches dir ⟨status, [dir], accesses⟩ := by
  refine ⟨List.mem_append_right _ List.mem_cons_self, fun d hd => ?_⟩
  rcases List.mem_append.mp hd with hd | hd
  · obtain ⟨a, ha, rfl⟩ := List.mem_map.mp hd
    exact h a ha
  · exact List.mem_singleton.mp hd

/-! ## Endpoints with a `campaign_id` -/

theorem dir_of_campaignDirFromId {campaignId : Name} {dir : Path}
    (h : campaignDirFromId fs base campaignId = .ok dir) :
    traverses campaignId = false ∧ fs.isDir (base.join campaignId) = true ∧
      dir = base.join campaignId := by
  unfold campaignDirFromId at h
  split at h
  · exact nomatch h
  · next htraverses =>
    split at h
    · next hdir => exact ⟨Bool.eq_false_iff.mpr htraverses, hdir, (Except.ok.inj h).symm⟩
    · exact nomatch h

theorem campaignDirFromId_base {campaignId : Name} (h : NamesBase campaignId) :
    campaignDirFromId fs base campaignId = if fs.isDir base then .ok base else .error 404 := by
  have htraverses : ¬ traverses campaignId = true := by
    rcases h with rfl | rfl <;> decide
  unfold campaignDirFromId
  rw [if_neg htraverses, join_namesBase h]

/-- An endpoint that, with a directory at hand, reaches it if `run.json` is there or not
needed, and nothing else. -/
theorem contained_onCampaign (hbase : campaignsBaseDir app = some base)
    (hlinks : NoLinksBelow fs base) {level : Option Level} {needsRunJson : Bool}
    {campaignId : Name} {body : Path → Outcome}
    (htouches : ∀ dir, (needsRunJson → fs.exist (dir.child [runJsonName])) →
      Touches dir (body dir))
    (hsilent : ∀ dir, ¬ (needsRunJson → fs.exist (dir.child [runJsonName])) →
      body dir = reject 404) :
    Contained fs base (onCampaign fs app permits level campaignId body) ↔
      StaysById fs permits base level needsRunJson campaignId := by
  unfold onCampaign
  by_cases hlevel : (level.any fun l => !permits l) = true
  · rw [if_pos hlevel]
    refine iff_of_true (contained_reject _) fun hpermits => ?_
    cases level with
    | none => exact nomatch hlevel
    | some l =>
      have hl : (!permits l) = true := hlevel
      rw [hpermits l rfl] at hl
      exact nomatch hl
  · have hpermits : ∀ l ∈ level, permits l = true := by
      intro l hl
      rw [Option.mem_def.mp hl] at hlevel
      simpa using hlevel
    rw [if_neg hlevel, hbase]
    show Contained fs base (match campaignDirFromId fs base campaignId with
      | .error status => reject status
      | .ok dir => body dir) ↔ _
    cases hdir : campaignDirFromId fs base campaignId with
    | error status =>
      -- the base directory's own ids pass the check, so it is the directory that is missing
      refine iff_of_true (contained_reject _) fun _ hisDir _ hb => ?_
      rw [campaignDirFromId_base hb, if_pos hisDir] at hdir
      exact nomatch hdir
    | ok dir =>
      obtain ⟨htraverses, hisDir, rfl⟩ := dir_of_campaignDirFromId hdir
      show Contained fs base (body (base.join campaignId)) ↔ _
      by_cases hrun : needsRunJson → fs.exist ((base.join campaignId).child [runJsonName])
      · rw [contained_touches (htouches _ hrun), below_join_iff hlinks htraverses]
        refine ⟨fun h _ _ _ => h, fun h hb => ?_⟩
        rw [join_namesBase hb] at hisDir hrun
        exact h hpermits hisDir hrun hb
      · rw [hsilent _ hrun]
        refine iff_of_true (contained_reject _) fun _ _ hrun' hb => hrun ?_
        rw [join_namesBase hb]
        exact hrun'

theorem contained_getCampaignStatus (hbase : campaignsBaseDir app = some base)
    (hlinks : NoLinksBelow fs base) (campaignId : Name) :
    Contained fs base (getCampaignStatus fs app permits campaignId) ↔
      StaysById fs permits base none true campaignId := by
  refine contained_onCampaign hbase hlinks (fun dir hrun => ?_) fun dir hrun => ?_
  · rw [if_pos (hrun rfl)]
    split
    · exact touches_read 500 dir
    · exact touches_served 200 (by simp [readRunJson])
  · rw [if_neg fun h => hrun fun _ => h]

theorem contained_pauseCampaign (hbase : campaignsBaseDir app = some base)
    (hlinks : NoLinksBelow fs base) (campaignId : Name) :
    Contained fs base (pauseCampaign fs app permits campaignId) ↔
      StaysById fs permits base (some .readwrite) false campaignId := by
  refine contained_onCampaign hbase hlinks (fun dir _ => ?_) fun dir hrun => ?_
  · split
    · split
      · exact touches_read 500 dir
      · split
        · exact touches_read 409 dir
        · split
          · exact touches_read 409 dir
          · exact touches_served 200 (by simp [readRunJson, pauseWrites])
    · exact touches_served 200 (by simp [pauseWrites])
  · exact absurd (by rintro ⟨⟩) hrun

theorem contained_resumeCampaign (hbase : campaignsBaseDir app = some base)
    (hlinks : NoLinksBelow fs base) (campaignId : Name) :
    Contained fs base (resumeCampaign fs app permits campaignId) ↔
      StaysById fs permits base (some .readwrite) false campaignId := by
  refine contained_onCampaign hbase hlinks (fun dir _ => ?_) fun dir hrun => ?_
  · have hwrites : ∀ a ∈ resumeWrites fs dir, a.dir = dir := by
      unfold resumeWrites
      split <;> simp
    split
    · split
      · exact touches_read 500 dir
      · split
        · exact touches_read 409 dir
        · split
          · exact touches_read 409 dir
          · exact touches_served 200 (List.forall_mem_cons.mpr ⟨rfl, hwrites⟩)
    · exact touches_served 200 hwrites
  · exact absurd (by rintro ⟨⟩) hrun

theorem contained_downloadCampaignBundle (hbase : campaignsBaseDir app = some base)
    (hlinks : NoLinksBelow fs base) (campaignId : Name) (includeSql : Bool) :
    Contained fs base (downloadCampaignBundle fs app permits campaignId includeSql) ↔
      StaysById fs permits base none false campaignId := by
  refine contained_onCampaign hbase hlinks (fun dir _ => touches_served 200 fun a ha => ?_)
    fun dir hrun => absurd (by rintro ⟨⟩) hrun
  obtain ⟨file, _, rfl⟩ := List.mem_map.mp ha
  rfl

theorem contained_batchUploadSamples (hbase : campaignsBaseDir app = some base)
    (hlinks : NoLinksBelow fs base) (campaignId : Name) :
    Contained fs base (batchUploadSamples fs app permits campaignId) ↔
      StaysById fs permits base (some .readwrite) true campaignId := by
  refine contained_onCampaign hbase hlinks (fun dir hrun => ?_) fun dir hrun => ?_
  · rw [if_pos (hrun rfl)]
    split
    · exact touches_read 500 dir
    · exact touches_served 200 (by simp [readRunJson])
  · rw [if_neg fun h => hrun fun _ => h]

theorem contained_requeueSample (hbase : campaignsBaseDir app = some base)
    (hlinks : NoLinksBelow fs base) (campaignId sampleId : Name) :
    Contained fs base (requeueSample fs app permits campaignId sampleId) ↔
      StaysById fs permits base (some .readwrite) true campaignId := by
  refine contained_onCampaign hbase hlinks (fun dir hrun => ?_) fun dir hrun => ?_
  · rw [if_pos (hrun rfl)]
    split
    · exact touches_read 500 dir
    · split
      · exact touches_read 404 dir
      · split
        · exact touches_served 200 (by simp [readRunJson])
        · exact touches_read 422 dir
  · rw [if_neg fun h => hrun fun _ => h]

/-! ## Endpoints with an `outdir` -/

theorem contained_writeCampaign (outdir : Path) (autoStart : Bool) :
    Contained fs base (writeCampaign fs outdir autoStart) ↔
      (fs.mkdir outdir → Below (fs.resolve base) (fs.resolve outdir)) := by
  unfold writeCampaign
  by_cases hmk : fs.mkdir outdir = true
  · rw [if_pos hmk]
    refine (contained_touches (touches_served 201 ?_)).trans ⟨fun h _ => h, fun h => h hmk⟩
    split <;> simp
  · rw [if_neg hmk]
    exact iff_of_true (contained_reject _) fun h => absurd h hmk

/-- The generated id is a name below the base directory. -/
theorem below_newCampaign (hlinks : NoLinksBelow fs base) (suffix : Suffix) :
    Below (fs.resolve base) (fs.resolve (base.join (newCampaignId suffix))) := by
  have hslash : '/' ∉ newCampaignId suffix := by
    intro h
    rcases List.mem_append.mp h with h | h
    · simp at h
    · rcases suffix.hex _ h with h | h
      · exact absurd h (by decide)
      · simp at h
  have hbase : ¬ NamesBase (newCampaignId suffix) := by
    rintro (h | h)
    · exact List.cons_ne_nil _ _ h
    · exact absurd (List.cons.inj h).1 (by decide)
  rw [join_name hslash hbase]
  exact below_child hlinks fun h => absurd (List.cons.inj h).1 (by decide)

theorem validate_iff (resolved base : Location) :
    validatePathWithinBase resolved base = true ↔ base <+: resolved := decide_eq_true_iff

/-- A location in the base directory is strictly below it unless it is the directory. -/
theorem below_iff_of_within {loc : Location} (h : fs.resolve base <+: loc) :
    Below (fs.resolve base) loc ↔ loc ≠ fs.resolve base :=
  ⟨fun hbelow => hbelow.2, fun hne => ⟨h, hne⟩⟩

theorem contained_createCampaign (hbase : campaignsBaseDir app = some base)
    (hlinks : NoLinksBelow fs base) (outdir : Option Name) (autoStart : Bool) (suffix : Suffix) :
    Contained fs base (createCampaign fs app permits outdir autoStart suffix) ↔
      Stays fs app permits base (.create outdir autoStart suffix) := by
  unfold createCampaign Stays
  by_cases hadmin : permits .admin = true
  swap
  · rw [Bool.eq_false_iff.mpr hadmin]
    exact iff_of_true (contained_reject 403) nofun
  rw [hadmin, hbase]
  show Contained fs base (if fs.mkdir base = true then _ else _) ↔ _
  by_cases hmk : fs.mkdir base = true
  swap
  · rw [if_neg hmk]
    exact iff_of_true (contained_reject 500) fun _ h => absurd h hmk
  rw [if_pos hmk]
  cases outdir with
  | none =>
    refine iff_of_true ?_ fun _ _ => nofun
    exact (contained_writeCampaign _ _).mpr fun _ => below_newCampaign hlinks suffix
  | some text =>
    show Contained fs base (if validatePathWithinBase (fs.resolve (Path.ofText text))
      (fs.resolve base) = true then _ else _) ↔ _
    by_cases hwithin : fs.resolve base <+: fs.resolve (Path.ofText text)
    · rw [if_pos ((validate_iff _ _).mpr hwithin), contained_writeCampaign, resolve_resolved,
        below_iff_of_within hwithin]
      refine ⟨fun h _ _ t ht hout => ?_, fun h hout => h rfl hmk text rfl hout⟩
      obtain rfl := Option.mem_some.mp ht
      exact h hout
    · rw [if_neg (fun h => hwithin ((validate_iff _ _).mp h))]
      refine iff_of_true (contained_reject 400) fun _ _ t ht _ heq => hwithin ?_
      obtain rfl := Option.mem_some.mp ht
      rw [heq]

/-! ## The comparisons -/

theorem checkOutdirs_cons (d : Name) (ds : List Name) :
    checkOutdirs fs app (fs.resolve base) (d :: ds) =
      if fs.isDir ⟨true, fs.absolute (Path.ofText d)⟩ then
        if validatePathWithinBase (fs.resolve (Path.ofText d)) (fs.resolve base) then
          (checkOutdirs fs app (fs.resolve base) ds).map
            (⟨true, fs.absolute (Path.ofText d)⟩ :: ·)
        else .error 403
      else .error 404 := by
  show (match resolveByOutdir fs d with
    | none => _
    | some dir => _) = _
  unfold resolveByOutdir
  by_cases hdir : fs.isDir ⟨true, fs.absolute (Path.ofText d)⟩ = true
  · rw [if_pos hdir, if_pos hdir]
    rfl
  · rw [if_neg hdir, if_neg hdir]

/-- The directories pass if each exists and is in the base directory. -/
theorem checkOutdirs_ok_iff (outdirs : List Name) (dirs : List Path) :
    checkOutdirs fs app (fs.resolve base) outdirs = .ok dirs ↔
      (∀ d ∈ outdirs, Accepted fs base d) ∧
        dirs = outdirs.map fun d => ⟨true, fs.absolute (Path.ofText d)⟩ := by
  induction outdirs generalizing dirs with
  | nil => exact ⟨fun h => ⟨nofun, (Except.ok.inj h).symm⟩, fun h => congrArg Except.ok h.2.symm⟩
  | cons d ds ih =>
    rw [checkOutdirs_cons, List.forall_mem_cons, List.map_cons]
    by_cases hdir : fs.isDir ⟨true, fs.absolute (Path.ofText d)⟩ = true
    swap
    · rw [if_neg hdir]
      exact iff_of_false nofun fun h => hdir h.1.1.1
    rw [if_pos hdir]
    by_cases hwithin : fs.resolve base <+: fs.resolve (Path.ofText d)
    swap
    · rw [if_neg fun h => hwithin ((validate_iff _ _).mp h)]
      exact iff_of_false nofun fun h => hwithin h.1.1.2
    rw [if_pos ((validate_iff _ _).mpr hwithin)]
    cases hrest : checkOutdirs fs app (fs.resolve base) ds with
    | error status =>
      refine iff_of_false nofun fun h => ?_
      have := (ih _).mpr ⟨h.1.2, rfl⟩
      rw [hrest] at this
      exact nomatch this
    | ok rest =>
      obtain ⟨haccepted, rfl⟩ := (ih rest).mp hrest
      constructor
      · intro h
        exact ⟨⟨⟨hdir, hwithin⟩, haccepted⟩, (Except.ok.inj h).symm⟩
      · intro h
        exact congrArg Except.ok h.2.symm

theorem dir_of_comparedFiles {dir : Path} : ∀ a ∈ comparedFiles fs dir, a.dir = dir := by
  have hlabel : ∀ a ∈ if fs.exist (dir.child [runJsonName]) then [readRunJson dir] else [],
      a.dir = dir := by
    split <;> simp [readRunJson]
  unfold comparedFiles
  refine List.forall_mem_append.mpr ⟨List.forall_mem_append.mpr ⟨hlabel, ?_⟩, hlabel⟩
  split <;> simp

/-- An answer about several directories. -/
theorem contained_served {status : Nat} {dirs : List Path} :
    Contained fs base ⟨status, dirs, dirs.flatMap (comparedFiles fs)⟩ ↔
      ∀ dir ∈ dirs, Below (fs.resolve base) (fs.resolve dir) := by
  constructor
  · intro h dir hdir
    exact h dir (List.mem_append_right _ hdir)
  · intro h d hd
    rcases List.mem_append.mp hd with hd | hd
    · obtain ⟨a, ha, rfl⟩ := List.mem_map.mp hd
      obtain ⟨dir, hdir, hfile⟩ := List.mem_flatMap.mp ha
      rw [dir_of_comparedFiles a hfile]
      exact h dir hdir
    · exact h d hd

theorem contained_compareCampaignsGet (hbase : campaignsBaseDir app = some base)
    (outdir : List Name) :
    Contained fs base (compareCampaignsGet fs app permits outdir) ↔
      Stays fs app permits base (.compareGet outdir) := by
  unfold compareCampaignsGet Stays
  by_cases hlength : outdir.length < 2
  · rw [if_pos hlength]
    exact iff_of_true (contained_reject 422) fun h => absurd h (Nat.not_le.mpr hlength)
  rw [if_neg hlength]
  by_cases hpermits : permits .readonly = true
  swap
  · rw [Bool.eq_false_iff.mpr hpermits]
    exact iff_of_true (contained_reject 403) fun _ => nofun
  rw [hpermits, if_neg (show ¬ (!true) = true from nofun)]
  by_cases hraw : (outdir.flatMap splitDirs).length < 2
  · rw [if_pos hraw]
    exact iff_of_true (contained_reject 400) fun _ _ h => absurd h (Nat.not_le.mpr hraw)
  rw [if_neg hraw, hbase]
  show Contained fs base (match checkOutdirs fs app (fs.resolve base) (outdir.flatMap splitDirs) with
    | .error status => reject status
    | .ok dirs => ⟨200, dirs, dirs.flatMap (comparedFiles fs)⟩) ↔ _
  cases hcheck : checkOutdirs fs app (fs.resolve base) (outdir.flatMap splitDirs) with
  | error status =>
    refine iff_of_true (contained_reject status) fun _ _ _ haccepted => ?_
    rw [(checkOutdirs_ok_iff _ _).mpr ⟨haccepted, rfl⟩] at hcheck
    exact nomatch hcheck
  | ok dirs =>
    obtain ⟨haccepted, rfl⟩ := (checkOutdirs_ok_iff _ _).mp hcheck
    show Contained fs base ⟨200, _, _⟩ ↔ _
    rw [contained_served, List.forall_mem_map]
    constructor
    · intro h _ _ _ _ d hd
      exact (h d hd).2
    · intro h d hd
      exact ⟨(haccepted d hd).2,
        h (Nat.not_lt.mp hlength) rfl (Nat.not_lt.mp hraw) haccepted d hd⟩

theorem contained_readEntry (dir : Path) :
    Contained fs base ⟨200, (readEntry fs dir).1, (readEntry fs dir).2⟩ ↔
      StaysAt fs base dir := by
  unfold readEntry StaysAt
  by_cases hrun : fs.exist (dir.child [runJsonName]) = true
  · rw [if_pos hrun]
    refine Iff.trans (contained_touches ?_) ⟨fun h _ => h, fun h => h hrun⟩
    cases runJson fs dir with
    | none => exact touches_served 200 (by simp [readRunJson])
    | some _ =>
      refine touches_served 200 (List.forall_mem_cons.mpr ⟨rfl, ?_⟩)
      split <;> simp
  · rw [if_neg hrun]
    exact iff_of_true nofun fun h => absurd h hrun

/-- An entry reaches the directory it is resolved to, if that has a `run.json`. -/
theorem contained_compareEntry (identifier : Identifier) :
    Contained fs base ⟨200, (compareEntry fs app identifier).1,
        (compareEntry fs app identifier).2⟩ ↔
      ∀ dir, resolveCampaignDir fs app identifier.campaignId identifier.outdir = some dir →
        StaysAt fs base dir := by
  unfold compareEntry
  cases resolveCampaignDir fs app identifier.campaignId identifier.outdir with
  | none => exact iff_of_true nofun nofun
  | some dir =>
    refine (contained_readEntry dir).trans ⟨fun h dir' h' => ?_, fun h => h dir rfl⟩
    rw [← Option.some.inj h']
    exact h

/-- An id is looked up in the base directory, then in the application's `outdir`. -/
theorem find_candidates (hbase : campaignsBaseDir app = some base) (campaignId : Name)
    (dir : Path) :
    resolveByCampaignId fs app campaignId = some dir ↔
      fs.isDir (base.join campaignId) ∧ dir = base.join campaignId ∨
      ¬ fs.isDir (base.join campaignId) ∧ ∃ outdir ∈ app.outdir,
        fs.isDir (outdir.join campaignId) ∧ dir = outdir.join campaignId := by
  unfold campaignsBaseDir at hbase
  unfold resolveByCampaignId
  cases hfirst : app.campaignsBaseDir with
  | some first =>
    rw [hfirst] at hbase
    obtain rfl := Option.some.inj hbase
    by_cases hdir : fs.isDir (first.join campaignId) = true
    · simpa [hdir] using eq_comm
    · cases app.outdir with
      | none => simp [hdir]
      | some outdir =>
        by_cases hout : fs.isDir (outdir.join campaignId) = true
        · simpa [hdir, hout] using eq_comm
        · simp [hdir, hout]
  | none =>
    rw [hfirst] at hbase
    have hout : app.outdir = some base := hbase
    by_cases hdir : fs.isDir (base.join campaignId) = true
    · simpa [hout, hdir] using eq_comm
    · simp [hout, hdir]

theorem contained_entry (hbase : campaignsBaseDir app = some base)
    (hlinks : NoLinksBelow fs base) (identifier : Identifier) :
    Contained fs base ⟨200, (compareEntry fs app identifier).1,
        (compareEntry fs app identifier).2⟩ ↔ StaysEntry fs app base identifier := by
  rw [contained_compareEntry]
  obtain ⟨campaignId, outdir⟩ := identifier
  cases outdir with
  | some outdir =>
    show (∀ dir, resolveByOutdir fs outdir = some dir → _) ↔ (_ → _)
    unfold resolveByOutdir
    by_cases hdir : fs.isDir ⟨true, fs.absolute (Path.ofText outdir)⟩ = true
    · have hstays : StaysAt fs base ⟨true, fs.absolute (Path.ofText outdir)⟩ ↔
          StaysAt fs base (Path.ofText outdir) := by
        unfold StaysAt
        rw [exist_absolute, resolve_absolute]
      rw [if_pos hdir, ← hstays]
      exact ⟨fun h _ => h _ rfl, fun h _ h' => Option.some.inj h' ▸ h hdir⟩
    · rw [if_neg hdir]
      exact iff_of_true nofun fun h => absurd h hdir
  | none =>
    cases campaignId with
    | none => exact iff_of_true nofun trivial
    | some campaignId =>
      show (∀ dir, (if traverses campaignId = true then none else _) = some dir → _) ↔ (_ → _)
      by_cases htraverses : traverses campaignId = true
      · rw [if_pos htraverses]
        exact iff_of_true nofun fun h => absurd htraverses h
      rw [if_neg htraverses]
      simp only [find_candidates hbase]
      have hbelow := below_join_iff hlinks (Bool.eq_false_iff.mpr htraverses)
      constructor
      · intro h _
        refine ⟨fun hdir hrun => hbelow.mp (h _ (.inl ⟨hdir, rfl⟩) hrun), ?_⟩
        intro hdir outdir hout hout'
        exact h _ (.inr ⟨hdir, outdir, hout, hout', rfl⟩)
      · rintro h dir (⟨hdir, rfl⟩ | ⟨hdir, outdir, hout, hout', rfl⟩)
        · exact fun hrun => hbelow.mpr ((h htraverses).1 hdir hrun)
        · exact (h htraverses).2 hdir outdir hout hout'

theorem contained_compareCampaignsPost (hbase : campaignsBaseDir app = some base)
    (hlinks : NoLinksBelow fs base) (campaigns : List Identifier) :
    Contained fs base (compareCampaignsPost fs app permits campaigns) ↔
      Stays fs app permits base (.comparePost campaigns) := by
  unfold compareCampaignsPost Stays
  by_cases hlength : campaigns.length < 2
  · rw [if_pos hlength]
    exact iff_of_true (contained_reject 422) fun h => absurd h (Nat.not_le.mpr hlength)
  rw [if_neg hlength]
  by_cases hpermits : permits .readonly = true
  swap
  · rw [Bool.eq_false_iff.mpr hpermits]
    exact iff_of_true (contained_reject 403) fun _ => nofun
  rw [hpermits, if_neg (show ¬ (!true) = true from nofun)]
  constructor
  · intro h _ _ i hi
    refine (contained_entry hbase hlinks i).mp fun d hd => h d ?_
    rcases List.mem_append.mp hd with hd | hd
    · obtain ⟨a, ha, rfl⟩ := List.mem_map.mp hd
      exact List.mem_append_left _ (List.mem_map.mpr ⟨a, List.mem_flatMap.mpr ⟨i, hi, ha⟩, rfl⟩)
    · exact List.mem_append_right _ (List.mem_flatMap.mpr ⟨i, hi, hd⟩)
  · intro h d hd
    have hentry := fun i hi => (contained_entry hbase hlinks i).mpr
      (h (Nat.not_lt.mp hlength) rfl i hi)
    rcases List.mem_append.mp hd with hd | hd
    · obtain ⟨a, ha, rfl⟩ := List.mem_map.mp hd
      obtain ⟨i, hi, ha⟩ := List.mem_flatMap.mp ha
      exact hentry i hi _ (List.mem_append_left _ (List.mem_map_of_mem ha))
    · obtain ⟨i, hi, hd⟩ := List.mem_flatMap.mp hd
      exact hentry i hi d (List.mem_append_right _ hd)

/-! ## Every request -/

/-- A request stays strictly below the base directory exactly if it does not name the base
directory itself, nor, in a `POST` comparison, one outside. -/
theorem contained_iff (fs : FileSystem) (app : App) (permits : Level → Bool) (base : Path)
    (hbase : campaignsBaseDir app = some base) (hlinks : NoLinksBelow fs base)
    (request : Request) :
    Contained fs base (handle fs app permits request) ↔ Stays fs app permits base request := by
  cases request with
  | create outdir autoStart suffix =>
    exact contained_createCampaign hbase hlinks outdir autoStart suffix
  | get campaignId => exact contained_getCampaignStatus hbase hlinks campaignId
  | pause campaignId => exact contained_pauseCampaign hbase hlinks campaignId
  | resume campaignId => exact contained_resumeCampaign hbase hlinks campaignId
  | download campaignId includeSql =>
    exact contained_downloadCampaignBundle hbase hlinks campaignId includeSql
  | upload campaignId => exact contained_batchUploadSamples hbase hlinks campaignId
  | requeue campaignId sampleId => exact contained_requeueSample hbase hlinks campaignId sampleId
  | compareGet outdir => exact contained_compareCampaignsGet hbase outdir
  | comparePost campaigns => exact contained_compareCampaignsPost hbase hlinks campaigns

/-! ## Two servers -/

/-- `/base/a` and `/home/b`, each with a `run.json`. -/
def twoCampaigns : FileSystem where
  nodes := [([['b', 'a', 's', 'e']], .directory), ([['b', 'a', 's', 'e'], ['a']], .directory),
    ([['b', 'a', 's', 'e'], ['a'], runJsonName], .file), ([['h', 'o', 'm', 'e']], .directory),
    ([['h', 'o', 'm', 'e'], ['b']], .directory),
    ([['h', 'o', 'm', 'e'], ['b'], runJsonName], .file)]
  link _ := none
  link_resolved := nofun
  cwd := []
  json _ := some ⟨true, none, []⟩

def basePath : Path := ⟨true, [['b', 'a', 's', 'e']]⟩

theorem contained_getCampaign :
    Contained twoCampaigns basePath
      (handle twoCampaigns ⟨some basePath, none⟩ (fun _ => true) (.get ['a'])) := by
  refine (contained_iff twoCampaigns ⟨some basePath, none⟩ (fun _ => true) basePath rfl
    (fun _ _ => rfl) (.get ['a'])).mpr fun _ _ _ => ?_
  rintro (h | h)
  · exact nomatch h
  · exact absurd (List.cons.inj h).1 (by decide)

/-- A comparison of `/home/b`, which is not below `/base`. -/
theorem compare_post_reads_anywhere :
    campaignsBaseDir ⟨some basePath, none⟩ = some basePath ∧ NoLinksBelow twoCampaigns basePath ∧
    ¬ Contained twoCampaigns basePath
      (handle twoCampaigns ⟨some basePath, none⟩ (fun _ => true)
        (.comparePost [⟨some ['a'], none⟩,
          ⟨none, some ['/', 'h', 'o', 'm', 'e', '/', 'b']⟩])) := by
  refine ⟨rfl, fun _ _ => rfl, fun h => ?_⟩
  have hread : (⟨true, [['h', 'o', 'm', 'e'], ['b']]⟩ : Path) ∈
      (handle twoCampaigns ⟨some basePath, none⟩ (fun _ => true)
        (.comparePost [⟨some ['a'], none⟩,
          ⟨none, some ['/', 'h', 'o', 'm', 'e', '/', 'b']⟩])).dirs := by
    decide +kernel
  exact absurd (h _ hread) (by decide +kernel)

end OSimFlow.Containment
