import Mathlib.Data.List.Forall2
import OSimFlow.Lib.Strip

/-!
# The names of the jobs

Three executors make the job's name from the task's. Kubernetes and Docker Swarm lower-case
it, replace separators by hyphens, cut it and strip it; no part of the result is the
submission's own. Nomad appends eight random hexadecimal digits, collapses what a label may
not contain, and cuts the whole at 63 characters behind the stripping, so that a long task
name pushes the digits out and a hyphen may be left at the end.

> `ownJobs_iff`: the names of a sequence of submissions are distinct on each substrate and
> admitted exactly if the task names are.
>
> `resubmitted_task_same_job`: a task that is submitted to Kubernetes again.

Names are lists of characters. `str.lower` is a parameter: it is Python's for ASCII letters,
and a hyphen keeps what stands before it and behind it apart.
-/

namespace OSimFlow.Executors.JobNames

open OSimFlow.Lib

/-! ## Python -/

/-- `str.lower`. -/
structure Lower where
  lower : List Char → List Char
  hyphen : ∀ s t, lower (s ++ '-' :: t) = lower s ++ '-' :: lower t
  ascii : ∀ s, (∀ c ∈ s, c.toNat < 128) → lower s = s.map Char.toLower

/-- The eight digits of `uuid.uuid4().hex[:8]`. -/
structure Suffix where
  chars : List Char
  length : chars.length = 8
  hex : ∀ c ∈ chars, c.isDigit ∨ c ∈ ['a', 'b', 'c', 'd', 'e', 'f']

/-- `[a-z0-9-]`. -/
def labelChar (c : Char) : Bool := c.isLower || c.isDigit || c = '-'

def prefixed (safeName : List Char) : List Char :=
  ['o', 's', 'i', 'm', 'f', 'l', 'o', 'w', '-'] ++ safeName

/-- `"osimflow-task"`. -/
def taskName : List Char :=
  ['o', 's', 'i', 'm', 'f', 'l', 'o', 'w', '-', 't', 'a', 's', 'k']

/-- `if not safe_name: safe_name = "osimflow-task"`. -/
def orTask (safeName : List Char) : List Char :=
  if safeName = [] then taskName else safeName

/-- `.replace(sep, "-")` for each of the separators. -/
def hyphenate (seps : Char → Bool) (c : Char) : Char := if seps c then '-' else c

/-! ## The three executors -/

/-- Lower case, hyphens for the separators, the first `n` characters, stripped. -/
def safeName (L : Lower) (seps : Char → Bool) (n : Nat) (name : List Char) : List Char :=
  strip (fun c => decide (c = '-')) (((L.lower name).map (hyphenate seps)).take n)

def kubernetesSep (c : Char) : Bool := c = '_'

def swarmSep (c : Char) : Bool := c = '_' || c = '.'

/-- `KubernetesExecutor._build_job_name`. -/
def buildJobName (L : Lower) (name : List Char) : List Char :=
  prefixed (orTask (safeName L kubernetesSep 253 name))

/-- `DockerSwarmExecutor._build_service_name`. -/
def buildServiceName (L : Lower) (name : List Char) : List Char :=
  prefixed (orTask (safeName L swarmSep 128 name))

/-- `_DNS1123_LABEL.sub("-", s)`: one hyphen for a run of other characters; `inRun`: the last
character was one. -/
def collapse (inRun : Bool) : List Char → List Char
  | [] => []
  | c :: cs =>
    if labelChar c then c :: collapse false cs
    else if inRun then collapse true cs
    else '-' :: collapse true cs

/-- `_slugify_job_name`. -/
def slugifyJobName (L : Lower) (name : List Char) : List Char :=
  let slug := (strip (fun c => decide (c = '-')) (collapse false (L.lower name))).take 63
  if slug = [] then ['t', 'a', 's', 'k'] else slug

/-- The job id of `_build_job_spec`. -/
def nomadJobId (L : Lower) (name : List Char) (suffix : Suffix) : List Char :=
  slugifyJobName L (prefixed (name ++ '-' :: suffix.chars))

/-! ## Submissions -/

inductive Substrate where
  | kubernetes
  | nomad
  | swarm
deriving DecidableEq

/-- A submit call, with the digits that Nomad's draws. -/
inductive Submission where
  | kubernetes (name : List Char)
  | nomad (name : List Char) (suffix : Suffix)
  | swarm (name : List Char)

def Submission.substrate : Submission → Substrate
  | .kubernetes _ => .kubernetes
  | .nomad _ _ => .nomad
  | .swarm _ => .swarm

def jobName (L : Lower) : Submission → List Char
  | .kubernetes name => buildJobName L name
  | .nomad name suffix => nomadJobId L name suffix
  | .swarm name => buildServiceName L name

/-- The length the builders state: a DNS-1123 label for Nomad, a subdomain else. -/
def Substrate.maxLength : Substrate → Nat
  | .nomad => 63
  | .kubernetes | .swarm => 253

/-- Lower-case letters, digits and hyphens, none at the ends, and not too many. -/
structure Admitted (maxLength : Nat) (name : List Char) : Prop where
  chars : ∀ c ∈ name, labelChar c
  first : ∃ c, name.head? = some c ∧ c ≠ '-'
  last : ∃ c, name.getLast? = some c ∧ c ≠ '-'
  length : name.length ≤ maxLength

/-- Each submission has a name of its own on its substrate, and the substrate admits it. -/
def OwnJobs (L : Lower) (subs : List Submission) : Prop :=
  subs.Pairwise (fun a b => a.substrate = b.substrate → jobName L a ≠ jobName L b) ∧
  ∀ s ∈ subs, Admitted s.substrate.maxLength (jobName L s)

/-- No digits are drawn twice. -/
def SuffixesDistinct (subs : List Submission) : Prop :=
  subs.Pairwise fun a b => ∀ name suffix name' suffix', a = .nomad name suffix →
    b = .nomad name' suffix' → suffix.chars ≠ suffix'.chars

/-! ## What is asked of the task names -/

/-- The first `n` characters in lower case, without hyphens and separators at the ends. -/
def core (L : Lower) (seps : Char → Bool) (n : Nat) (name : List Char) : List Char :=
  strip (fun c => decide (c = '-') || seps c) ((L.lower name).take n)

/-- Equal characters, or separators both. -/
def SameChar (seps : Char → Bool) (c d : Char) : Prop :=
  c = d ∨ (c = '-' ∨ seps c) ∧ (d = '-' ∨ seps d)

/-- Two names that differ in nothing but separators, the empty one read as `osimflow-task`. -/
def Alike (seps : Char → Bool) (s t : List Char) : Prop :=
  List.Forall₂ (SameChar seps) (orTask s) (orTask t)

/-- The name in lower case, with one hyphen for a run of other characters. -/
def slugged (L : Lower) (name : List Char) : List Char := collapse false (L.lower name)

/-- A name that the substrate admits. -/
def WellNamed (L : Lower) : Submission → Prop
  | .kubernetes name =>
    (∀ c ∈ core L kubernetesSep 253 name, labelChar c ∨ kubernetesSep c) ∧
      (core L kubernetesSep 253 name).length ≤ 244
  | .nomad name _ => (slugged L name).length ≠ 53 ∧ (slugged L name)[53]? ≠ some '-'
  | .swarm name => ∀ c ∈ core L swarmSep 128 name, labelChar c ∨ swarmSep c

/-- Two submissions whose names the substrate tells apart. -/
def Apart (L : Lower) : Submission → Submission → Prop
  | .kubernetes name, .kubernetes name' =>
    ¬ Alike kubernetesSep (core L kubernetesSep 253 name) (core L kubernetesSep 253 name')
  | .swarm name, .swarm name' =>
    ¬ Alike swarmSep (core L swarmSep 128 name) (core L swarmSep 128 name')
  | .nomad name suffix, .nomad name' suffix' =>
    (slugged L name).length ≤ 45 ∧ (slugged L name').length ≤ 45 ∨
    (slugged L name ++ '-' :: suffix.chars).take 54 ≠
      (slugged L name' ++ '-' :: suffix'.chars).take 54
  | _, _ => True

/-! ## Kubernetes and Docker Swarm -/

theorem prefixed_inj {s t : List Char} : prefixed s = prefixed t ↔ s = t :=
  List.append_right_inj _

/-- The prefix is a label. -/
theorem labelChar_or_mem {s : List Char} {c : Char} (h : c ∈ prefixed s) :
    labelChar c = true ∨ c ∈ s := by
  have hpfx : ∀ c ∈ ['o', 's', 'i', 'm', 'f', 'l', 'o', 'w', '-'], labelChar c = true :=
    List.all_eq_true.mp rfl
  exact (List.mem_append.mp h).imp (hpfx c) id

theorem hyphenate_eq_hyphen (seps : Char → Bool) (c : Char) :
    decide (hyphenate seps c = '-') = (decide (c = '-') || seps c) := by
  unfold hyphenate
  cases h : seps c with
  | true =>
    rw [if_pos rfl, Bool.or_true]
    rfl
  | false => rw [if_neg Bool.false_ne_true, Bool.or_false]

/-- Stripping first and replacing then is the same. -/
theorem safeName_eq (L : Lower) (seps : Char → Bool) (n : Nat) (name : List Char) :
    safeName L seps n name = (core L seps n name).map (hyphenate seps) := by
  unfold safeName core
  rw [← List.map_take, strip_map]
  congr 2
  funext c
  exact hyphenate_eq_hyphen seps c

theorem hyphenate_eq_iff (seps : Char → Bool) (c d : Char) :
    hyphenate seps c = hyphenate seps d ↔ SameChar seps c d := by
  unfold hyphenate SameChar
  by_cases hc : seps c = true <;> by_cases hd : seps d = true <;> grind

/-- The separators are not in the name that stands for the empty one. -/
theorem orTask_map {seps : Char → Bool} (htask : taskName.map (hyphenate seps) = taskName)
    (s : List Char) : orTask (s.map (hyphenate seps)) = (orTask s).map (hyphenate seps) := by
  unfold orTask
  by_cases h : s = []
  · rw [h, List.map_nil, if_pos rfl, htask]
  · rw [if_neg h, if_neg fun hmap => h (List.map_eq_nil_iff.mp hmap)]

section

variable {L : Lower} {seps : Char → Bool} {n : Nat}

theorem prefixed_safeName_eq_iff (htask : taskName.map (hyphenate seps) = taskName)
    (name name' : List Char) :
    prefixed (orTask (safeName L seps n name)) = prefixed (orTask (safeName L seps n name')) ↔
      Alike seps (core L seps n name) (core L seps n name') := by
  rw [prefixed_inj, safeName_eq, safeName_eq, orTask_map htask, orTask_map htask, Alike,
    ← List.forall₂_eq_eq_eq, List.forall₂_map_left_iff, List.forall₂_map_right_iff]
  constructor
  · exact fun h => h.imp fun c d => (hyphenate_eq_iff seps c d).mp
  · exact fun h => h.imp fun c d => (hyphenate_eq_iff seps c d).mpr

theorem labelChar_hyphenate (c : Char) :
    labelChar (hyphenate seps c) = true ↔ labelChar c = true ∨ seps c = true := by
  unfold hyphenate
  by_cases h : seps c = true
  · rw [if_pos h]
    exact iff_of_true (by decide) (.inr h)
  · rw [if_neg h]
    exact ⟨.inl, fun h' => h'.resolve_right h⟩

/-- The last character of a name that is built so is no hyphen. -/
theorem last_orTask (s : List Char)
    (hlast : ∀ c, s.getLast? = some c → (decide (c = '-') || seps c) = false) :
    ∃ c, (prefixed (orTask (s.map (hyphenate seps)))).getLast? = some c ∧ c ≠ '-' := by
  unfold prefixed orTask
  by_cases hs : s = []
  · rw [hs, List.map_nil, if_pos rfl]
    exact ⟨'k', rfl, by decide⟩
  · have hmap : s.map (hyphenate seps) ≠ [] := fun h => hs (List.map_eq_nil_iff.mp h)
    have hc := hlast _ (List.getLast?_eq_some_getLast hs)
    refine ⟨s.getLast hs, ?_, ?_⟩
    · rw [if_neg hmap, List.getLast?_append_of_ne_nil _ hmap, List.getLast?_map,
        List.getLast?_eq_some_getLast hs]
      show some (hyphenate seps (s.getLast hs)) = _
      unfold hyphenate
      rw [if_neg (by grind)]
    · grind

/-- A name of at most 244 characters that a label may contain, and no other, is admitted. -/
theorem admitted_prefixed_iff (name : List Char) :
    Admitted 253 (prefixed (orTask (safeName L seps n name))) ↔
      (∀ c ∈ core L seps n name, labelChar c ∨ seps c) ∧ (core L seps n name).length ≤ 244 := by
  rw [safeName_eq]
  have hchars : (∀ c ∈ prefixed (orTask ((core L seps n name).map (hyphenate seps))),
      labelChar c = true) ↔ ∀ c ∈ core L seps n name, labelChar c ∨ seps c := by
    have htask : ∀ c ∈ taskName, labelChar c = true := List.all_eq_true.mp rfl
    unfold orTask
    constructor
    · intro h c hc
      have hne : (core L seps n name).map (hyphenate seps) ≠ [] :=
        List.ne_nil_of_mem (List.mem_map_of_mem hc)
      rw [if_neg hne] at h
      exact (labelChar_hyphenate c).mp (h _ (List.mem_append_right _ (List.mem_map_of_mem hc)))
    · intro h c hc
      rcases labelChar_or_mem hc with hp | hs
      · exact hp
      · by_cases hnil : (core L seps n name).map (hyphenate seps) = []
        · rw [if_pos hnil] at hs
          exact htask c hs
        · rw [if_neg hnil] at hs
          obtain ⟨d, hd, rfl⟩ := List.mem_map.mp hs
          exact (labelChar_hyphenate d).mpr (h d hd)
  have hlength : (prefixed (orTask ((core L seps n name).map (hyphenate seps)))).length ≤ 253 ↔
      (core L seps n name).length ≤ 244 := by
    unfold prefixed orTask taskName
    by_cases hnil : core L seps n name = []
    · rw [hnil, List.map_nil, if_pos rfl]
      decide
    · rw [if_neg fun h => hnil (List.map_eq_nil_iff.mp h), List.length_append, List.length_map]
      show 9 + _ ≤ 253 ↔ _
      omega
  constructor
  · exact fun h => ⟨hchars.mp h.chars, hlength.mp h.length⟩
  · rintro ⟨hc, hl⟩
    have hlast : ∀ c, (core L seps n name).getLast? = some c →
        (decide (c = '-') || seps c) = false :=
      fun c h => @last_strip _ (fun c => decide (c = '-') || seps c) _ c h
    exact ⟨hchars.mpr hc, ⟨'o', rfl, by decide⟩, last_orTask _ hlast, hlength.mpr hl⟩

end

/-! ## Nomad -/

/-- A label character separates the runs. -/
theorem collapse_append {c : Char} (hc : labelChar c = true) (inRun : Bool) (s t : List Char) :
    collapse inRun (s ++ c :: t) = collapse inRun s ++ c :: collapse false t := by
  induction s generalizing inRun with
  | nil =>
    show collapse inRun (c :: t) = c :: collapse false t
    rw [collapse, if_pos hc]
  | cons d s ih =>
    rw [List.cons_append, collapse, collapse]
    by_cases hd : labelChar d = true
    · rw [if_pos hd, if_pos hd, ih]
      rfl
    · rw [if_neg hd, if_neg hd]
      cases inRun with
      | true => exact ih true
      | false =>
        show '-' :: collapse true (s ++ c :: t) = '-' :: (collapse true s ++ c :: collapse false t)
        rw [ih]

/-- A label stays as it is. -/
theorem collapse_label {s : List Char} (hs : ∀ c ∈ s, labelChar c = true) :
    collapse false s = s := by
  induction s with
  | nil => rfl
  | cons c s ih =>
    rw [collapse, if_pos (hs c List.mem_cons_self),
      ih fun d hd => hs d (List.mem_cons_of_mem c hd)]

theorem labelChar_of_mem_collapse {c : Char} : ∀ {s : List Char} {inRun : Bool},
    c ∈ collapse inRun s → labelChar c = true
  | [], _, h => nomatch h
  | d :: s, inRun, h => by
    rw [collapse] at h
    by_cases hd : labelChar d = true
    · rw [if_pos hd] at h
      rcases List.mem_cons.mp h with rfl | h
      · exact hd
      · exact labelChar_of_mem_collapse h
    · rw [if_neg hd] at h
      cases inRun with
      | true => exact labelChar_of_mem_collapse h
      | false =>
        rcases List.mem_cons.mp h with rfl | h
        · decide
        · exact labelChar_of_mem_collapse h

/-- A hexadecimal digit is a lower-case ASCII label character, and no hyphen. -/
theorem hex_char (suffix : Suffix) {c : Char} (hc : c ∈ suffix.chars) :
    labelChar c = true ∧ c ≠ '-' ∧ c.toNat < 128 ∧ c.toLower = c := by
  have hdigit : c.isDigit = true → labelChar c = true ∧ c ≠ '-' ∧ c.toNat < 128 ∧
      c.toLower = c := by
    intro h
    have hrange : 48 ≤ c.val.toNat ∧ c.val.toNat ≤ 57 := by
      simpa [Char.isDigit, UInt32.le_iff_toNat_le] using h
    refine ⟨by unfold labelChar; rw [h, Bool.or_true, Bool.true_or], ?_, ?_, ?_⟩
    · rintro rfl
      exact absurd h (by decide)
    · show c.val.toNat < 128
      omega
    · unfold Char.toLower
      refine dif_neg fun hupper => ?_
      have : 65 ≤ c.val.toNat := by simpa [UInt32.le_iff_toNat_le] using hupper.1
      omega
  rcases suffix.hex c hc with h | h
  · exact hdigit h
  · revert h
    simp only [List.mem_cons, List.not_mem_nil, or_false]
    rintro (rfl | rfl | rfl | rfl | rfl | rfl) <;> decide

/-- The digits end in one that is no hyphen. -/
theorem suffix_concat (suffix : Suffix) :
    ∃ ds d, suffix.chars = ds ++ [d] ∧ ds.length = 7 ∧ d ≠ '-' := by
  have hne : suffix.chars ≠ [] := by
    intro h
    have := suffix.length
    rw [h] at this
    exact nomatch this
  refine ⟨suffix.chars.dropLast, suffix.chars.getLast hne,
    (List.dropLast_append_getLast hne).symm, ?_, (hex_char suffix (List.getLast_mem hne)).2.1⟩
  rw [List.length_dropLast, suffix.length]

/-- The id is the first 63 characters of prefix, collapsed name and digits. -/
theorem nomadJobId_eq (L : Lower) (name : List Char) (suffix : Suffix) :
    nomadJobId L name suffix =
      prefixed ((slugged L name ++ '-' :: suffix.chars).take 54) := by
  have hpfx : prefixed (name ++ '-' :: suffix.chars) =
      ['o', 's', 'i', 'm', 'f', 'l', 'o', 'w'] ++ '-' :: (name ++ '-' :: suffix.chars) := rfl
  have hdigits : L.lower suffix.chars = suffix.chars := by
    rw [L.ascii _ fun c hc => (hex_char suffix hc).2.2.1]
    exact (List.map_congr_left fun c hc => (hex_char suffix hc).2.2.2).trans (List.map_id _)
  have hword : L.lower ['o', 's', 'i', 'm', 'f', 'l', 'o', 'w'] =
      ['o', 's', 'i', 'm', 'f', 'l', 'o', 'w'] := by
    rw [L.ascii _ (by simp)]
    rfl
  have hlower : L.lower (prefixed (name ++ '-' :: suffix.chars)) =
      ['o', 's', 'i', 'm', 'f', 'l', 'o', 'w'] ++
        '-' :: (L.lower name ++ '-' :: suffix.chars) := by
    rw [hpfx, L.hyphen, L.hyphen, hword, hdigits]
  have hcollapse : collapse false (L.lower (prefixed (name ++ '-' :: suffix.chars))) =
      prefixed (slugged L name ++ '-' :: suffix.chars) := by
    rw [hlower, collapse_append (by decide), collapse_append (by decide),
      collapse_label fun c hc => (hex_char suffix hc).1, collapse_label (List.all_eq_true.mp rfl)]
    rfl
  obtain ⟨ds, d, hsuffix, -, hd⟩ := suffix_concat suffix
  -- nothing is stripped: the first character is an `o`, the last a digit
  have hstrip : strip (fun c => decide (c = '-'))
      (prefixed (slugged L name ++ '-' :: suffix.chars)) =
      prefixed (slugged L name ++ '-' :: suffix.chars) := by
    have hform : prefixed (slugged L name ++ '-' :: suffix.chars) =
        'o' :: ((['s', 'i', 'm', 'f', 'l', 'o', 'w', '-'] ++
          (slugged L name ++ '-' :: ds)) ++ [d]) := by
      rw [hsuffix]
      simp [prefixed]
    rw [hform]
    exact strip_eq_self (by decide) (decide_eq_false hd)
  unfold nomadJobId slugifyJobName
  rw [hcollapse, hstrip]
  have htake : (prefixed (slugged L name ++ '-' :: suffix.chars)).take 63 =
      prefixed ((slugged L name ++ '-' :: suffix.chars).take 54) := rfl
  rw [htake]
  exact if_neg (List.cons_ne_nil _ _)

/-- Only a cut can leave a hyphen at the end. -/
theorem admitted_nomadJobId_iff (L : Lower) (name : List Char) (suffix : Suffix) :
    Admitted 63 (nomadJobId L name suffix) ↔
      (slugged L name).length ≠ 53 ∧ (slugged L name)[53]? ≠ some '-' := by
  rw [nomadJobId_eq]
  obtain ⟨ds, d, hsuffix, hds, hd⟩ := suffix_concat suffix
  have hlen : (slugged L name ++ '-' :: suffix.chars).length = (slugged L name).length + 9 := by
    rw [List.length_append, List.length_cons, suffix.length]
  have hne : (slugged L name ++ '-' :: suffix.chars).take 54 ≠ [] := by
    intro h
    have := congrArg List.length h
    rw [List.length_take, hlen, List.length_nil] at this
    omega
  have hlast : (prefixed ((slugged L name ++ '-' :: suffix.chars).take 54)).getLast? =
      ((slugged L name ++ '-' :: suffix.chars).take 54).getLast? := by
    unfold prefixed
    exact List.getLast?_append_of_ne_nil _ hne
  have hchars : ∀ c ∈ prefixed ((slugged L name ++ '-' :: suffix.chars).take 54),
      labelChar c = true := by
    intro c hc
    rcases labelChar_or_mem hc with hp | hs
    · exact hp
    · rcases List.mem_append.mp (List.mem_of_mem_take hs) with hs | hs
      · exact labelChar_of_mem_collapse hs
      · rcases List.mem_cons.mp hs with rfl | hs
        · decide
        · exact (hex_char suffix hs).1
  have hlength : (prefixed ((slugged L name ++ '-' :: suffix.chars).take 54)).length ≤ 63 := by
    unfold prefixed
    rw [List.length_append, List.length_take]
    show 9 + _ ≤ 63
    omega
  have hend : (∃ c, ((slugged L name ++ '-' :: suffix.chars).take 54).getLast? = some c ∧
      c ≠ '-') ↔ (slugged L name).length ≠ 53 ∧ (slugged L name)[53]? ≠ some '-' := by
    by_cases hshort : (slugged L name).length ≤ 45
    · -- the digits are all there
      have htake : (slugged L name ++ '-' :: suffix.chars).take 54 =
          (slugged L name ++ '-' :: ds) ++ [d] := by
        rw [List.take_of_length_le (by omega), hsuffix, List.append_assoc, List.cons_append]
      rw [htake, List.getLast?_concat]
      refine iff_of_true ⟨d, rfl, hd⟩ ⟨by omega, ?_⟩
      rw [List.getElem?_eq_none (by omega)]
      exact nofun
    · have hget : ((slugged L name ++ '-' :: suffix.chars).take 54).getLast? =
          (slugged L name ++ '-' :: suffix.chars)[53]? := by
        rw [List.getLast?_eq_getElem?, List.length_take, hlen, Nat.min_eq_left (by omega),
          List.getElem?_take_of_lt (by omega)]
      rw [hget]
      rcases Nat.lt_trichotomy (slugged L name).length 53 with hlt | heq | hgt
      · -- the last character is one of the digits
        have hin : 53 - (slugged L name).length - 1 < suffix.chars.length := by
          rw [suffix.length]
          omega
        have hdigit : (slugged L name ++ '-' :: suffix.chars)[53]? =
            some suffix.chars[53 - (slugged L name).length - 1] := by
          rw [List.getElem?_append_right (by omega), List.getElem?_cons,
            if_neg (by omega), List.getElem?_eq_getElem hin]
        rw [hdigit, List.getElem?_eq_none (by omega)]
        refine iff_of_true ⟨_, rfl, (hex_char suffix (List.getElem_mem hin)).2.1⟩
          ⟨by omega, nofun⟩
      · have hhyphen : (slugged L name ++ '-' :: suffix.chars)[53]? = some '-' := by
          rw [List.getElem?_append_right (by omega), heq]
          rfl
        rw [hhyphen]
        refine iff_of_false ?_ fun h => h.1 heq
        rintro ⟨c, hc, hne⟩
        exact hne (Option.some.inj hc).symm
      · rw [List.getElem?_append_left hgt, List.getElem?_eq_getElem hgt]
        constructor
        · rintro ⟨c, hc, hne⟩
          refine ⟨by omega, fun h => hne ?_⟩
          rw [← Option.some.inj hc]
          exact Option.some.inj h
        · rintro ⟨-, h⟩
          exact ⟨_, rfl, fun hc => h (congrArg some hc)⟩
  constructor
  · intro h
    obtain ⟨c, hc, hne'⟩ := h.last
    exact hend.mp ⟨c, hlast.symm.trans hc, hne'⟩
  · intro h
    obtain ⟨c, hc, hne'⟩ := hend.mpr h
    exact ⟨hchars, ⟨'o', rfl, by decide⟩, ⟨c, hlast.trans hc, hne'⟩, hlength⟩

/-- Short names keep their digits, and so are apart. -/
theorem nomadJobId_ne_iff (L : Lower) (name name' : List Char) {suffix suffix' : Suffix}
    (hsuffix : suffix.chars ≠ suffix'.chars) :
    nomadJobId L name suffix ≠ nomadJobId L name' suffix' ↔
      (slugged L name).length ≤ 45 ∧ (slugged L name').length ≤ 45 ∨
      (slugged L name ++ '-' :: suffix.chars).take 54 ≠
        (slugged L name' ++ '-' :: suffix'.chars).take 54 := by
  rw [nomadJobId_eq, nomadJobId_eq, ne_eq, prefixed_inj]
  constructor
  · exact .inr
  · rintro (⟨hshort, hshort'⟩ | h)
    · intro heq
      have hlen : (slugged L name ++ '-' :: suffix.chars).length ≤ 54 := by
        rw [List.length_append, List.length_cons, suffix.length]
        omega
      have hlen' : (slugged L name' ++ '-' :: suffix'.chars).length ≤ 54 := by
        rw [List.length_append, List.length_cons, suffix'.length]
        omega
      rw [List.take_of_length_le hlen, List.take_of_length_le hlen'] at heq
      have htail : '-' :: suffix.chars = '-' :: suffix'.chars := by
        refine List.append_inj_right' heq ?_
        rw [List.length_cons, List.length_cons, suffix.length, suffix'.length]
      exact hsuffix (List.cons.inj htail).2
    · exact h

/-! ## Sequences of submissions -/

theorem admitted_iff (L : Lower) (s : Submission) :
    Admitted s.substrate.maxLength (jobName L s) ↔ WellNamed L s := by
  cases s with
  | kubernetes name => exact admitted_prefixed_iff name
  | nomad name suffix => exact admitted_nomadJobId_iff L name suffix
  | swarm name =>
    -- at most 128 characters are left, so the length is no question
    have hlength : (core L swarmSep 128 name).length ≤ 244 := by
      have h := length_strip_le (fun c => decide (c = '-') || swarmSep c)
        ((L.lower name).take 128)
      have h' := List.length_take_le 128 (L.lower name)
      unfold core
      omega
    refine (admitted_prefixed_iff name).trans ?_
    exact ⟨fun h => h.1, fun h => ⟨h, hlength⟩⟩

theorem apart_iff (L : Lower) {a b : Submission}
    (hsuffix : ∀ name suffix name' suffix', a = .nomad name suffix → b = .nomad name' suffix' →
      suffix.chars ≠ suffix'.chars) :
    (a.substrate = b.substrate → jobName L a ≠ jobName L b) ↔ Apart L a b := by
  cases a with
  | kubernetes name =>
    cases b with
    | kubernetes name' =>
      have h := prefixed_safeName_eq_iff (L := L) (n := 253)
        (show taskName.map (hyphenate kubernetesSep) = taskName by decide) name name'
      exact ⟨fun hne hal => hne rfl (h.mpr hal), fun hn _ heq => hn (h.mp heq)⟩
    | nomad _ _ => exact iff_of_true nofun trivial
    | swarm _ => exact iff_of_true nofun trivial
  | nomad name suffix =>
    cases b with
    | nomad name' suffix' =>
      have h := nomadJobId_ne_iff L name name' (hsuffix _ _ _ _ rfl rfl)
      exact ⟨fun hne => h.mp (hne rfl), fun hap _ => h.mpr hap⟩
    | kubernetes _ => exact iff_of_true nofun trivial
    | swarm _ => exact iff_of_true nofun trivial
  | swarm name =>
    cases b with
    | swarm name' =>
      have h := prefixed_safeName_eq_iff (L := L) (n := 128)
        (show taskName.map (hyphenate swarmSep) = taskName by decide) name name'
      exact ⟨fun hne hal => hne rfl (h.mpr hal), fun hn _ heq => hn (h.mp heq)⟩
    | kubernetes _ => exact iff_of_true nofun trivial
    | nomad _ _ => exact iff_of_true nofun trivial

/-- A sequence of submissions has distinct and admitted job names exactly if its task names
are well formed and pairwise apart. -/
theorem ownJobs_iff (L : Lower) (subs : List Submission) (h : SuffixesDistinct subs) :
    OwnJobs L subs ↔ subs.Pairwise (Apart L) ∧ ∀ s ∈ subs, WellNamed L s := by
  unfold OwnJobs
  refine and_congr ?_ (forall₂_congr fun s _ => admitted_iff L s)
  unfold SuffixesDistinct at h
  induction subs with
  | nil => exact iff_of_true .nil .nil
  | cons a subs ih =>
    rw [List.pairwise_cons] at h
    rw [List.pairwise_cons, List.pairwise_cons, ih h.2]
    refine and_congr (forall₂_congr fun b hb => ?_) Iff.rfl
    exact apart_iff L (h.1 b hb)

/-- `str.lower` on ASCII. -/
def asciiLower : Lower where
  lower := List.map Char.toLower
  hyphen s t := by
    rw [List.map_append, List.map_cons]
    rfl
  ascii _ _ := rfl

def firstDigits : Suffix := ⟨['0', '1', '2', '3', 'a', 'b', 'c', 'd'], rfl, by simp⟩

/-- A task name on each substrate. -/
def threeSubstrates : List Submission :=
  [.kubernetes ['s', 'i', 'm', '_', '1'], .nomad ['s', 'i', 'm', '_', '1'] firstDigits,
    .swarm ['s', 'i', 'm', '_', '1']]

theorem ownJobs_threeSubstrates : OwnJobs asciiLower threeSubstrates := by
  refine (ownJobs_iff asciiLower threeSubstrates ?_).mpr ⟨?_, ?_⟩
  · refine .cons ?_ (.cons ?_ (.cons nofun .nil))
    · rintro b - _ _ _ _ ⟨⟩
    · rintro b hb _ _ _ _ - rfl
      exact absurd hb (by simp)
  · refine .cons ?_ (.cons ?_ (.cons nofun .nil))
    · intro b hb
      rcases List.mem_cons.mp hb with rfl | hb
      · trivial
      · rw [List.mem_singleton.mp hb]
        trivial
    · intro b hb
      rw [List.mem_singleton.mp hb]
      trivial
  · have hall (seps : Char → Bool) (l : List Char)
        (h : l.all (fun c => labelChar c || seps c) = true) :
        ∀ c ∈ l, labelChar c ∨ seps c := by
      intro c hc
      have := List.all_eq_true.mp h c hc
      simpa using this
    intro s hs
    unfold threeSubstrates at hs
    simp only [List.mem_cons, List.not_mem_nil, or_false] at hs
    rcases hs with rfl | rfl | rfl
    · exact ⟨hall kubernetesSep _ (by decide), by decide⟩
    · exact ⟨by decide, by decide⟩
    · exact hall swarmSep _ (by decide)

/-- The same task, submitted to Kubernetes again by a retry. -/
theorem resubmitted_task_same_job :
    SuffixesDistinct [.kubernetes ['s', 'i', 'm', '_', '1'],
      .kubernetes ['s', 'i', 'm', '_', '1']] ∧
    ¬ OwnJobs asciiLower [.kubernetes ['s', 'i', 'm', '_', '1'],
      .kubernetes ['s', 'i', 'm', '_', '1']] := by
  refine ⟨.cons (fun b _ _ _ _ _ h => nomatch h) (.cons nofun .nil), fun h => ?_⟩
  exact (List.pairwise_cons.mp h.1).1 _ List.mem_cons_self rfl rfl

end OSimFlow.Executors.JobNames
