import Mathlib
import OSimFlow.Errors
import OSimFlow.Lib.Dict
import OSimFlow.Lib.Separator
import OSimFlow.Lib.Sorted

/-!
# Storages that share a bucket

S3, GCS and Azure storages join the configured prefix and the path with a `/` on
upload and take it off again when they list. The bucket is a map from keys to bytes,
listed by string prefix. What a storage should show is told by the uploads alone: the
keys given to storages with the same prefix, and for each the last bytes.

As long as no configured prefix is a path inside another one, the keys of different
prefixes never meet (`remote_inj`) and a listing under a path is exact. A listing of
everything asks the bucket for the bare prefix, without the `/`, and so also finds the
keys of a storage whose prefix merely begins with the same characters; they come back
with that prefix still on them. `namespaced_iff` says that this is the only leak.
-/

namespace OSimFlow.Storage

open OSimFlow.Lib (Dict sep_comparable sortedBy sortedBy_perm sortedBy_congr)

/-! ## The storages -/

/-- The object stores. -/
inductive Backend where
  | s3
  | gcs
  | azure
deriving DecidableEq

/-- The class that talks to it. -/
def Backend.className : Backend → String
  | s3 => "S3Storage"
  | gcs => "GCSStorage"
  | azure => "AzureBlobStorage"

/-- A storage over the bucket. -/
structure ObjectStorage where
  backend : Backend
  /-- `self.prefix`. -/
  keyPrefix : String
deriving DecidableEq

/-- `s.rstrip("/")`. -/
def rstripSlash (s : String) : String :=
  String.ofList (s.toList.rdropWhile fun c => decide (c = '/'))

/-- `S3Storage(bucket, prefix)`. -/
def s3Storage (configured : String) : ObjectStorage := ⟨.s3, rstripSlash configured⟩

/-- `GCSStorage(bucket, prefix)`. -/
def gcsStorage (configured : String) : ObjectStorage := ⟨.gcs, rstripSlash configured⟩

/-- `AzureBlobStorage(container, prefix)`. -/
def azureBlobStorage (configured : String) : ObjectStorage := ⟨.azure, rstripSlash configured⟩

/-- `s.startswith(t)`. -/
def startsWith (s t : String) : Bool := t.toList.isPrefixOf s.toList

/-- `sorted(keys)`. -/
def sorted (keys : List String) : List String := sortedBy id keys

/-- What is in the bucket. -/
abbrev Bucket (B : Type) := Dict String B

namespace ObjectStorage

variable {B : Type} (s : ObjectStorage)

/-- `_remote`. -/
def remote (path : String) : String :=
  if s.keyPrefix ≠ "" then s.keyPrefix ++ "/" ++ path else path

/-- `upload_file`; `data` is `none` where there is no such local file. The Azure class
wraps that error of its coroutine, the other two let it out. -/
def uploadFile (localPath : String) (data : Option B) (remotePath : String)
    (bucket : Bucket B) : Except PyError (Bucket B) :=
  match data with
  | some bytes => .ok (bucket.set (s.remote remotePath) bytes)
  | none => .error (.exception (match s.backend with
    | .azure => s.backend.className ++ ": upload failed for " ++ remotePath
    | _ => s.backend.className ++ ": local file not found: " ++ localPath))

/-- `download_file`, as the bytes it writes. -/
def downloadFile (remotePath : String) (bucket : Bucket B) : Except PyError B :=
  match bucket.get? (s.remote remotePath) with
  | some bytes => .ok bytes
  | none => .error (.exception (s.backend.className ++ ": download failed for " ++ remotePath))

/-- What a listing makes of a key. -/
def localKey (key : String) : String :=
  if s.keyPrefix ≠ "" ∧ startsWith key (s.keyPrefix ++ "/") = true then
    String.ofList (key.toList.drop (s.keyPrefix.length + 1))
  else key

/-- The string a listing asks the bucket for. -/
def remotePrefix (path : String) : String :=
  if path ≠ "" then s.remote path else s.keyPrefix

/-- `list_results`. -/
def listResults (path : String) (bucket : Bucket B) : List String :=
  sorted ((bucket.keys.filter fun key => startsWith key (s.remotePrefix path)).map s.localKey)

end ObjectStorage

/-! ## A history of uploads -/

section

variable {B : Type}

/-- One call of `upload_file`. -/
structure Upload (B : Type) where
  storage : ObjectStorage
  localPath : String
  data : Option B
  remotePath : String

/-- The bucket after one more call. -/
def Upload.apply (bucket : Bucket B) (u : Upload B) : Bucket B :=
  match u.storage.uploadFile u.localPath u.data u.remotePath bucket with
  | .ok bucket => bucket
  | .error _ => bucket

/-- The bucket after the calls. -/
def bucketAfter (uploads : List (Upload B)) : Bucket B := uploads.foldl Upload.apply ∅

/-- What was uploaded through storages with the prefix, in order. -/
def uploadedThrough (keyPrefix : String) (uploads : List (Upload B)) : List (String × B) :=
  uploads.filterMap fun u =>
    if u.storage.keyPrefix = keyPrefix then u.data.map fun bytes => (u.remotePath, bytes)
    else none

/-- The last bytes uploaded under a key. -/
def lastUploaded (keyPrefix key : String) (uploads : List (Upload B)) : Option B :=
  (((uploadedThrough keyPrefix uploads).filter fun item => decide (item.1 = key)).getLast?).map
    Prod.snd

/-- The sorted keys that start with `path`. -/
def resultsOf (keyPrefix path : String) (uploads : List (Upload B)) : List String :=
  sorted ((((uploadedThrough keyPrefix uploads).map Prod.fst).dedup).filter fun key =>
    startsWith key path)

/-- A storage shows its own keys, with their bytes. -/
structure Namespaced (s : ObjectStorage) (path : String) (uploads : List (Upload B)) : Prop where
  lists : s.listResults path (bucketAfter uploads) = resultsOf s.keyPrefix path uploads
  downloads : ∀ key ∈ s.listResults path (bucketAfter uploads), ∃ bytes,
    s.downloadFile key (bucketAfter uploads) = .ok bytes ∧
      lastUploaded s.keyPrefix key uploads = some bytes

/-- As a path, `y` is below `x`; the empty prefix is the root. -/
def Below (x y : String) : Prop := x = "" ∨ startsWith y (x ++ "/") = true

instance (x y : String) : Decidable (Below x y) :=
  inferInstanceAs (Decidable (x = "" ∨ startsWith y (x ++ "/") = true))

/-- No configured prefix is below another one. -/
def NotNested (storages : List ObjectStorage) : Prop :=
  ∀ s ∈ storages, ∀ t ∈ storages, s.keyPrefix ≠ t.keyPrefix → ¬ Below s.keyPrefix t.keyPrefix

instance (storages : List ObjectStorage) : Decidable (NotNested storages) :=
  inferInstanceAs (Decidable (∀ s ∈ storages, ∀ t ∈ storages, s.keyPrefix ≠ t.keyPrefix →
    ¬ Below s.keyPrefix t.keyPrefix))

end

/-! ## Keys -/

theorem startsWith_iff {s t : String} : startsWith s t = true ↔ t.toList <+: s.toList :=
  List.isPrefixOf_iff_prefix

theorem startsWith_empty (s : String) : startsWith s "" = true :=
  startsWith_iff.mpr (List.nil_prefix)

/-- Two prefixes are the same, or neither is below the other. -/
def Apart (x y : String) : Prop := x ≠ y → ¬ Below x y ∧ ¬ Below y x

theorem NotNested.apart {storages : List ObjectStorage} (h : NotNested storages)
    {s t : ObjectStorage} (hs : s ∈ storages) (ht : t ∈ storages) :
    Apart s.keyPrefix t.keyPrefix :=
  fun hne => ⟨h s hs t ht hne, h t ht s hs hne.symm⟩

theorem Apart.ne_empty {x y : String} (h : Apart x y) (hne : x ≠ y) : x ≠ "" ∧ y ≠ "" :=
  ⟨fun hx => (h hne).1 (Or.inl hx), fun hy => (h hne).2 (Or.inl hy)⟩

theorem toList_slash (x : String) : (x ++ "/").toList = x.toList ++ ['/'] := by
  rw [String.toList_append]
  rfl

/-- No string continues both. -/
theorem Apart.eq_of_meet {x y : String} (h : Apart x y) {l : List Char}
    (hx : x.toList ++ ['/'] <+: l) (hy : y.toList ++ ['/'] <+: l) : x = y := by
  by_contra hne
  rcases sep_comparable hx hy with heq | hxy | hyx
  · exact hne (String.toList_inj.mp heq)
  · refine (h hne).1 (Or.inr (startsWith_iff.mpr ?_))
    rw [toList_slash]
    exact hxy
  · refine (h hne).2 (Or.inr (startsWith_iff.mpr ?_))
    rw [toList_slash]
    exact hyx

namespace ObjectStorage

variable {s t : ObjectStorage}

theorem remote_of_empty (h : s.keyPrefix = "") (path : String) : s.remote path = path :=
  if_neg fun hne => hne h

theorem toList_remote (h : s.keyPrefix ≠ "") (path : String) :
    (s.remote path).toList = s.keyPrefix.toList ++ ['/'] ++ path.toList := by
  rw [remote, if_pos h, String.toList_append, toList_slash]

theorem remote_congr (h : s.keyPrefix = t.keyPrefix) (path : String) :
    s.remote path = t.remote path := by
  rw [remote, remote, h]

theorem slash_prefix_remote (h : s.keyPrefix ≠ "") (path : String) :
    s.keyPrefix.toList ++ ['/'] <+: (s.remote path).toList := by
  rw [toList_remote h]
  exact List.prefix_append _ _

/-- A listing takes off what the upload put on. -/
@[simp] theorem localKey_remote (s : ObjectStorage) (path : String) :
    s.localKey (s.remote path) = path := by
  by_cases h : s.keyPrefix = ""
  · rw [remote_of_empty h, localKey, if_neg fun hc => hc.1 h]
  · have hstarts : startsWith (s.remote path) (s.keyPrefix ++ "/") = true := by
      rw [startsWith_iff, toList_slash]
      exact slash_prefix_remote h path
    have hlen : s.keyPrefix.length + 1 = (s.keyPrefix.toList ++ ['/']).length := by
      rw [List.length_append, String.length_toList, List.length_singleton]
    rw [localKey, if_pos ⟨h, hstarts⟩, toList_remote h, hlen, List.drop_left,
      String.ofList_toList]

/-- Keys of prefixes that are apart never meet. -/
theorem remote_inj (hapart : Apart s.keyPrefix t.keyPrefix) {path path' : String}
    (h : s.remote path = t.remote path') : s.keyPrefix = t.keyPrefix ∧ path = path' := by
  have hsame : s.keyPrefix = t.keyPrefix := by
    by_contra hne
    obtain ⟨hs, ht⟩ := hapart.ne_empty hne
    refine hne (hapart.eq_of_meet (slash_prefix_remote hs path) ?_)
    rw [h]
    exact slash_prefix_remote ht path'
  refine ⟨hsame, ?_⟩
  rw [← localKey_remote s path, h, ← remote_congr hsame, localKey_remote]

/-- Which keys of `t` a listing of `s` finds. -/
theorem startsWith_remote_iff (hapart : Apart s.keyPrefix t.keyPrefix) (key path : String) :
    startsWith (t.remote key) (s.remotePrefix path) = true ↔
      t.keyPrefix = s.keyPrefix ∧ startsWith key path = true ∨
        t.keyPrefix ≠ s.keyPrefix ∧ path = "" ∧
          startsWith t.keyPrefix s.keyPrefix = true := by
  by_cases hsame : t.keyPrefix = s.keyPrefix
  · rw [or_iff_left fun h => h.1 hsame, and_iff_right hsame, remote_congr hsame]
    by_cases hpath : path = ""
    · subst hpath
      rw [remotePrefix, if_neg fun h => h rfl, iff_true_right (startsWith_empty key),
        startsWith_iff]
      by_cases hs : s.keyPrefix = ""
      · rw [hs]
        exact List.nil_prefix
      · exact (List.prefix_append _ _).trans (slash_prefix_remote hs key)
    · rw [remotePrefix, if_pos hpath, startsWith_iff, startsWith_iff]
      by_cases hs : s.keyPrefix = ""
      · rw [remote_of_empty hs, remote_of_empty hs]
      · rw [toList_remote hs, toList_remote hs, List.prefix_append_right_inj]
  · obtain ⟨hs, ht⟩ := hapart.ne_empty (Ne.symm hsame)
    rw [or_iff_right fun h => hsame h.1, and_iff_right hsame, startsWith_iff]
    by_cases hpath : path = ""
    · rw [and_iff_right hpath, hpath, remotePrefix, if_neg fun h => h rfl, startsWith_iff]
      refine ⟨fun h => ?_, fun h => h.trans ?_⟩
      · rcases Nat.lt_or_ge t.keyPrefix.toList.length s.keyPrefix.toList.length with hlt | hge
        · -- the whole of `t`'s prefix and its slash begin `s`'s prefix
          refine absurd (Or.inr (startsWith_iff.mpr ?_)) (hapart (Ne.symm hsame)).2
          rw [toList_slash]
          refine List.prefix_of_prefix_length_le (slash_prefix_remote ht key) h ?_
          rw [List.length_append, List.length_singleton]
          omega
        · exact List.prefix_of_prefix_length_le h
            ((List.prefix_append _ _).trans (slash_prefix_remote ht key)) hge
      · exact (List.prefix_append _ _).trans (slash_prefix_remote ht key)
    · rw [remotePrefix, if_pos hpath]
      refine iff_of_false (fun h => ?_) fun h => hpath h.1
      exact hsame (hapart.eq_of_meet ((slash_prefix_remote hs path).trans h)
        (slash_prefix_remote ht key)).symm

end ObjectStorage

/-! ## What the bucket holds -/

section

variable {B : Type} {s : ObjectStorage} {uploads : List (Upload B)}

theorem Upload.apply_some {u : Upload B} {bytes : B} (h : u.data = some bytes)
    (bucket : Bucket B) : u.apply bucket = bucket.set (u.storage.remote u.remotePath) bytes := by
  rw [Upload.apply, h]
  rfl

theorem Upload.apply_none {u : Upload B} (h : u.data = none) (bucket : Bucket B) :
    u.apply bucket = bucket := by
  rw [Upload.apply, h]
  rfl

theorem bucketAfter_concat (uploads : List (Upload B)) (u : Upload B) :
    bucketAfter (uploads ++ [u]) = u.apply (bucketAfter uploads) :=
  List.foldl_concat _ _ _ _

theorem lastUploaded_concat_own {u : Upload B} {bytes : B} {keyPrefix : String}
    (hsame : u.storage.keyPrefix = keyPrefix) (hdata : u.data = some bytes)
    (uploads : List (Upload B)) :
    lastUploaded keyPrefix u.remotePath (uploads ++ [u]) = some bytes := by
  rw [lastUploaded, uploadedThrough, List.filterMap_append, List.filter_append]
  simp only [List.filterMap_cons, List.filterMap_nil, if_pos hsame, hdata, Option.map_some,
    List.filter_cons, List.filter_nil, decide_true, if_true, List.getLast?_concat]

theorem lastUploaded_concat_other {u : Upload B} {keyPrefix key : String}
    (hother : ¬ (u.storage.keyPrefix = keyPrefix ∧ u.remotePath = key ∧ u.data.isSome = true))
    (uploads : List (Upload B)) :
    lastUploaded keyPrefix key (uploads ++ [u]) = lastUploaded keyPrefix key uploads := by
  rw [lastUploaded, lastUploaded, uploadedThrough, List.filterMap_append, List.filter_append]
  have hnone : ((List.filterMap (fun u => if u.storage.keyPrefix = keyPrefix then
      u.data.map fun bytes => (u.remotePath, bytes) else none) [u]).filter fun item =>
      decide (item.1 = key)) = [] := by
    by_cases hsame : u.storage.keyPrefix = keyPrefix
    · cases hdata : u.data with
      | none => simp [hdata]
      | some bytes =>
        have hkey : u.remotePath ≠ key := fun hk => hother ⟨hsame, hk, by rw [hdata]; rfl⟩
        simp [hsame, hdata, hkey]
    · simp [hsame]
  rw [hnone, List.append_nil]
  rfl

/-- Under each key a storage addresses, the bucket holds the last bytes uploaded
through its prefix. -/
theorem get?_bucketAfter (key : String) (uploads : List (Upload B)) :
    (∀ u ∈ uploads, Apart s.keyPrefix u.storage.keyPrefix) →
      (bucketAfter uploads).get? (s.remote key) = lastUploaded s.keyPrefix key uploads := by
  induction uploads using List.reverseRecOn with
  | nil => exact fun _ => rfl
  | append_singleton uploads u ih =>
    intro hapart
    have hbefore := ih fun v hv => hapart v (List.mem_append_left [u] hv)
    have hu := hapart u (List.mem_append_right uploads (List.mem_singleton.mpr rfl))
    rw [bucketAfter_concat]
    cases hdata : u.data with
    | none =>
      rw [Upload.apply_none hdata, hbefore, lastUploaded_concat_other]
      rintro ⟨-, -, hsome⟩
      rw [hdata] at hsome
      exact nomatch hsome
    | some bytes =>
      rw [Upload.apply_some hdata, Dict.get?_set]
      by_cases hown : u.storage.keyPrefix = s.keyPrefix ∧ u.remotePath = key
      · obtain ⟨hsame, rfl⟩ := hown
        rw [if_pos (ObjectStorage.remote_congr hsame _), lastUploaded_concat_own hsame hdata]
      · have hne : u.storage.remote u.remotePath ≠ s.remote key := by
          intro heq
          obtain ⟨hsame, hkey⟩ := ObjectStorage.remote_inj hu heq.symm
          exact hown ⟨hsame.symm, hkey.symm⟩
        rw [if_neg hne, hbefore, lastUploaded_concat_other]
        exact fun h => hown ⟨h.1, h.2.1⟩

theorem mem_keys_bucketAfter {key : String} : key ∈ (bucketAfter uploads).keys ↔
    ∃ u ∈ uploads, u.data.isSome = true ∧ u.storage.remote u.remotePath = key := by
  induction uploads using List.reverseRecOn with
  | nil => exact ⟨fun h => absurd h List.not_mem_nil, fun ⟨_, h, _⟩ => absurd h List.not_mem_nil⟩
  | append_singleton uploads u ih =>
    have hlast : (∃ v ∈ uploads ++ [u], v.data.isSome = true ∧
        v.storage.remote v.remotePath = key) ↔
        key ∈ (bucketAfter uploads).keys ∨ u.data.isSome = true ∧
          u.storage.remote u.remotePath = key := by
      rw [ih]
      simp only [List.mem_append, List.mem_singleton, or_and_right, exists_or,
        exists_eq_left]
    rw [hlast, bucketAfter_concat]
    cases hdata : u.data with
    | none =>
      rw [Upload.apply_none hdata]
      exact (or_iff_left fun h => nomatch h.1).symm
    | some bytes =>
      rw [Upload.apply_some hdata, Dict.mem_keys_set, Option.isSome_some, and_iff_right rfl]

/-- The keys given to storages with the prefix. -/
theorem mem_uploadedKeys {keyPrefix key : String} :
    key ∈ (uploadedThrough keyPrefix uploads).map Prod.fst ↔
      ∃ u ∈ uploads, u.data.isSome = true ∧ u.storage.keyPrefix = keyPrefix ∧
        u.remotePath = key := by
  rw [List.mem_map]
  constructor
  · rintro ⟨item, hitem, rfl⟩
    obtain ⟨u, hu, hsome⟩ := List.mem_filterMap.mp hitem
    by_cases hsame : u.storage.keyPrefix = keyPrefix
    · rw [if_pos hsame] at hsome
      obtain ⟨bytes, hdata, rfl⟩ := Option.map_eq_some_iff.mp hsome
      exact ⟨u, hu, by rw [hdata]; rfl, hsame, rfl⟩
    · rw [if_neg hsame] at hsome
      exact nomatch hsome
  · rintro ⟨u, hu, hdata, hsame, rfl⟩
    obtain ⟨bytes, hbytes⟩ := Option.isSome_iff_exists.mp hdata
    refine ⟨(u.remotePath, bytes), List.mem_filterMap.mpr ⟨u, hu, ?_⟩, rfl⟩
    rw [if_pos hsame, hbytes]
    rfl

/-- Every key given to the prefix has last bytes. -/
theorem exists_lastUploaded {keyPrefix key : String}
    (h : key ∈ (uploadedThrough keyPrefix uploads).map Prod.fst) :
    ∃ bytes, lastUploaded keyPrefix key uploads = some bytes := by
  obtain ⟨item, hitem, rfl⟩ := List.mem_map.mp h
  cases hlast : ((uploadedThrough keyPrefix uploads).filter fun i =>
      decide (i.1 = item.1)).getLast? with
  | none =>
    rw [List.getLast?_eq_none_iff] at hlast
    have hm : item ∈ (uploadedThrough keyPrefix uploads).filter fun i =>
        decide (i.1 = item.1) := List.mem_filter.mpr ⟨hitem, decide_eq_true rfl⟩
    rw [hlast] at hm
    exact absurd hm List.not_mem_nil
  | some i => exact ⟨i.2, by rw [lastUploaded, hlast]; rfl⟩

/-! ## The listing -/

/-- The keys a listing should show, before they are sorted. -/
def ownKeys (keyPrefix path : String) (uploads : List (Upload B)) : List String :=
  (((uploadedThrough keyPrefix uploads).map Prod.fst).dedup).filter fun key =>
    startsWith key path

/-- The keys of the bucket that a listing finds. -/
def foundKeys (s : ObjectStorage) (path : String) (uploads : List (Upload B)) : List String :=
  (bucketAfter uploads).keys.filter fun key => startsWith key (s.remotePrefix path)

theorem nodup_ownKeys (keyPrefix path : String) (uploads : List (Upload B)) :
    (ownKeys keyPrefix path uploads).Nodup :=
  (List.nodup_dedup _).filter _

theorem nodup_foundKeys (s : ObjectStorage) (path : String) (uploads : List (Upload B)) :
    (foundKeys s path uploads).Nodup :=
  (bucketAfter uploads).nodup.filter _

theorem mem_ownKeys {keyPrefix path key : String} : key ∈ ownKeys keyPrefix path uploads ↔
    (∃ u ∈ uploads, u.data.isSome = true ∧ u.storage.keyPrefix = keyPrefix ∧
      u.remotePath = key) ∧ startsWith key path = true := by
  rw [ownKeys, List.mem_filter, List.mem_dedup, mem_uploadedKeys]

theorem nodup_map_remote (s : ObjectStorage) {keys : List String} (h : keys.Nodup) :
    (keys.map s.remote).Nodup := by
  refine h.map fun path path' heq => ?_
  rw [← s.localKey_remote path, heq, s.localKey_remote]

variable (hapart : ∀ u ∈ uploads, Apart s.keyPrefix u.storage.keyPrefix) (path : String)

include hapart

/-- A listing finds everything of its own. -/
theorem remote_mem_foundKeys {key : String} (h : key ∈ ownKeys s.keyPrefix path uploads) :
    s.remote key ∈ foundKeys s path uploads := by
  obtain ⟨⟨u, hu, hdata, hsame, rfl⟩, hstarts⟩ := mem_ownKeys.mp h
  rw [← ObjectStorage.remote_congr hsame]
  refine List.mem_filter.mpr ⟨mem_keys_bucketAfter.mpr ⟨u, hu, hdata, rfl⟩, ?_⟩
  exact (ObjectStorage.startsWith_remote_iff (hapart u hu) _ _).mpr (Or.inl ⟨hsame, hstarts⟩)

/-- Where no other prefix begins like this one, it finds nothing else. -/
theorem foundKeys_perm
    (hplain : path = "" → ∀ u ∈ uploads, u.data.isSome = true →
      startsWith u.storage.keyPrefix s.keyPrefix = true → u.storage.keyPrefix = s.keyPrefix) :
    (foundKeys s path uploads).Perm ((ownKeys s.keyPrefix path uploads).map s.remote) := by
  rw [List.perm_ext_iff_of_nodup (nodup_foundKeys s path uploads)
    (nodup_map_remote s (nodup_ownKeys _ _ _))]
  intro key
  constructor
  · intro h
    obtain ⟨hkey, hstarts⟩ := List.mem_filter.mp h
    obtain ⟨u, hu, hdata, rfl⟩ := mem_keys_bucketAfter.mp hkey
    rcases (ObjectStorage.startsWith_remote_iff (hapart u hu) _ _).mp hstarts with
      ⟨hsame, hpath⟩ | ⟨hother, hpath, hbegins⟩
    · rw [ObjectStorage.remote_congr hsame]
      exact List.mem_map_of_mem (mem_ownKeys.mpr ⟨⟨u, hu, hdata, hsame, rfl⟩, hpath⟩)
    · exact absurd (hplain hpath u hu hdata hbegins) hother
  · intro h
    obtain ⟨key, hown, rfl⟩ := List.mem_map.mp h
    exact remote_mem_foundKeys hapart path hown

/-- A key of another prefix that begins like this one is one key too many. -/
theorem length_lt_foundKeys {u : Upload B} (hu : u ∈ uploads) (hdata : u.data.isSome = true)
    (hother : u.storage.keyPrefix ≠ s.keyPrefix) (hpath : path = "")
    (hbegins : startsWith u.storage.keyPrefix s.keyPrefix = true) :
    (ownKeys s.keyPrefix path uploads).length < (foundKeys s path uploads).length := by
  have hnodup : (u.storage.remote u.remotePath ::
      (ownKeys s.keyPrefix path uploads).map s.remote).Nodup := by
    refine List.nodup_cons.mpr ⟨fun hm => ?_, nodup_map_remote s (nodup_ownKeys _ _ _)⟩
    obtain ⟨key, -, heq⟩ := List.mem_map.mp hm
    exact hother (ObjectStorage.remote_inj (hapart u hu) heq).1.symm
  have hsub : (u.storage.remote u.remotePath ::
      (ownKeys s.keyPrefix path uploads).map s.remote) ⊆ foundKeys s path uploads := by
    intro key hkey
    rcases List.mem_cons.mp hkey with rfl | hkey
    · refine List.mem_filter.mpr ⟨mem_keys_bucketAfter.mpr ⟨u, hu, hdata, rfl⟩, ?_⟩
      exact (ObjectStorage.startsWith_remote_iff (hapart u hu) _ _).mpr
        (Or.inr ⟨hother, hpath, hbegins⟩)
    · obtain ⟨key, hown, rfl⟩ := List.mem_map.mp hkey
      exact remote_mem_foundKeys hapart path hown
  have hle := (hnodup.subperm hsub).length_le
  rw [List.length_cons, List.length_map] at hle
  omega

end

/-! ## Exactly when prefixes are namespaces -/

theorem sorted_perm (keys : List String) : (sorted keys).Perm keys := sortedBy_perm id keys

/-- Storages over one bucket whose prefixes are not nested show exactly their own keys,
unless everything is listed and something was uploaded under a prefix that begins with
the characters of this one. -/
theorem namespaced_iff {B : Type} {storages : List ObjectStorage} {uploads : List (Upload B)}
    (hnested : NotNested storages) (huploads : ∀ u ∈ uploads, u.storage ∈ storages)
    {s : ObjectStorage} (hs : s ∈ storages) (path : String) :
    Namespaced s path uploads ↔
      (path = "" → ∀ u ∈ uploads, u.data.isSome = true →
        startsWith u.storage.keyPrefix s.keyPrefix = true →
          u.storage.keyPrefix = s.keyPrefix) := by
  have hapart : ∀ u ∈ uploads, Apart s.keyPrefix u.storage.keyPrefix :=
    fun u hu => hnested.apart hs (huploads u hu)
  have hlocal : ((ownKeys s.keyPrefix path uploads).map s.remote).map s.localKey =
      ownKeys s.keyPrefix path uploads := by
    rw [List.map_map]
    exact List.map_id'' s.localKey_remote _
  constructor
  · intro h hpath u hu hdata hbegins
    by_contra hother
    have hlt := length_lt_foundKeys hapart path hu hdata hother hpath hbegins
    have hlists : sorted ((foundKeys s path uploads).map s.localKey) =
        sorted (ownKeys s.keyPrefix path uploads) := h.lists
    have hlen := congrArg List.length hlists
    rw [(sorted_perm _).length_eq, (sorted_perm _).length_eq, List.length_map] at hlen
    omega
  · intro hplain
    have hperm := (foundKeys_perm hapart path hplain).map s.localKey
    rw [hlocal] at hperm
    have hlists : s.listResults path (bucketAfter uploads) =
        resultsOf s.keyPrefix path uploads :=
      sortedBy_congr Function.injective_id hperm
    refine ⟨hlists, fun key hkey => ?_⟩
    rw [hlists] at hkey
    have hown := (mem_ownKeys.mp ((sorted_perm _).mem_iff.mp hkey)).1
    obtain ⟨bytes, hbytes⟩ := exists_lastUploaded (mem_uploadedKeys.mpr hown)
    refine ⟨bytes, ?_, hbytes⟩
    rw [ObjectStorage.downloadFile, get?_bucketAfter key uploads hapart, hbytes]

/-- A KPI file of the tenth run. -/
def tenthRunUpload : Upload Nat where
  storage := s3Storage "run10"
  localPath := "kpi.json"
  data := some 10
  remotePath := "kpis/kpi.json"

/-- A listing of the first run under a path does not see it. -/
theorem namespaced_first_run :
    Namespaced (s3Storage "run1/") "kpis/" [tenthRunUpload] := by
  have hnested : NotNested [s3Storage "run1/", s3Storage "run10"] := by decide +kernel
  have huploads : ∀ u ∈ [tenthRunUpload], u.storage ∈ [s3Storage "run1/", s3Storage "run10"] := by
    decide +kernel
  exact (namespaced_iff hnested huploads List.mem_cons_self "kpis/").mpr
    fun h => absurd h (by decide)

/-- A listing of the whole first run does. -/
theorem tenth_run_leaks : ¬ ∀ (storages : List ObjectStorage) (uploads : List (Upload Nat)),
    NotNested storages → (∀ u ∈ uploads, u.storage ∈ storages) → ∀ s ∈ storages, ∀ path,
      Namespaced s path uploads := by
  intro h
  have hlists := (h [s3Storage "run1", s3Storage "run10"] [tenthRunUpload] (by decide +kernel)
    (by decide +kernel) (s3Storage "run1") List.mem_cons_self "").lists
  have hlen := congrArg List.length hlists
  revert hlen
  decide +kernel

end OSimFlow.Storage
