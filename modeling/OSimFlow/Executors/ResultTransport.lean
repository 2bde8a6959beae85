import OSimFlow.Detached.Download
import OSimFlow.Executors.Transport
import OSimFlow.Lib.PosixTree
import OSimFlow.Lib.Sorted
import OSimFlow.Lib.Strip

/-!
# Results by way of object storage

The worker uploads what the paths of a step's result stand for, files and whole directories, and
the controller downloads it to the same paths. They share the value and the function that makes a
storage key of a path; whether a path is a file or a directory the worker sees on its disk, the
controller guesses from the path's suffix.

Paths that occur more than once are dealt with once. An exception is `none`. Uploads do not fail;
the files of a directory are uploaded in an order that is not the source's, under different keys.
-/

namespace OSimFlow.Executors.ResultTransport

open OSimFlow.Lib
open OSimFlow.Lib.PosixPath (Above joined)

variable {F C : Type}

/-- `COMPLETE_MARKER` -/
def completeMarker : List Char := Detached.completeMarker.toList

theorem isName_completeMarker : ∀ s ∈ [completeMarker], IsName s := by
  decide +kernel

mutual

/-- `_collect_paths`, and `_collect_path_leaves`. -/
def collectPaths : Value F → List PosixPath
  | .path p => [p]
  | .dict items => collectItems items
  | .list items => collectList items
  | .none | .bool _ | .int _ | .float _ | .str _ | .tuple _ => []

def collectList : List (Value F) → List PosixPath
  | [] => []
  | nested :: rest => collectPaths nested ++ collectList rest

def collectItems : List (String × Value F) → List PosixPath
  | [] => []
  | (_, nested) :: rest => collectPaths nested ++ collectItems rest

end

/-- `local_path_to_storage_key` -/
def localPathToStorageKey (rootMarker : List Char) (path : PosixPath) : List Char :=
  let marker := strip (fun c => decide (c = '/')) rootMarker
  if marker = [] then path.name
  else
    match (path.parts.dropWhile fun part => decide (part ≠ marker)).drop 1 with
    | [] => path.name
    | remainder => joined remainder

/-! ## The worker -/

abbrev Store (C : Type) := Dict (List Char) C

/-- The files that `directory.rglob("*")` finds. -/
def filesBelow (w : Disk C) (directory : PosixPath) : List (PosixPath × C) :=
  w.files.items.filter fun item => decide (Above directory item.1)

/-- `path.relative_to(directory).as_posix()` -/
def relativeTo (path directory : PosixPath) : List Char :=
  joined (path.names.drop directory.names.length)

/-- `storage.upload_dir` -/
def uploadDir (w : Disk C) (directory : PosixPath) (key : List Char) (storage : Store C) : Store C :=
  (filesBelow w directory).foldl
    (fun storage item => storage.set (key ++ '/' :: relativeTo item.1 directory) item.2) storage

/-- `_upload_artifacts_for_object_storage`, without a remapper; `empty` is the content of an empty
file. -/
def uploadArtifacts (empty : C) (rootMarker : List Char) (w : Disk C) :
    List PosixPath → List PosixPath → Store C → Store C
  | [], _, storage => storage
  | path :: paths, uploaded, storage =>
    let key := localPathToStorageKey rootMarker path
    if key = [] ∨ path ∈ uploaded then uploadArtifacts empty rootMarker w paths uploaded storage
    else
      match w.files.get? path with
      | some content =>
        uploadArtifacts empty rootMarker w paths (path :: uploaded) (storage.set key content)
      | none =>
        if w.isDir path then
          -- the directory's files, then `_upload_complete_marker`
          uploadArtifacts empty rootMarker w paths (path :: uploaded)
            ((uploadDir w path key storage).set (key ++ '/' :: completeMarker) empty)
        else uploadArtifacts empty rootMarker w paths uploaded storage

/-! ## The controller -/

/-- `storage.list_results` -/
def listResults (storage : Store C) (start : List Char) : List (List Char) :=
  sortedBy id (storage.keys.filter fun key => start.isPrefixOf key)

/-- `storage.download_file` -/
def downloadFile (storage : Store C) (key : List Char) (target : PosixPath) (d : Disk C) :
    Option (Disk C) := do
  let d ← d.mkdirs target.parent
  let content ← storage.get? key
  d.write target content

/-- The loop of `_download_directory`. -/
def downloadObjects (storage : Store C) (path : PosixPath) (start : List Char) :
    List (List Char) → Disk C → Option (Disk C)
  | [], d => some d
  | obj :: objects, d =>
    if obj = start ∨ ¬ (start ++ ['/']) <+: obj ∨ obj.drop (start.length + 1) = [] then
      downloadObjects storage path start objects d
    else do
      let target := path.div (obj.drop (start.length + 1))
      let d ← d.mkdirs target.parent
      let d ← downloadFile storage obj target d
      downloadObjects storage path start objects d

/-- `_download_directory` -/
def downloadDirectory (storage : Store C) (path : PosixPath) (key : List Char) (d : Disk C) :
    Option (Disk C) :=
  let start := key.rdropWhile fun c => decide (c = '/')
  let objects := listResults storage start
  if objects = [] then none
  else downloadObjects storage path start objects d

/-- The loop of `materialize_object_storage_result`. -/
def materialize (rootMarker : List Char) (storage : Store C) :
    List PosixPath → List PosixPath → Disk C → Option (Disk C)
  | [], _, d => some d
  | path :: paths, downloaded, d =>
    let key := localPathToStorageKey rootMarker path
    if key = [] ∨ path ∈ downloaded then materialize rootMarker storage paths downloaded d
    else if path.suffix ≠ [] then do
      let d ← d.mkdirs path.parent
      let d ← downloadFile storage key path d
      materialize rootMarker storage paths (path :: downloaded) d
    else do
      let d ← d.mkdirs path
      let d ← downloadDirectory storage path key d
      materialize rootMarker storage paths (path :: downloaded) d

/-! ## What is asked -/

/-- A file of the result, by itself or in a directory. -/
def IsResultFile (w : Disk C) (paths : List PosixPath) (f : PosixPath) : Prop :=
  f ∈ w.files.keys ∧ (f ∈ paths ∨ ∃ p ∈ paths, p ∈ w.dirs ∧ Above p f)

/-- Where the completion marker of a directory is stored. -/
def markerOf (p : PosixPath) : PosixPath := p.join [completeMarker] isName_completeMarker

/-- A result on its way, with what is given: the paths are below the campaign's directory and are
on the worker's disk, nothing is stored for them yet, and nothing on the controller's disk is in
the way. -/
structure Transfer (F C : Type) where
  outdir : PosixPath
  /-- The transport's prefix. -/
  rootMarker : List Char
  result : Value F
  worker : Disk C
  stored : Store C
  controller : Disk C
  below : ∀ p ∈ collectPaths result, Above outdir p
  exist : ∀ p ∈ collectPaths result, p ∈ worker.files.keys ∨ p ∈ worker.dirs
  fresh : ∀ key ∈ stored.keys, ∀ p ∈ collectPaths result,
    key ≠ localPathToStorageKey rootMarker p ∧
      ¬ localPathToStorageKey rootMarker p ++ ['/'] <+: key
  free_files : ∀ f ∈ controller.files.keys,
    (∀ p ∈ collectPaths result, ¬ Above f p ∧ (p ∈ worker.dirs → f ≠ p)) ∧
      ∀ g, IsResultFile worker (collectPaths result) g → ¬ Above f g
  free_dirs : ∀ d ∈ controller.dirs, ¬ IsResultFile worker (collectPaths result) d ∧
    ∀ p ∈ collectPaths result, p ∈ worker.dirs → d ≠ markerOf p

namespace Transfer

variable (t : Transfer F C)

/-- The paths of the result. -/
def paths : List PosixPath := collectPaths t.result

/-- `local_path_to_storage_key`, for both sides. -/
def key (p : PosixPath) : List Char := localPathToStorageKey t.rootMarker p

/-- What is stored when the worker is done. -/
def uploaded (empty : C) : Store C :=
  uploadArtifacts empty t.rootMarker t.worker t.paths [] t.stored

/-- The controller's disk when the result has been materialized, if no exception was raised. -/
def received (empty : C) : Option (Disk C) :=
  materialize t.rootMarker (t.uploaded empty) t.paths [] t.controller

/-- Every file of the result has come to its path. -/
def Delivered (empty : C) : Prop :=
  ∃ d, t.received empty = some d ∧
    ∀ f, IsResultFile t.worker t.paths f → d.files.get? f = t.worker.files.get? f

/-- No two files of the campaign have one key. -/
def KeysDistinct : Prop :=
  ∀ p q, Above t.outdir p → Above t.outdir q → t.key p = t.key q → p = q

/-! ## When it holds -/

/-- The prefix is the name of the campaign's directory, or of one above it. -/
def Anchored : Prop := strip (fun c => decide (c = '/')) t.rootMarker ∈ t.outdir.names

/-- The result's files have a suffix and its directories have none. -/
def Suffixed : Prop := ∀ p ∈ t.paths, p.suffix ≠ [] ↔ p ∈ t.worker.files.keys

/-- The paths in the order in which they are first met. -/
def unseen (seen : List PosixPath) : List PosixPath → List PosixPath
  | [] => []
  | p :: ps => if p ∈ seen then unseen seen ps else p :: unseen (p :: seen) ps

/-- No directory of the result has anything of the result below its marker; and if a file has the
marker's place, it is empty or is uploaded once more, with a directory above. -/
def MarkerFree (empty : C) : Prop :=
  ∀ p ∈ t.paths, p ∈ t.worker.dirs →
    (∀ f, IsResultFile t.worker t.paths f → ¬ Above (markerOf p) f) ∧
    (∀ q ∈ t.paths, q ∈ t.worker.dirs → q ≠ markerOf p ∧ ¬ Above (markerOf p) q) ∧
    ∀ content, t.worker.files.get? (markerOf p) = some content → content = empty ∨
      ∃ q ∈ t.paths, q ∈ t.worker.dirs ∧ Above q p ∧ [p, q].Sublist (unseen [] t.paths)

end Transfer

end OSimFlow.Executors.ResultTransport
