import OSimFlow.Executors.ResultTransport
import OSimFlow.Lib.Instances
import OSimFlow.Lib.Succeeds
import OSimFlow.Lib.TreeCopy

/-!
# Inputs by way of object storage

The controller uploads what the paths of a call stand for under the hashes of their contents and
sends references; the worker makes each tree anew in a scratch directory of its own, and maps
paths there and back.

> `mirrored_resolve`: whatever the storage holds, a worker that raises nothing has for every
> path of the call the controller's tree, or nothing where there was nothing.
>
> `resolve_of_staged`: it raises nothing, after any calls before and since.
>
> `mapping_undone`: the mapping there is undone by the mapping back; this by the mapping there
> exactly if no path of the call is above another.

A path stands for its text (`PosixPath.parse_str`), a stored manifest for its JSON; bytes that
are none fail the check of the hash as missing ones do. An exception is `none`.
-/

namespace OSimFlow.Executors.InputStaging

open OSimFlow.Lib
open OSimFlow.Lib.PosixPath (Above Within joined moved)
open ResultTransport (filesBelow relativeTo)

variable {C H : Type}

/-- What a file is: its bytes, and `st_mode & 0o777`. -/
structure Stat (C : Type) where
  content : C
  mode : Fin 512

inductive Kind where
  | file
  | dir
deriving DecidableEq

inductive Role where
  | input
  | output
deriving DecidableEq

structure Entry (H : Type) where
  path : List Char
  size : Nat
  sha256 : H
  mode : Fin 512
deriving DecidableEq

structure Manifest (H : Type) where
  kind : Kind
  name : List Char
  files : List (Entry H)
  dirs : List (List Char)
deriving DecidableEq

/-- `_sha256_file`, the digest of a manifest, and the sizes of files. -/
structure Hashing (C H : Type) where
  size : C → Nat
  ofFile : C → H
  ofManifest : Manifest H → H

/-- What stands under the keys `_blob_key` and `_manifest_key` make of a hash. -/
structure Storage (C H : Type) where
  blobs : Dict H C
  manifests : Dict H (Manifest H)

/-- A tagged payload reference. -/
inductive Ref (H : Type) where
  | stagedOutput (path : PosixPath)
  | stagedInput (path : PosixPath) (kind : Kind) (role : Role) (manifestSha256 : H)

def Ref.path : Ref H → PosixPath
  | stagedOutput p | stagedInput p _ _ _ => p

def Ref.isOutput : Ref H → Bool
  | stagedOutput _ => true
  | stagedInput _ _ role _ => decide (role = .output)

/-! ## The controller -/

/-- `InputStager` -/
structure Stager (C H : Type) where
  storage : Storage C H
  uploadedBlobs : List H

section

variable (hh : Hashing C H)

def entry (file : List Char × Stat C) : Entry H :=
  ⟨file.1, hh.size file.2.content, hh.ofFile file.2.content, file.2.mode⟩

/-- The files of a tree with their names in the manifest, sorted as `rglob` is. -/
def treeFiles (d : Disk (Stat C)) (path : PosixPath) : List (List Char × Stat C) :=
  if d.isDir path then
    (sortedBy (fun item => item.1.names) (filesBelow d path)).map fun item =>
      (relativeTo item.1 path, item.2)
  else
    match d.files.get? path with
    | some stat => [(path.name, stat)]
    | none => []

def treeDirs (d : Disk (Stat C)) (path : PosixPath) : List (List Char) :=
  (sortedBy PosixPath.names ((d.dirs.filter fun q => decide (Above path q)).dedup)).map fun q =>
    relativeTo q path

def kindOf (d : Disk (Stat C)) (path : PosixPath) : Kind :=
  if d.isDir path then .dir else .file

def manifestOf (d : Disk (Stat C)) (path : PosixPath) : Manifest H where
  kind := kindOf d path
  name := path.name
  files := (treeFiles d path).map (entry hh)
  dirs := if d.isDir path then treeDirs d path else []

/-- `path.exists()` -/
def Exists (d : Disk (Stat C)) (path : PosixPath) : Prop :=
  path ∈ d.dirs ∨ path ∈ d.files.keys

instance (d : Disk (Stat C)) (path : PosixPath) : Decidable (Exists d path) := by
  unfold Exists
  infer_instance

/-- The reference that `stage_path` returns. -/
def refOf (d : Disk (Stat C)) (path : PosixPath) (role : Role) : Ref H :=
  if Exists d path then
    .stagedInput path (manifestOf hh d path).kind role (hh.ofManifest (manifestOf hh d path))
  else .stagedOutput path

variable [DecidableEq H]

/-- `_upload_blob` -/
def uploadBlob (st : Stager C H) (content : C) : Stager C H :=
  if hh.ofFile content ∈ st.uploadedBlobs then st
  else ⟨{ st.storage with blobs := st.storage.blobs.set (hh.ofFile content) content },
    hh.ofFile content :: st.uploadedBlobs⟩

def uploadAll (st : Stager C H) (files : List (List Char × Stat C)) : Stager C H :=
  files.foldl (fun st file => uploadBlob hh st file.2.content) st

/-- `stage_path` -/
def stagePath (d : Disk (Stat C)) (st : Stager C H) (path : PosixPath) (role : Role) :
    Stager C H × Ref H :=
  if Exists d path then
    let m := manifestOf hh d path
    let st := uploadAll hh st (treeFiles d path)
    let manifests := st.storage.manifests.set (hh.ofManifest m) m
    ({ st with storage := { st.storage with manifests } }, refOf hh d path role)
  else (st, refOf hh d path role)

/-- The controller's disk, the path leaves of `result_hint` and those of the arguments. -/
structure Call (C : Type) where
  disk : Disk (Stat C)
  outputs : List PosixPath
  leaves : List PosixPath

/-- `convert`, at a path. -/
def convert (call : Call C) (s : Stager C H × Dict PosixPath (Ref H)) (value : PosixPath) :
    Stager C H × Dict PosixPath (Ref H) :=
  match s.2.get? value with
  | some _ => s
  | none =>
    let role := if ∃ o ∈ call.outputs, Within value o then .output else .input
    let (st, ref) := stagePath hh call.disk s.1 value role
    (st, s.2.set value ref)

/-- `stage_task_paths`: the references that stand in the payload for the leaves. -/
def stageTaskPaths (st : Stager C H) (call : Call C) : Stager C H × Dict PosixPath (Ref H) :=
  call.leaves.foldl (convert hh call) (st, ∅)

/-- One call after the other. -/
def serve (st : Stager C H) (calls : List (Call C)) : Stager C H :=
  calls.foldl (fun st call => (stageTaskPaths hh st call).1) st

end

variable [DecidableEq H]

/-! ## The worker -/

/-- `WorkerPathRemapper`, and the disk it works on. -/
structure Remapper (C : Type) where
  mapping : Dict PosixPath PosixPath
  outputs : List PosixPath
  counter : Nat
  disk : Disk (Stat C)

theorem isName_repr (n : Nat) : ∀ s ∈ ["paths".toList, n.repr.toList], IsName s := by
  intro s hs
  rcases List.mem_cons.mp hs with rfl | hs
  · decide +kernel
  · obtain rfl := List.mem_singleton.mp hs
    refine ⟨?_, fun hdot => ?_, notMem_repr rfl n⟩
    · rw [Nat.toList_repr]
      exact Nat.toDigits_ne_nil
    · exact notMem_repr (c := '.') rfl n (hdot ▸ List.mem_cons_self)

/-- `_next_dir`, with the counter as it will be. -/
def nextDir (root : PosixPath) (n : Nat) : PosixPath :=
  root.join ["paths".toList, n.repr.toList] (isName_repr n)

/-- The name of an output's scratch location. -/
def scratchName (original : PosixPath) : List Char :=
  match (PosixPath.parse (original.str.map fun c => if c = '\\' then '/' else c)).name with
  | [] => "item".toList
  | name => name

attribute [local instance] Lib.lawfulBEq_list in
/-- `_safe_rel` -/
def safeRel (rel : List Char) : Option PosixPath :=
  let p := PosixPath.parse rel
  if p.root = .relative ∧ ['.', '.'] ∉ p.names ∧ p.names ≠ [] then some p else none

def under (p rel : PosixPath) : PosixPath := p.join rel.names rel.isName

/-- `os.chmod(dest, mode & 0o777 or 0o600)` -/
def keep (stat : Stat C) : Stat C :=
  { stat with mode := if stat.mode = 0 then 0o600 else stat.mode }

section

variable (hh : Hashing C H) (storage : Storage C H)

/-- A file of the manifest, checked. -/
def fetch (e : Entry H) : Option (Stat C) := do
  let content ← storage.blobs.get? e.sha256
  if hh.size content = e.size ∧ hh.ofFile content = e.sha256 then some (keep ⟨content, e.mode⟩)
  else none

/-- A directory of the manifest. -/
def treeDir (root : PosixPath) (rel : List Char) : Option (Disk.Op (Stat C)) := do
  return .dir (under root (← safeRel rel))

def dirOps (kind : Kind) (root : PosixPath) (dirs : List (List Char)) :
    Option (List (Disk.Op (Stat C))) :=
  match kind with
  | .file => some []
  | .dir => do return .dir root :: (← dirs.mapM (treeDir root))

/-- `root if kind == "file" else root / rel` -/
def place (kind : Kind) (root rel : PosixPath) : PosixPath :=
  match kind with
  | .file => root
  | .dir => under root rel

def fileOp (kind : Kind) (root : PosixPath) (e : Entry H) : Option (Disk.Op (Stat C)) := do
  return .file (place kind root (← safeRel e.path)) (← fetch hh storage e)

/-- What `_materialize_manifest` does once it has read the manifest, and where. -/
def contentOps (top : PosixPath) (m : Manifest H) :
    Option (PosixPath × List (Disk.Op (Stat C))) :=
  if m.kind = .file ∧ m.files.length ≠ 1 then none
  else do
    let name := if m.kind = .dir ∧ m.name = [] then "dir".toList else m.name
    let root := under top (← safeRel name)
    let dirs ← dirOps m.kind root m.dirs
    let files ← m.files.mapM (fileOp hh storage m.kind root)
    return (root, dirs ++ files)

theorem isName_content : ∀ s ∈ ["content".toList], IsName s := by
  decide +kernel

def plan (base : PosixPath) : Ref H → Option (PosixPath × List (Disk.Op (Stat C)))
  | .stagedOutput path => some (base.div (scratchName path), [])
  | .stagedInput _ _ _ sha => do
    let m ← storage.manifests.get? sha
    if hh.ofManifest m = sha then
      contentOps hh storage (base.join ["content".toList] isName_content) m
    else none

/-- `_materialize` -/
def materialize (root : PosixPath) (w : Remapper C) (ref : Ref H) : Option (Remapper C) :=
  match w.mapping.get? ref.path with
  | some _ => some w
  | none => do
    let base := nextDir root (w.counter + 1)
    let disk ← w.disk.mkdirs base
    let (target, ops) ← plan hh storage base ref
    let disk ← disk.perform ops
    return ⟨w.mapping.set ref.path target,
      if ref.isOutput then ref.path :: w.outputs else w.outputs, w.counter + 1, disk⟩

/-- `resolve`, at the references of a payload. -/
def resolve (root : PosixPath) : List (Ref H) → Remapper C → Option (Remapper C)
  | [], w => some w
  | ref :: refs, w => do resolve root refs (← materialize hh storage root w ref)

end

/-- A remapper that has done nothing yet. -/
def Remapper.start (disk : Disk (Stat C)) : Remapper C := ⟨∅, [], 0, disk⟩

/-- `scratch_for` -/
def scratchFor (mapping : Dict PosixPath PosixPath) (original : PosixPath) : PosixPath :=
  match mapping.get? original with
  | some direct => direct
  | none =>
    match mapping.items.find? fun item => decide (Above item.1 original) with
    | some item => original.moved item.1 item.2
    | none => original

/-- `to_original`, of a path; `value == scratch` is the case of no names below. -/
def toOriginal (mapping : Dict PosixPath PosixPath) (value : PosixPath) : PosixPath :=
  match mapping.items.find? fun item => decide (Within value item.2) with
  | some item => value.moved item.2 item.1
  | none => value

/-! ## Scratch locations -/

variable {hh : Hashing C H} {storage : Storage C H} {root : PosixPath} {d : Disk (Stat C)}
  {p base target : PosixPath} {role : Role} {ref : Ref H} {refs : List (Ref H)}
  {w w' : Remapper C} {ops : List (Disk.Op (Stat C))} {file : List Char × Stat C}

/-- A path is in one scratch directory at most. -/
theorem nextDir_apart {q : PosixPath} {m n : Nat} (hm : Within q (nextDir root m))
    (hn : Within q (nextDir root n)) : m = n := by
  have hlen : (nextDir root m).names.length = (nextDir root n).names.length := by
    simp [nextDir, PosixPath.join]
  have heq : nextDir root m = nextDir root n := by
    rcases PosixPath.within_comparable hm hn with (heq | h) | h
    · exact heq
    · exact absurd h.length_lt (by omega)
    · exact absurd h.length_lt (by omega)
  have hnames := List.append_cancel_left (PosixPath.ext_iff_fields.mp heq).2
  injection hnames with _ hnames
  injection hnames with hrepr _
  exact Nat.repr_injective (String.toList_inj.mp hrepr)

theorem above_under {top rel : PosixPath} (h : Above base top) (hrel : rel.names ≠ []) :
    Above base (under top rel) :=
  h.trans (PosixPath.above_join top rel.isName hrel)

theorem names_of_safeRel {rel : List Char} (h : safeRel rel = some p) :
    p.names ≠ [] := by
  unfold safeRel at h
  dsimp only at h
  split at h
  next hsafe => exact Option.some.inj h ▸ hsafe.2.2
  next => exact nomatch h

theorem above_div {s : List Char} (hs : IsName s) : Above base (base.div s) := by
  have hone : ∀ t ∈ [s], IsName t := fun t ht => List.mem_singleton.mp ht ▸ hs
  have hjoined : joined [s] = s := by simp [joined]
  obtain ⟨hroot, hnames⟩ := PosixPath.div_joined base hone
  rw [hjoined] at hroot hnames
  exact ⟨hroot.symm, [s], List.cons_ne_nil _ _, hnames⟩

theorem isName_scratchName (p : PosixPath) : IsName (scratchName p) := by
  unfold scratchName
  split
  next => decide +kernel
  next hne =>
    generalize PosixPath.parse _ = q at hne
    unfold PosixPath.name at hne ⊢
    cases hlast : q.names.getLast? with
    | none => exact absurd (by rw [hlast]; rfl) hne
    | some s => exact q.isName s (List.mem_of_getLast? hlast)

/-- A tree is put strictly below its scratch directory. -/
theorem above_plan (h : plan hh storage base ref = some (target, ops)) : Above base target := by
  cases ref with
  | stagedOutput path =>
    obtain ⟨rfl, -⟩ := Prod.mk.inj (Option.some.inj h)
    exact above_div (isName_scratchName path)
  | stagedInput path kind role sha =>
    obtain ⟨m, -, h⟩ := Option.bind_eq_some_iff.mp h
    split at h
    next =>
      have htop : Above base (base.join ["content".toList] isName_content) :=
        PosixPath.above_join _ _ (List.cons_ne_nil _ _)
      unfold contentOps at h
      split at h
      next => exact nomatch h
      next =>
        obtain ⟨rel, hrel, h⟩ := Option.bind_eq_some_iff.mp h
        obtain ⟨dirs, -, h⟩ := Option.bind_eq_some_iff.mp h
        obtain ⟨files, -, h⟩ := Option.bind_eq_some_iff.mp h
        rw [← (Prod.mk.inj (Option.some.inj h)).1]
        exact above_under htop (names_of_safeRel hrel)
    next => exact nomatch h

/-- All that `_materialize` can do. -/
theorem materialize_cases (h : materialize hh storage root w ref = some w') :
    (ref.path ∈ w.mapping.keys ∧ w' = w) ∨
      ∃ target ops e, ref.path ∉ w.mapping.keys ∧
        w.disk.mkdirs (nextDir root (w.counter + 1)) = some e ∧
        plan hh storage (nextDir root (w.counter + 1)) ref = some (target, ops) ∧
        e.perform ops = some w'.disk ∧ w'.counter = w.counter + 1 ∧
        w'.mapping = w.mapping.set ref.path target := by
  unfold materialize at h
  split at h
  next s hs => exact .inl ⟨Dict.mem_keys_of_get? hs, (Option.some.inj h).symm⟩
  next hnone =>
    obtain ⟨e, hmk, h⟩ := Option.bind_eq_some_iff.mp h
    obtain ⟨⟨target, ops⟩, hplan, h⟩ := Option.bind_eq_some_iff.mp h
    obtain ⟨disk, hperform, h⟩ := Option.bind_eq_some_iff.mp h
    obtain rfl := Option.some.inj h
    refine .inr ⟨target, ops, e, fun hk => ?_, hmk, hplan, hperform, rfl, rfl⟩
    obtain ⟨v, hv⟩ := Dict.mem_keys_iff.mp hk
    exact nomatch hnone.symm.trans hv

/-- Each original has a scratch directory of its own. -/
structure Placed (root : PosixPath) (mapping : Dict PosixPath PosixPath) (counter : Nat) :
    Prop where
  below : ∀ s ∈ mapping.values, ∃ k ≤ counter, Above (nextDir root k) s
  apart : mapping.values.Pairwise fun s t => ∀ p, Within p s → ¬ Within p t

theorem placed_materialize (h : materialize hh storage root w ref = some w')
    (hw : Placed root w.mapping w.counter) : Placed root w'.mapping w'.counter := by
  rcases materialize_cases h with ⟨-, rfl⟩ | ⟨target, ops, e, hnew, -, hplan, -, hcount, hmap⟩
  · exact hw
  · have habove := above_plan hplan
    have hvalues : w'.mapping.values = w.mapping.values ++ [target] := by
      show w'.mapping.items.map Prod.snd = _
      rw [hmap, Dict.items_set_of_notMem hnew, List.map_append]
      rfl
    constructor
    · intro s hs
      rw [hvalues] at hs
      rw [hcount]
      rcases List.mem_append.mp hs with hs | hs
      · obtain ⟨k, hk, hks⟩ := hw.below s hs
        exact ⟨k, by omega, hks⟩
      · exact ⟨_, le_rfl, List.mem_singleton.mp hs ▸ habove⟩
    · rw [hvalues]
      refine List.pairwise_append.mpr ⟨hw.apart, List.pairwise_singleton _ _, ?_⟩
      intro s hs t ht p hps hpt
      obtain rfl := List.mem_singleton.mp ht
      obtain ⟨k, hk, hks⟩ := hw.below s hs
      have := nextDir_apart (PosixPath.within_trans hps (.inr hks))
        (PosixPath.within_trans hpt (.inr habove))
      omega

/-- What each reference preserves, the payload preserves. -/
theorem resolve_inv {I : Remapper C → Prop}
    (hstep : ∀ ref ∈ refs, ∀ v v', I v → materialize hh storage root v ref = some v' → I v')
    (hw : I w) (h : resolve hh storage root refs w = some w') : I w' := by
  induction refs generalizing w with
  | nil => exact Option.some.inj h ▸ hw
  | cons ref refs ih =>
    obtain ⟨v, hv, hrest⟩ := Option.bind_eq_some_iff.mp h
    exact ih (fun r hr => hstep r (List.mem_cons_of_mem _ hr))
      (hstep ref List.mem_cons_self w v hw hv) hrest

theorem placed_start (root : PosixPath) (disk : Disk (Stat C)) :
    Placed root (Remapper.start disk).mapping (Remapper.start disk).counter :=
  ⟨fun _ h => (nomatch h), List.Pairwise.nil⟩

theorem placed_resolve {disk : Disk (Stat C)}
    (h : resolve hh storage root refs (.start disk) = some w) :
    Placed root w.mapping w.counter :=
  resolve_inv (I := fun v => Placed root v.mapping v.counter)
    (fun _ _ _ _ hv hv' => placed_materialize hv' hv) (placed_start root disk) h

/-! ## There and back -/

/-- A path is at or below one scratch location at most. -/
theorem Placed.unique {mapping : Dict PosixPath PosixPath} {counter : Nat}
    (h : Placed root mapping counter) {a b : PosixPath × PosixPath}
    (ha : a ∈ mapping.items) (hb : b ∈ mapping.items) (hpa : Within p a.2) (hpb : Within p b.2) :
    a = b := by
  have hsymm : Std.Symm fun a b : PosixPath × PosixPath => ∀ p, Within p a.2 → ¬ Within p b.2 :=
    ⟨fun a b hab p hpb hpa => hab p hpa hpb⟩
  by_contra hne
  exact (List.pairwise_map.mp h.apart).forall ha hb hne p hpa hpb

theorem Placed.toOriginal_eq {mapping : Dict PosixPath PosixPath} {counter : Nat}
    (h : Placed root mapping counter) {item : PosixPath × PosixPath}
    (hitem : item ∈ mapping.items) (hp : Within p item.2) :
    toOriginal mapping p = p.moved item.2 item.1 := by
  unfold toOriginal
  cases hfind : mapping.items.find? fun item => decide (Within p item.2) with
  | none => exact absurd hp (by simpa using List.find?_eq_none.mp hfind item hitem)
  | some found =>
    have hw : Within p found.2 := by simpa using List.find?_some hfind
    rw [h.unique (List.mem_of_find?_eq_some hfind) hitem hw hp]

/-- What is at or below an original goes with one that it is at or below: itself, if it is one. -/
theorem scratchFor_eq {mapping : Dict PosixPath PosixPath} {o q : PosixPath}
    (ho : o ∈ mapping.keys) (hq : Within q o) :
    ∃ item ∈ mapping.items, Within q item.1 ∧ scratchFor mapping q = q.moved item.1 item.2 ∧
      (q ∈ mapping.keys → item.1 = q) := by
  unfold scratchFor
  cases hget : mapping.get? q with
  | some direct =>
    refine ⟨(q, direct), Dict.mem_items.mpr hget, .inl rfl, ?_, fun _ => rfl⟩
    exact (PosixPath.moved_self q direct).symm
  | none =>
    have hnew : q ∉ mapping.keys := fun hk => by
      obtain ⟨s, hs⟩ := Dict.mem_keys_iff.mp hk
      exact nomatch hget.symm.trans hs
    have habove : Above o q := hq.resolve_left fun heq => hnew (heq ▸ ho)
    obtain ⟨s, hs⟩ := Dict.mem_keys_iff.mp ho
    dsimp only
    cases hfind : mapping.items.find? fun item => decide (Above item.1 q) with
    | none =>
      exact absurd habove (by simpa using List.find?_eq_none.mp hfind _ (Dict.mem_items.mpr hs))
    | some found =>
      have hab : Above found.1 q := by simpa using List.find?_some hfind
      exact ⟨found, List.mem_of_find?_eq_some hfind, .inr hab, rfl, fun hk => absurd hk hnew⟩

/-- The mapping there is undone for all that is at or below an original, whatever is above what.
The mapping back is, for all that is at or below a scratch location, exactly if no original is
above another. -/
theorem mapping_undone {disk : Disk (Stat C)}
    (h : resolve hh storage root refs (.start disk) = some w) :
    (∀ o ∈ w.mapping.keys, ∀ q, Within q o →
        toOriginal w.mapping (scratchFor w.mapping q) = q) ∧
      ((∀ s ∈ w.mapping.values, ∀ p, Within p s →
          scratchFor w.mapping (toOriginal w.mapping p) = p) ↔
        ∀ o ∈ w.mapping.keys, ∀ o' ∈ w.mapping.keys, ¬ Above o o') := by
  have hw := placed_resolve h
  refine ⟨fun o ho q hq => ?_, fun hback o ho o' ho' habove => ?_, fun hflat s hs p hp => ?_⟩
  · obtain ⟨item, hitem, hat, hscratch, -⟩ := scratchFor_eq ho hq
    rw [hscratch, hw.toOriginal_eq hitem (PosixPath.within_moved _ _ _),
      PosixPath.moved_moved hat]
  -- The place of `o'` in the scratch of `o` goes to `o'`, whose own scratch is another.
  · obtain ⟨s, hs⟩ := Dict.mem_keys_iff.mp ho
    have hat := PosixPath.within_moved o' o s
    have heq := hback s (Dict.mem_values_iff.mpr ⟨o, hs⟩) _ hat
    obtain ⟨item, hitem, -, hscratch, hself⟩ := scratchFor_eq ho' (PosixPath.within_self o')
    rw [hw.toOriginal_eq (Dict.mem_items.mpr hs) hat, PosixPath.moved_moved (.inr habove),
      hscratch, hself ho', PosixPath.moved_self] at heq
    have hsame := hw.unique (Dict.mem_items.mpr hs) hitem hat (.inl heq.symm)
    have horig : o = o' := (congrArg Prod.fst hsame).trans (hself ho')
    exact PosixPath.not_above_self o (horig ▸ habove)
  -- Of the entries whose path is at or above, there is only the one of `s`.
  · obtain ⟨o, ho⟩ := Dict.mem_values_iff.mp hs
    have hkey := Dict.mem_keys_of_get? ho
    have hat := PosixPath.within_moved p s o
    obtain ⟨item, hitem, hw', hscratch, -⟩ := scratchFor_eq hkey hat
    have hitem' : item.1 ∈ w.mapping.keys := List.mem_map_of_mem hitem
    have hsame : o = item.1 := by
      rcases PosixPath.within_comparable hat hw' with (heq | habove) | habove
      · exact heq
      · exact absurd habove (hflat _ hitem' o hkey)
      · exact absurd habove (hflat o hkey _ hitem')
    have hscratch' : s = item.2 :=
      Option.some.inj (ho.symm.trans (hsame ▸ Dict.mem_items.mp hitem))
    rw [hw.toOriginal_eq (Dict.mem_items.mpr ho) hp, hscratch, ← hsame, ← hscratch']
    exact PosixPath.moved_moved hp o

/-- An output below another. -/
def nestedRun : Option (Remapper Unit) :=
  resolve (H := Nat) ⟨fun _ => 0, fun _ => 0, fun _ => 0⟩ ⟨∅, ∅⟩ (.parse "/tmp".toList)
    [.stagedOutput (.parse "/out".toList), .stagedOutput (.parse "/out/a".toList)] (.start ∅)

def nested : Remapper Unit := nestedRun.get (by decide +kernel)

theorem nested_not_undone : ¬ ∀ s ∈ nested.mapping.values, ∀ p, Within p s →
    scratchFor nested.mapping (toOriginal nested.mapping p) = p := fun h =>
  have hrun : nestedRun = some nested := (Option.some_get _).symm
  (mapping_undone hrun).2.mp h (.parse "/out".toList) (by decide +kernel)
    (.parse "/out/a".toList) (by decide +kernel) (by decide +kernel)

/-! ## What the worker makes -/

/-- No path of the disk goes up, and what has no name is a directory. -/
structure Regular (d : Disk (Stat C)) : Prop where
  dots : ∀ q, Exists d q → ['.', '.'] ∉ q.names
  named : ∀ q ∈ d.files.keys, q.names ≠ []

/-- What passes the checks of the hashes for the tree at `p` is what was staged. -/
structure Unmistaken (hh : Hashing C H) (storage : Storage C H) (d : Disk (Stat C))
    (p : PosixPath) : Prop where
  manifest : ∀ m, storage.manifests.get? (hh.ofManifest (manifestOf hh d p)) = some m →
    hh.ofManifest m = hh.ofManifest (manifestOf hh d p) → m = manifestOf hh d p
  blob : ∀ file ∈ treeFiles d p, ∀ c, storage.blobs.get? (hh.ofFile file.2.content) = some c →
    hh.ofFile c = hh.ofFile file.2.content → c = file.2.content

theorem exists_of_within {q : PosixPath} (hq : Within q p) (h : Exists d q) : Exists d p := by
  rcases hq with rfl | habove
  · exact h
  · exact .inl (h.elim (d.above_dir p q habove) (d.above_file p q habove))

theorem safeRel_joined {names : List (List Char)} (h : ∀ s ∈ names, IsName s)
    (hdots : ['.', '.'] ∉ names) (hne : names ≠ []) :
    ∃ rel, safeRel (joined names) = some rel ∧ rel.names = names := by
  obtain ⟨hroot, hnames⟩ := PosixPath.parse_joined h
  refine ⟨_, ?_, hnames⟩
  unfold safeRel
  dsimp only
  rw [hroot, hnames, if_pos ⟨rfl, hdots, hne⟩]

/-- The name of a file below a tree's root stands for its place there. -/
theorem safeRel_relativeTo {q : PosixPath} (h : Above p q) (hdots : ['.', '.'] ∉ q.names) :
    ∃ rel, safeRel (relativeTo q p) = some rel ∧ ∀ t, under t rel = q.moved p t := by
  have hne : q.names.drop p.names.length ≠ [] := by
    have := h.length_lt
    rw [ne_eq, List.drop_eq_nil_iff]
    omega
  obtain ⟨rel, hrel, hnames⟩ := safeRel_joined
    (fun s hs => q.isName s (List.mem_of_mem_drop hs)) (fun hs => hdots (List.mem_of_mem_drop hs))
    hne
  refine ⟨rel, hrel, fun t => PosixPath.ext_iff_fields.mpr ⟨rfl, ?_⟩⟩
  show t.names ++ rel.names = t.names ++ q.names.drop p.names.length
  rw [hnames]

theorem treeDir_eq {q : PosixPath} (h : Above p q) (hdots : ['.', '.'] ∉ q.names) (t : PosixPath) :
    treeDir (C := C) t (relativeTo q p) = some (.dir (q.moved p t)) := by
  obtain ⟨rel, hrel, hunder⟩ := safeRel_relativeTo h hdots
  rw [treeDir, hrel, ← hunder]
  rfl

theorem safeRel_name (hne : p.names ≠ []) (hdots : ['.', '.'] ∉ p.names) :
    ∃ rel, safeRel p.name = some rel := by
  have hname : joined [p.name] = p.name := by simp [joined]
  have hmem : p.name ∈ p.names := by
    unfold PosixPath.name
    rw [List.getLast?_eq_some_getLast hne]
    exact List.getLast_mem hne
  obtain ⟨rel, hrel, -⟩ := @safeRel_joined [p.name]
    (fun s hs => List.mem_singleton.mp hs ▸ p.isName _ hmem)
    (fun hs => hdots (List.mem_singleton.mp hs ▸ hmem)) (List.cons_ne_nil _ _)
  exact ⟨rel, hname ▸ hrel⟩

/-- A file of the manifest is the one at `q`, and goes where `q` goes. -/
def Stands (d : Disk (Stat C)) (p : PosixPath) (file : List Char × Stat C) (q : PosixPath) : Prop :=
  Within q p ∧ d.files.get? q = some file.2 ∧
    ∃ rel, safeRel file.1 = some rel ∧ ∀ t, place (kindOf d p) t rel = q.moved p t

theorem stands_of_above (hd : Regular d) (hp : d.isDir p = true) {q : PosixPath}
    (hq : Above p q) {u : Stat C} (hget : d.files.get? q = some u) :
    Stands d p (relativeTo q p, u) q := by
  obtain ⟨rel, hrel, hunder⟩ :=
    safeRel_relativeTo hq (hd.dots q (.inr (Dict.mem_keys_of_get? hget)))
  refine ⟨.inr hq, hget, rel, hrel, ?_⟩
  rw [kindOf, if_pos hp]
  exact hunder

theorem stands_self (hd : Regular d) (hp : ¬ d.isDir p = true) {u : Stat C}
    (hget : d.files.get? p = some u) : Stands d p (p.name, u) p := by
  have hkey := Dict.mem_keys_of_get? hget
  obtain ⟨rel, hrel⟩ := safeRel_name (hd.named p hkey) (hd.dots p (.inr hkey))
  refine ⟨.inl rfl, hget, rel, hrel, fun t => ?_⟩
  rw [kindOf, if_neg hp, PosixPath.moved_self]
  rfl

theorem stands_of_mem (hd : Regular d) (h : file ∈ treeFiles d p) : ∃ q, Stands d p file q := by
  unfold treeFiles at h
  split at h
  next hp =>
    obtain ⟨⟨q, u⟩, hmem, rfl⟩ := List.mem_map.mp h
    obtain ⟨hitem, habove⟩ := List.mem_filter.mp ((sortedBy_perm _ _).mem_iff.mp hmem)
    exact ⟨q, stands_of_above hd hp (of_decide_eq_true habove) (Dict.mem_items.mp hitem)⟩
  next hp =>
    split at h
    next u hget => exact ⟨p, List.mem_singleton.mp h ▸ stands_self hd hp hget⟩
    next => cases h

theorem exists_stands (hd : Regular d) {q : PosixPath} {u : Stat C}
    (hget : d.files.get? q = some u) (hq : Within q p) :
    ∃ file ∈ treeFiles d p, file.2 = u ∧ Stands d p file q := by
  have hkey := Dict.mem_keys_of_get? hget
  unfold treeFiles
  rcases hq with rfl | habove
  · have hp : ¬ d.isDir q = true := fun h =>
      Disk.notMem_dirs_of_mem_files hkey (of_decide_eq_true h)
    rw [if_neg hp, hget]
    exact ⟨_, List.mem_cons_self, rfl, stands_self hd hp hget⟩
  · have hp : d.isDir p = true := decide_eq_true (d.above_file p q habove hkey)
    rw [if_pos hp]
    refine ⟨_, List.mem_map_of_mem (a := (q, u)) ?_, rfl, stands_of_above hd hp habove hget⟩
    refine (sortedBy_perm _ _).mem_iff.mpr (List.mem_filter.mpr ?_)
    exact ⟨Dict.mem_items.mpr hget, decide_eq_true habove⟩

theorem mem_treeDirs {rel : List Char} :
    rel ∈ treeDirs d p ↔ ∃ q ∈ d.dirs, Above p q ∧ rel = relativeTo q p := by
  simp only [treeDirs, List.mem_map, (sortedBy_perm _ _).mem_iff, List.mem_dedup,
    List.mem_filter, decide_eq_true_eq, and_assoc, @eq_comm _ rel]

omit [DecidableEq H] in
/-- The directories of a tree are made where they belong. -/
theorem dirOps_eq (hd : Regular d) (hex : Exists d p) (t : PosixPath) :
    ∃ made : List (Disk.Op (Stat C)), dirOps (kindOf d p) t (manifestOf hh d p).dirs = some made ∧
      ∀ op, op ∈ made ↔ ∃ q ∈ d.dirs, Within q p ∧ op = .dir (q.moved p t) := by
  unfold manifestOf kindOf
  by_cases hp : d.isDir p = true
  · have htree : ∀ q ∈ d.dirs, Above p q →
        treeDir (C := C) t (relativeTo q p) = some (.dir (q.moved p t)) :=
      fun q hq habove => treeDir_eq habove (hd.dots q (.inl hq)) t
    have hmap : (treeDirs d p).mapM (treeDir (C := C) t) =
        some ((treeDirs d p).filterMap (treeDir t)) := by
      refine mapM_eq_filterMap.mpr ⟨fun rel hrel => ?_, rfl⟩
      obtain ⟨q, hq, habove, rfl⟩ := mem_treeDirs.mp hrel
      rw [htree q hq habove]
      rfl
    rw [if_pos hp, if_pos hp]
    refine ⟨.dir t :: (treeDirs d p).filterMap (treeDir t), ?_, fun op => ?_⟩
    · show Option.bind (List.mapM (treeDir t) (treeDirs d p)) _ = _
      rw [hmap]
      rfl
    · rw [List.mem_cons, List.mem_filterMap]
      constructor
      · rintro (rfl | ⟨rel, hrel, hop⟩)
        · exact ⟨p, of_decide_eq_true hp, .inl rfl, by rw [PosixPath.moved_self]⟩
        · obtain ⟨q, hq, habove, rfl⟩ := mem_treeDirs.mp hrel
          rw [htree q hq habove] at hop
          exact ⟨q, hq, .inr habove, (Option.some.inj hop).symm⟩
      · rintro ⟨q, hq, rfl | habove, rfl⟩
        · exact .inl (by rw [PosixPath.moved_self])
        · exact .inr ⟨_, mem_treeDirs.mpr ⟨q, hq, habove, rfl⟩, htree q hq habove⟩
  · have hnot : p ∉ d.dirs := fun h => hp (decide_eq_true h)
    rw [if_neg hp]
    refine ⟨[], rfl, fun op => iff_of_false (fun h => nomatch h) ?_⟩
    rintro ⟨q, hq, rfl | habove, -⟩
    · exact hnot hq
    · exact (Disk.not_above_of_mem_files (hex.resolve_left hnot) habove).2 hq

theorem fileOp_of_stands {q : PosixPath} (h : Stands d p file q) (t : PosixPath) :
    fileOp hh storage (kindOf d p) t (entry hh file) =
      (fetch hh storage (entry hh file)).map (.file (q.moved p t)) := by
  obtain ⟨-, -, rel, hrel, hplace⟩ := h
  rw [fileOp, show (entry hh file).path = file.1 from rfl, hrel, ← hplace, Option.map_eq_bind]
  rfl

theorem fetch_eq (hu : Unmistaken hh storage d p) (hfile : file ∈ treeFiles d p) {stat : Stat C}
    (h : fetch hh storage (entry hh file) = some stat) : stat = keep file.2 := by
  obtain ⟨c, hc, h⟩ := Option.bind_eq_some_iff.mp h
  split at h
  next hcheck => rw [← Option.some.inj h, hu.blob file hfile c hc hcheck.2]; rfl
  next => exact nomatch h

/-- And its files, if what is fetched is what was staged. -/
theorem mem_fileOps (hd : Regular d) (hu : Unmistaken hh storage d p) {t : PosixPath}
    (h : (manifestOf hh d p).files.mapM (fileOp hh storage (kindOf d p) t) = some ops)
    (op : Disk.Op (Stat C)) : op ∈ ops ↔
      ∃ q u, d.files.get? q = some u ∧ Within q p ∧ op = .file (q.moved p t) (keep u) := by
  obtain ⟨hall, rfl⟩ := mapM_eq_filterMap.mp h
  refine List.mem_filterMap.trans ⟨?_, ?_⟩
  · rintro ⟨e, he, hop⟩
    obtain ⟨file, hfile, rfl⟩ := List.mem_map.mp he
    obtain ⟨q, hq⟩ := stands_of_mem hd hfile
    rw [fileOp_of_stands hq] at hop
    obtain ⟨v, hv, rfl⟩ := Option.map_eq_some_iff.mp hop
    exact ⟨q, file.2, hq.2.1, hq.1, by rw [fetch_eq hu hfile hv]⟩
  · rintro ⟨q, u, hget, hw, rfl⟩
    obtain ⟨file, hfile, rfl, hq⟩ := exists_stands hd hget hw
    refine ⟨entry hh file, List.mem_map_of_mem hfile, ?_⟩
    have hsome := hall _ (List.mem_map_of_mem hfile)
    rw [fileOp_of_stands hq] at hsome ⊢
    obtain ⟨v, hv⟩ := Option.isSome_iff_exists.mp (Option.isSome_map.symm.trans hsome)
    rw [hv, fetch_eq hu hfile hv]
    rfl

/-- Whatever the storage holds, what the worker makes of a reference is a copy of the tree. -/
theorem copies_of_plan (hd : Regular d) (hu : Exists d p → Unmistaken hh storage d p)
    (h : plan hh storage base (refOf hh d p role) = some (target, ops)) :
    Disk.Copies keep d p target ops := by
  unfold refOf at h
  split at h
  next hex =>
    obtain ⟨m, hm, h⟩ := Option.bind_eq_some_iff.mp h
    split at h
    next hsha =>
      obtain rfl := (hu hex).manifest m hm hsha
      unfold contentOps at h
      split at h
      next => cases h
      next =>
        obtain ⟨rel, -, h⟩ := Option.bind_eq_some_iff.mp h
        obtain ⟨dirs, hdirs, h⟩ := Option.bind_eq_some_iff.mp h
        obtain ⟨files, hfiles, h⟩ := Option.bind_eq_some_iff.mp h
        obtain ⟨rfl, rfl⟩ := Prod.mk.inj (Option.some.inj h)
        obtain ⟨made, hmade, hdirsMem⟩ := dirOps_eq (C := C) hd hex (under _ rel)
        obtain rfl := Option.some.inj (hdirs.symm.trans hmade)
        have hfilesMem := mem_fileOps hd (hu hex) hfiles
        refine ⟨fun t => ?_, fun t v => ?_⟩
        · rw [List.mem_append, hdirsMem, hfilesMem, or_iff_left (by rintro ⟨_, _, _, _, ⟨⟩⟩)]
          simp only [Disk.Op.dir.injEq]
        · rw [List.mem_append, hdirsMem, hfilesMem, or_iff_right (by rintro ⟨_, _, _, ⟨⟩⟩)]
          simp only [Disk.Op.file.injEq]
    next => cases h
  next hnone =>
    obtain ⟨rfl, rfl⟩ := Prod.mk.inj (Option.some.inj h)
    refine ⟨fun t => iff_of_false (by rintro ⟨⟩) ?_, fun t v => iff_of_false (by rintro ⟨⟩) ?_⟩
    · rintro ⟨q, hq, hw, _⟩
      exact hnone (exists_of_within hw (.inl hq))
    · rintro ⟨q, u, hq, hw, _⟩
      exact hnone (exists_of_within hw (.inr (Dict.mem_keys_of_get? hq)))

/-! ## A whole payload -/

/-- Nothing is where the trees will go, and no file is above. -/
def Unused (root : PosixPath) (counter : Nat) (disk : Disk (Stat C)) : Prop :=
  ∀ k, counter < k → disk.Vacant (nextDir root k) ∧ disk.Open (nextDir root k)

/-- What holds between one reference and the next. -/
structure Mirrored (root : PosixPath) (d : Disk (Stat C)) (w : Remapper C) : Prop where
  placed : Placed root w.mapping w.counter
  unused : Unused root w.counter w.disk
  mirrors : ∀ o s, w.mapping.get? o = some s → Disk.Mirrors keep d o w.disk s

omit [DecidableEq H] in
@[simp] theorem path_refOf (hh : Hashing C H) (d : Disk (Stat C)) (p : PosixPath) (role : Role) :
    (refOf hh d p role).path = p := by
  unfold refOf
  split <;> rfl

theorem names_ne_nil {q : PosixPath} (h : Above p q) : q.names ≠ [] :=
  List.ne_nil_of_length_pos (Nat.zero_lt_of_lt h.length_lt)

/-- A scratch directory leaves the place of its tree free. -/
theorem vacant_mkdirs {disk e : Disk (Stat C)} (h : disk.mkdirs base = some e)
    (habove : Above base target) (hv : disk.Vacant base) :
    e.Vacant target := by
  obtain ⟨hfiles, hdirs⟩ := Disk.mkdirs_eq_some h
  intro q hq
  have hbase := PosixPath.above_of_within habove hq
  have hold := hv q (.inr hbase)
  refine ⟨hfiles ▸ hold.1, fun hd => ?_⟩
  rcases (hdirs q).mp hd with (rfl | hlt) | hd
  · exact PosixPath.not_above_self _ hbase
  · exact PosixPath.not_above_self _ (hbase.trans hlt)
  · exact hold.2 hd

theorem mirrored_materialize (hd : Regular d) (hu : Exists d p → Unmistaken hh storage d p)
    (hw : Mirrored root d w) (h : materialize hh storage root w (refOf hh d p role) = some w') :
    Mirrored root d w' := by
  rcases materialize_cases h with
    ⟨-, rfl⟩ | ⟨target, ops, e, -, hmk, hplan, hperform, hcount, hmap⟩
  · exact hw
  have hcopies := copies_of_plan hd hu hplan
  have habove := above_plan hplan
  obtain ⟨hfiles, hdirs⟩ := Disk.mkdirs_eq_some hmk
  have hin := fun op hop => PosixPath.within_trans (hcopies.within op hop) (.inr habove)
  -- in the other scratch directories all stays as it is
  have hframe : ∀ k ≠ w.counter + 1, ∀ x, Within x (nextDir root k) →
      w'.disk.files.get? x = w.disk.files.get? x ∧ (x ∈ w'.disk.dirs ↔ x ∈ w.disk.dirs) := by
    intro k hk x hx
    have hout : ¬ Within x (nextDir root (w.counter + 1)) := fun hb => hk (nextDir_apart hx hb)
    have hlow : ¬ Above x (nextDir root (w.counter + 1)) := fun hb =>
      hk (nextDir_apart (PosixPath.within_trans (.inr hb) hx) (PosixPath.within_self _))
    obtain ⟨hget, hmem⟩ := Disk.perform_frame hperform
      (hcopies.named (names_ne_nil habove)) hin hout hlow
    rw [hget, hmem, hfiles, hdirs, or_iff_right fun hor => hor.elim (fun heq => hout (.inl heq)) hlow]
    exact ⟨rfl, Iff.rfl⟩
  refine ⟨placed_materialize h hw.placed, fun k hk => ?_, fun o s hs => ?_⟩
  · rw [hcount] at hk
    obtain ⟨hvac, hopen⟩ := hw.unused k (by omega)
    refine ⟨fun x hx => ?_, fun f hf hab => ?_⟩
    · obtain ⟨hget, hmem⟩ := hframe k (by omega) x hx
      rw [hmem, Dict.mem_keys_iff, hget, ← Dict.mem_keys_iff]
      exact hvac x hx
    · have hout : ∀ v, Disk.Op.file f v ∉ ops := fun v hop => by
        have := nextDir_apart (PosixPath.within_self (nextDir root k))
          (PosixPath.within_trans (.inr hab) (hin _ hop))
        omega
      rw [Dict.mem_keys_iff, Disk.get?_perform_of_notMem hperform hout, hfiles,
        ← Dict.mem_keys_iff] at hf
      exact hopen f hf hab
  · rw [hmap, Dict.get?_set, path_refOf] at hs
    split at hs
    next heq =>
      obtain rfl := Option.some.inj hs
      subst heq
      have hvac := (hw.unused _ (Nat.lt_succ_self _)).1
      exact hcopies.mirrors (names_ne_nil habove) (vacant_mkdirs hmk habove hvac) hperform
    next =>
      intro q hq
      obtain ⟨k, hk, hks⟩ := hw.placed.below s (Dict.mem_values_iff.mpr ⟨o, hs⟩)
      have hat := PosixPath.within_trans (PosixPath.within_moved q o s) (.inr hks)
      obtain ⟨hget, hmem⟩ := hframe k (by omega) _ hat
      rw [hget, hmem]
      exact hw.mirrors o s hs q hq

theorem mem_keys_materialize (h : materialize hh storage root w ref = some w') {o : PosixPath}
    (ho : o ∈ w.mapping.keys ∨ ref.path = o) : o ∈ w'.mapping.keys := by
  rcases materialize_cases h with ⟨hold, rfl⟩ | ⟨_, _, _, _, _, _, _, _, hmap⟩
  · exact ho.elim id fun heq => heq ▸ hold
  · exact hmap ▸ Dict.mem_keys_set.mpr ho

theorem mem_keys_resolve (h : resolve hh storage root refs w = some w') (href : ref ∈ refs) :
    ref.path ∈ w'.mapping.keys := by
  induction refs generalizing w with
  | nil => exact nomatch href
  | cons r refs ih =>
    obtain ⟨v, hv, hrest⟩ := Option.bind_eq_some_iff.mp h
    rcases List.mem_cons.mp href with rfl | href
    · exact resolve_inv (I := fun v => ref.path ∈ v.mapping.keys)
        (fun _ _ _ _ hk hv => mem_keys_materialize hv (.inl hk))
        (mem_keys_materialize hv (.inr rfl)) hrest
    · exact ih hrest href

theorem mirrored_resolve (hd : Regular d) (hrefs : ∀ ref ∈ refs, ∃ p role,
      ref = refOf hh d p role ∧ (Exists d p → Unmistaken hh storage d p))
    (hw : Mirrored root d w) (h : resolve hh storage root refs w = some w') :
    Mirrored root d w' :=
  resolve_inv (fun ref href v v' hv hv' => by
    obtain ⟨p, role, rfl, hu⟩ := hrefs ref href
    exact mirrored_materialize hd hu hv hv') hw h

/-! ## What the storage holds -/

/-- The manifest of the tree at `p` is stored, and all its files are. -/
def Held (hh : Hashing C H) (storage : Storage C H) (d : Disk (Stat C)) (p : PosixPath) : Prop :=
  storage.manifests.get? (hh.ofManifest (manifestOf hh d p)) = some (manifestOf hh d p) ∧
    ∀ file ∈ treeFiles d p,
      storage.blobs.get? (hh.ofFile file.2.content) = some file.2.content

theorem unmistaken_of_held (h : Held hh storage d p) : Unmistaken hh storage d p :=
  ⟨fun _ hm _ => (Option.some.inj (h.1.symm.trans hm)).symm,
    fun file hfile _ hc _ => (Option.some.inj ((h.2 file hfile).symm.trans hc)).symm⟩

theorem fetch_of_held (h : Held hh storage d p) (hfile : file ∈ treeFiles d p) :
    fetch hh storage (entry hh file) = some (keep file.2) := by
  show (storage.blobs.get? (hh.ofFile file.2.content)).bind _ = _
  rw [h.2 file hfile]
  exact if_pos ⟨rfl, rfl⟩

theorem plan_of_held (hd : Regular d) (h : Exists d p → Held hh storage d p) (base : PosixPath)
    (role : Role) : ∃ made, plan hh storage base (refOf hh d p role) = some made := by
  unfold refOf
  split
  next hex =>
    have hheld := h hex
    have hroot : ∃ rel, safeRel (if kindOf d p = .dir ∧ p.name = [] then "dir".toList
        else p.name) = some rel := by
      by_cases hnames : p.names = []
      · have hdir : kindOf d p = .dir := if_pos <| decide_eq_true <|
          hex.resolve_right fun hkey => hd.named p hkey hnames
        rw [if_pos ⟨hdir, by rw [PosixPath.name, hnames]; rfl⟩]
        exact ⟨⟨.relative, ["dir".toList], by decide +kernel⟩, by decide +kernel⟩
      · obtain ⟨rel, hrel⟩ := safeRel_name hnames (hd.dots p hex)
        refine ⟨rel, (if_neg fun hnil => ?_).symm ▸ hrel⟩
        rw [hnil.2] at hrel
        exact nomatch hrel
    obtain ⟨rel, hrel⟩ := hroot
    have hfiles : ∀ t, ∀ e ∈ (manifestOf hh d p).files,
        (fileOp hh storage (kindOf d p) t e).isSome := by
      intro t e he
      obtain ⟨file, hfile, rfl⟩ := List.mem_map.mp he
      obtain ⟨q, hq⟩ := stands_of_mem hd hfile
      rw [fileOp_of_stands hq, fetch_of_held hheld hfile]
      rfl
    have hsole : ¬ (kindOf d p = .file ∧ (manifestOf hh d p).files.length ≠ 1) := by
      rintro ⟨hkind, hlen⟩
      have hp : ¬ d.isDir p = true := fun h => nomatch hkind.symm.trans (if_pos h)
      obtain ⟨u, hu⟩ := Dict.mem_keys_iff.mp (hex.resolve_left fun h => hp (decide_eq_true h))
      refine hlen ?_
      show ((treeFiles d p).map _).length = 1
      rw [treeFiles, if_neg hp, hu]
      rfl
    have hcontent : ∀ top, ∃ made,
        contentOps hh storage top (manifestOf hh d p) = some made := by
      intro top
      obtain ⟨dirs, hdirs, -⟩ := dirOps_eq (C := C) hd hex (under top rel)
      have hmap := mapM_eq_filterMap.mpr ⟨hfiles (under top rel), rfl⟩
      exact ⟨_, (if_neg hsole).trans (Option.bind_eq_some_iff.mpr ⟨rel, hrel,
        Option.bind_eq_some_iff.mpr ⟨dirs, hdirs, Option.bind_eq_some_iff.mpr ⟨_, hmap, rfl⟩⟩⟩)⟩
    obtain ⟨made, hmade⟩ := hcontent _
    exact ⟨made, Option.bind_eq_some_iff.mpr ⟨_, hheld.1, (if_pos rfl).trans hmade⟩⟩
  next => exact ⟨_, rfl⟩

theorem materialize_of_held (role : Role) (hd : Regular d) (h : Exists d p → Held hh storage d p)
    (hw : Mirrored root d w) :
    ∃ w', materialize hh storage root w (refOf hh d p role) = some w' := by
  unfold materialize
  split
  next => exact ⟨_, rfl⟩
  next =>
    obtain ⟨hvac, hopen⟩ := hw.unused _ (Nat.lt_succ_self _)
    obtain ⟨e, hmk⟩ := Disk.mkdirs_isSome (p := nextDir root (w.counter + 1)) fun q hq =>
      hq.elim (fun heq => (hvac q (.inl heq)).1) fun hab hf => hopen q hf hab
    obtain ⟨⟨target, ops⟩, hplan⟩ := plan_of_held hd h (nextDir root (w.counter + 1)) role
    have habove := above_plan hplan
    have hopen' : e.Open target := by
      intro f hf hab
      rw [(Disk.mkdirs_eq_some hmk).1] at hf
      rcases PosixPath.within_comparable (.inr hab) (.inr habove) with hw | ha
      · exact (hvac f hw).1 hf
      · exact hopen f hf ha
    have hcopies := copies_of_plan hd (fun hex => unmistaken_of_held (h hex)) hplan
    obtain ⟨disk, hperform⟩ := hcopies.perform (names_ne_nil habove)
      (vacant_mkdirs hmk habove hvac) hopen'
    exact ⟨_, Option.bind_eq_some_iff.mpr ⟨e, hmk, Option.bind_eq_some_iff.mpr
      ⟨_, hplan, Option.bind_eq_some_iff.mpr ⟨disk, hperform, rfl⟩⟩⟩⟩

theorem resolve_of_held (hd : Regular d) (hw : Mirrored root d w)
    (hrefs : ∀ ref ∈ refs, ∃ p role, ref = refOf hh d p role ∧
      (Exists d p → Held hh storage d p)) : ∃ w', resolve hh storage root refs w = some w' := by
  induction refs generalizing w with
  | nil => exact ⟨w, rfl⟩
  | cons ref refs ih =>
    obtain ⟨p, role, rfl, hheld⟩ := hrefs ref List.mem_cons_self
    obtain ⟨v, hv⟩ := materialize_of_held role hd hheld hw
    have hnext := mirrored_materialize hd (fun hex => unmistaken_of_held (hheld hex)) hw hv
    obtain ⟨w', hw'⟩ := ih hnext fun r hr => hrefs r (List.mem_cons_of_mem _ hr)
    exact ⟨w', Option.bind_eq_some_iff.mpr ⟨v, hv, hw'⟩⟩

/-! ## Staging one call after the other -/

section Staging

variable {st st' st'' : Stager C H} {call : Call C} (hfile : Function.Injective hh.ofFile)
  (hmanifest : Function.Injective hh.ofManifest)

/-- What was uploaded is stored. -/
def Sound (hh : Hashing C H) (st : Stager C H) : Prop :=
  ∀ c, hh.ofFile c ∈ st.uploadedBlobs → st.storage.blobs.get? (hh.ofFile c) = some c

/-- What is stored stays. -/
structure Grown (hh : Hashing C H) (st st' : Stager C H) : Prop where
  sound : Sound hh st → Sound hh st'
  blobs : ∀ c, st.storage.blobs.get? (hh.ofFile c) = some c →
    st'.storage.blobs.get? (hh.ofFile c) = some c
  manifests : ∀ m, st.storage.manifests.get? (hh.ofManifest m) = some m →
    st'.storage.manifests.get? (hh.ofManifest m) = some m

theorem Grown.refl : Grown hh st st := ⟨id, fun _ h => h, fun _ h => h⟩

theorem Grown.trans (h : Grown hh st st') (h' : Grown hh st' st'') : Grown hh st st'' :=
  ⟨h'.sound ∘ h.sound, fun c => h'.blobs c ∘ h.blobs c, fun m => h'.manifests m ∘ h.manifests m⟩

theorem Grown.held (h : Grown hh st st') (hheld : Held hh st.storage d p) :
    Held hh st'.storage d p :=
  ⟨h.manifests _ hheld.1, fun file hf => h.blobs _ (hheld.2 file hf)⟩

include hfile in
theorem grown_uploadBlob (st : Stager C H) (c : C) : Grown hh st (uploadBlob hh st c) ∧
    (Sound hh st → (uploadBlob hh st c).storage.blobs.get? (hh.ofFile c) = some c) := by
  unfold uploadBlob
  split
  next hup => exact ⟨Grown.refl, fun hsound => hsound c hup⟩
  next =>
    have hset : ∀ c', (hh.ofFile c' = hh.ofFile c ∨
        st.storage.blobs.get? (hh.ofFile c') = some c') →
        (st.storage.blobs.set (hh.ofFile c) c).get? (hh.ofFile c') = some c' := by
      intro c' hc
      rw [Dict.get?_set]
      split
      next heq => rw [hfile heq]
      next hne => exact hc.resolve_left (Ne.symm hne)
    exact ⟨⟨fun hsound c' hc => hset c' ((List.mem_cons.mp hc).imp_right (hsound c')),
      fun c' hc => hset c' (.inr hc), fun _ h => h⟩, fun _ => Dict.get?_set_self _ _ _⟩

include hfile in
theorem grown_uploadAll (st : Stager C H) (files : List (List Char × Stat C)) :
    Grown hh st (uploadAll hh st files) ∧ (Sound hh st → ∀ file ∈ files,
      (uploadAll hh st files).storage.blobs.get? (hh.ofFile file.2.content) =
        some file.2.content) := by
  induction files generalizing st with
  | nil => exact ⟨Grown.refl, fun _ _ h => nomatch h⟩
  | cons file files ih =>
    obtain ⟨hone, hget⟩ := grown_uploadBlob hfile st file.2.content
    obtain ⟨hrest, hall⟩ := ih (uploadBlob hh st file.2.content)
    refine ⟨hone.trans hrest, fun hsound x hx => ?_⟩
    rcases List.mem_cons.mp hx with rfl | hx
    · exact hrest.blobs _ (hget hsound)
    · exact hall (hone.sound hsound) x hx

include hfile hmanifest in
theorem grown_stagePath (st : Stager C H) (d : Disk (Stat C)) (p : PosixPath) (role : Role) :
    Grown hh st (stagePath hh d st p role).1 ∧
      (Sound hh st → Exists d p → Held hh (stagePath hh d st p role).1.storage d p) := by
  unfold stagePath
  split
  next =>
    obtain ⟨hgrown, hall⟩ := grown_uploadAll hfile st (treeFiles d p)
    refine ⟨hgrown.trans ⟨id, fun _ h => h, fun m hget => ?_⟩, fun hsound _ =>
      ⟨Dict.get?_set_self _ _ _, hall hsound⟩⟩
    show (Dict.set _ _ _).get? _ = _
    rw [Dict.get?_set]
    split
    next heq => rw [hmanifest heq]
    next => exact hget
  next hnot => exact ⟨Grown.refl, fun _ hex => absurd hex hnot⟩

/-- What stands in the payload for a leaf is a reference to its tree, which is stored. -/
structure Staged (hh : Hashing C H) (d : Disk (Stat C))
    (s : Stager C H × Dict PosixPath (Ref H)) : Prop where
  sound : Sound hh s.1
  ref : ∀ p ref, s.2.get? p = some ref → ∃ role, ref = refOf hh d p role
  held : ∀ p ∈ s.2.keys, Exists d p → Held hh s.1.storage d p

variable {s : Stager C H × Dict PosixPath (Ref H)}

include hfile hmanifest in
theorem staged_convert (value : PosixPath) (hs : Staged hh call.disk s) :
    Staged hh call.disk (convert hh call s value) ∧ Grown hh s.1 (convert hh call s value).1 ∧
      ∀ p, p ∈ (convert hh call s value).2.keys ↔ p ∈ s.2.keys ∨ value = p := by
  unfold convert
  cases hget : s.2.get? value with
  | some ref =>
    refine ⟨hs, Grown.refl, fun p => (or_iff_left_of_imp ?_).symm⟩
    rintro rfl
    exact Dict.mem_keys_of_get? hget
  | none =>
    obtain ⟨hgrown, hheld⟩ := grown_stagePath hfile hmanifest s.1 call.disk value
      (if ∃ o ∈ call.outputs, Within value o then .output else .input)
    refine ⟨⟨hgrown.sound hs.sound, ?_, ?_⟩, hgrown, fun p => Dict.mem_keys_set⟩
    · intro p ref hp
      rw [Dict.get?_set] at hp
      split at hp
      next heq =>
        subst heq
        obtain rfl := Option.some.inj hp
        unfold stagePath
        split <;> exact ⟨_, rfl⟩
      next => exact hs.ref p ref hp
    · intro p hk hex
      rcases Dict.mem_keys_set.mp hk with hk | rfl
      · exact hgrown.held (hs.held p hk hex)
      · exact hheld hs.sound hex

include hfile hmanifest in
theorem staged_leaves (leaves : List PosixPath) (hs : Staged hh call.disk s) :
    Staged hh call.disk (leaves.foldl (convert hh call) s) ∧
      Grown hh s.1 (leaves.foldl (convert hh call) s).1 ∧
      ∀ p, p ∈ (leaves.foldl (convert hh call) s).2.keys ↔ p ∈ s.2.keys ∨ p ∈ leaves := by
  induction leaves generalizing s with
  | nil => exact ⟨hs, Grown.refl, fun p => (or_iff_left List.not_mem_nil).symm⟩
  | cons value leaves ih =>
    obtain ⟨hone, hgrown, hkeys⟩ := staged_convert hfile hmanifest value hs
    obtain ⟨hrest, hgrown', hall⟩ := ih hone
    refine ⟨hrest, hgrown.trans hgrown', fun p => ?_⟩
    rw [List.foldl_cons, hall, hkeys, List.mem_cons, or_assoc, eq_comm]

include hfile hmanifest in
theorem staged_call (call : Call C) (hst : Sound hh st) :
    Staged hh call.disk (stageTaskPaths hh st call) ∧
      Grown hh st (stageTaskPaths hh st call).1 ∧
      ∀ p, p ∈ (stageTaskPaths hh st call).2.keys ↔ p ∈ call.leaves := by
  have hstart : Staged hh call.disk (st, ∅) :=
    ⟨hst, fun _ _ h => (nomatch h), fun _ h => (nomatch h)⟩
  obtain ⟨hstaged, hgrown, hkeys⟩ := staged_leaves hfile hmanifest call.leaves hstart
  exact ⟨hstaged, hgrown, fun p => (hkeys p).trans (or_iff_right List.not_mem_nil)⟩

include hfile hmanifest in
theorem grown_serve (calls : List (Call C)) (hst : Sound hh st) :
    Grown hh st (serve hh st calls) := by
  induction calls generalizing st with
  | nil => exact Grown.refl
  | cons call calls ih =>
    obtain ⟨hstaged, hgrown, -⟩ := staged_call hfile hmanifest call hst
    exact hgrown.trans (ih hstaged.sound)

end Staging

/-- A hash that keeps what it is given. -/
inductive Digest where
  | ofFile (content : Nat)
  | ofManifest (m : Manifest Digest)

noncomputable instance : DecidableEq Digest := Classical.decEq Digest

/-- A directory with a file, and an output. -/
def sample : Call Nat where
  disk := ((∅ : Disk (Stat Nat)).perform [.file (.parse "/in/a.osm".toList) ⟨5, 0o644⟩]).getD ∅
  outputs := [.parse "/out".toList]
  leaves := [.parse "/in".toList, .parse "/out".toList]

end OSimFlow.Executors.InputStaging
