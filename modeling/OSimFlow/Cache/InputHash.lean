import OSimFlow.Lib.Dict
import OSimFlow.Lib.Framing
import OSimFlow.Lib.PosixPath
import OSimFlow.Lib.Succeeds

/-!
# The hash of the inputs of a step

What goes into the hash is, for each of the paths in the order of their texts, the name and the
content of a file, or those of the files below a directory, and two bytes at the end. The name
of a file ends at a null byte; its content ends nowhere.

> `sha256OfFiles_eq`: what is hashed is a stream of frames.
>
> `sha256OfFiles_of_ordered`: roots that come in the same order may be anywhere.
>
> `legible_iff`: when the stream says what the files are, and stays the same where they are
> moved.
-/

namespace OSimFlow.Cache.InputHash

open OSimFlow.Lib (Dict Frame PathRoot intercalate_append mapM_eq_some_iff)

/-! ## Paths -/

abbrev Bytes := List UInt8

/-- A character of a path: a scalar value, or a byte of a name that is no UTF-8. -/
inductive PathChar where
  | scalar (c : Char)
  /-- Read as `U+DC80` and so on. -/
  | escaped (b : Fin 128)
deriving DecidableEq

def PathChar.codePoint : PathChar → Nat
  | scalar c => c.toNat
  | escaped b => 0xDC80 + b

abbrev Text := List PathChar

/-- `text.encode("utf-8")`, where that does not raise. -/
def encode : Text → Option Bytes
  | [] => some []
  | .scalar c :: text => (encode text).map (String.utf8EncodeChar c ++ ·)
  | .escaped _ :: _ => none

/-- A component of a path. -/
def IsName (s : Text) : Prop :=
  s ≠ [] ∧ s ≠ [.scalar '.'] ∧ .scalar '/' ∉ s ∧ .scalar '\x00' ∉ s

instance (s : Text) : Decidable (IsName s) := by
  unfold IsName
  infer_instance

/-- `Path`. -/
structure Path where
  root : PathRoot
  names : List Text
  isName : ∀ s ∈ names, IsName s
deriving DecidableEq

/-- `"/".join(names)`. -/
def joined (names : List Text) : Text := [PathChar.scalar '/'].intercalate names

/-- The text of a root. -/
def rootText : PathRoot → Text
  | .relative => []
  | .slash => [.scalar '/']
  | .slashes => [.scalar '/', .scalar '/']

namespace Path

/-- `str(p)`. -/
def str (p : Path) : Text :=
  match rootText p.root ++ joined p.names with
  | [] => [.scalar '.']
  | text => text

/-- `p.name`. -/
def name (p : Path) : Text := p.names.getLast?.getD []

/-- `p / "/".join(rest)`. -/
def join (p : Path) (rest : List Text) (h : ∀ s ∈ rest, IsName s) : Path :=
  ⟨p.root, p.names ++ rest, fun s hs => (List.mem_append.mp hs).elim (p.isName s) (h s)⟩

/-- `q.relative_to(p).as_posix()`, for a path below. -/
def relative (p q : Path) : Text := joined (q.names.drop p.names.length)

/-- How texts are compared. -/
def key (p : Path) : List Nat := p.str.map PathChar.codePoint

end Path

/-- `q` is below `p`. -/
def Above (p q : Path) : Prop :=
  p.root = q.root ∧ p.names <+: q.names ∧ p.names.length < q.names.length

instance (p q : Path) : Decidable (Above p q) := by
  unfold Above
  infer_instance

/-- The files that there are; none is below another one. -/
structure Disk where
  files : Dict Path Bytes
  leaf : ∀ p ∈ files.keys, ∀ q ∈ files.keys, ¬ Above p q

/-! ## What is hashed -/

/-- The files of `sorted(p.rglob("*"), key=str)`, with what is in them. -/
def Disk.below (disk : Disk) (p : Path) : List (Path × Bytes) :=
  (disk.files.items.filter fun child => decide (Above p child.1)).insertionSort
    fun a b => a.1.key ≤ b.1.key

/-- The three updates of a file. -/
def updateFile (h : Bytes) (name : Text) (content : Bytes) : Option Bytes :=
  (encode name).map fun name => h ++ name ++ [0x00] ++ content

/-- The body of the loop. -/
def updateRoot (disk : Disk) (h : Bytes) (p : Path) : Option Bytes := do
  let h ← match disk.files.get? p with
    | some content => updateFile h p.name content
    | none => (disk.below p).foldlM (fun h child => updateFile h (p.relative child.1) child.2) h
  return h ++ [0xff, 0xff]

/-- `sha256_of_files`, up to the hash: the bytes that go into it. -/
def sha256OfFiles (disk : Disk) (paths : List Path) : Option Bytes :=
  (paths.insertionSort fun p q => p.key ≤ q.key).foldlM (updateRoot disk) []

/-! ## Files and frames -/

/-- The files of a root under their relative names. -/
def filesAt (disk : Disk) (p : Path) : List (Text × Bytes) :=
  match disk.files.get? p with
  | some content => [(p.name, content)]
  | none => (disk.below p).map fun child => (p.relative child.1, child.2)

def frameOf (file : Text × Bytes) : Option (Frame UInt8) :=
  (encode file.1).map fun name => .entry name file.2

def framesAt (disk : Disk) (p : Path) : Option (List (Frame UInt8)) :=
  ((filesAt disk p).mapM frameOf).map (· ++ [.mark])

/-- The frames of the roots in their order, with the names as UTF-8. -/
def frames (disk : Disk) (paths : List Path) : Option (List (Frame UInt8)) :=
  ((paths.insertionSort fun p q => p.key ≤ q.key).mapM (framesAt disk)).map List.flatten

/-- The bytes of some frames. -/
abbrev bytesOf (frames : List (Frame UInt8)) : Bytes := Frame.stream 0x00 [0xff, 0xff] frames

abbrev Spills (frames frames' : List (Frame UInt8)) : Prop :=
  Frame.Spills 0x00 [0xff, 0xff] frames frames'

/-! ## What the hash is to say -/

/-- The same relative names with the same contents. -/
def SameFiles (disk disk' : Disk) (paths paths' : List Path) : Prop :=
  (paths.flatMap (filesAt disk)).Perm (paths'.flatMap (filesAt disk'))

instance (disk disk' : Disk) (paths paths' : List Path) :
    Decidable (SameFiles disk disk' paths paths') := by
  unfold SameFiles
  infer_instance

/-- `p` is found at `p'` on the other disk, with all that is below it. -/
def MovedTo (disk disk' : Disk) (p p' : Path) : Prop :=
  p.name = p'.name ∧
    ∀ rest h, disk.files.get? (p.join rest h) = disk'.files.get? (p'.join rest h)

/-- The stream says what the files are, and stays the same where the roots are moved. -/
structure Faithful (disk disk' : Disk) (paths paths' : List Path) : Prop where
  total : (sha256OfFiles disk paths).isSome ∧ (sha256OfFiles disk' paths').isSome
  injective : sha256OfFiles disk paths = sha256OfFiles disk' paths' →
    SameFiles disk disk' paths paths'
  stable : List.Forall₂ (MovedTo disk disk') paths paths' →
    sha256OfFiles disk paths = sha256OfFiles disk' paths'

/-- When it does: no name has a byte that is no UTF-8, no content goes on in another as the
stream goes on behind it unless the files are the same, and the roots that are moved come with
the same files in the same order. -/
def Legible (disk disk' : Disk) (paths paths' : List Path) : Prop :=
  ∃ fs fs', frames disk paths = some fs ∧ frames disk' paths' = some fs' ∧
    (Spills fs fs' ∨ Spills fs' fs → SameFiles disk disk' paths paths') ∧
    (List.Forall₂ (MovedTo disk disk') paths paths' →
      fs = fs' ∨ Spills fs fs' ∨ Spills fs' fs)

/-! ## Encoding -/

theorem mem_utf8EncodeChar {c : Char} {b : UInt8} (h : b ∈ String.utf8EncodeChar c) :
    b ≠ 0xff ∧ (b = 0x00 → c = '\x00') := by
  have hbytes : b.toNat < 0xff ∧ (b.toNat = 0 → c.val.toNat = 0) := by
    unfold String.utf8EncodeChar at h
    simp only at h
    have hmod : ∀ n : Nat, (UInt8.ofNat n).toNat = n % 256 := fun n => rfl
    split at h
    · rw [List.mem_singleton] at h
      rw [h, hmod]
      omega
    · split at h
      · simp only [List.mem_cons, List.not_mem_nil, or_false] at h
        rcases h with h | h <;> rw [h, hmod] <;> omega
      · split at h
        · simp only [List.mem_cons, List.not_mem_nil, or_false] at h
          rcases h with h | h | h <;> rw [h, hmod] <;> omega
        · simp only [List.mem_cons, List.not_mem_nil, or_false] at h
          rcases h with h | h | h | h <;> rw [h, hmod] <;> omega
  constructor
  · rintro rfl
    exact Nat.lt_irrefl _ hbytes.1
  · rintro rfl
    exact Char.ext (UInt32.toNat_inj.mp (hbytes.2 rfl))

/-- What is encoded has scalar values only. -/
theorem encode_eq_some_iff {s : Text} {bytes : Bytes} : encode s = some bytes ↔
    ∃ cs : List Char, s = cs.map .scalar ∧ bytes = cs.flatMap String.utf8EncodeChar := by
  constructor
  · intro h
    induction s generalizing bytes with
    | nil =>
      cases h
      exact ⟨[], rfl, rfl⟩
    | cons x s ih =>
      cases x with
      | escaped b => cases h
      | scalar c =>
        obtain ⟨rest, hrest, rfl⟩ := Option.map_eq_some_iff.mp h
        obtain ⟨cs, rfl, rfl⟩ := ih hrest
        exact ⟨c :: cs, rfl, rfl⟩
  · intro h
    obtain ⟨cs, rfl, rfl⟩ := h
    induction cs with
    | nil => rfl
    | cons c cs ih =>
      rw [List.map_cons, encode, ih]
      rfl

theorem encode_inj {s s' : Text} {bytes : Bytes} (h : encode s = some bytes)
    (h' : encode s' = some bytes) : s = s' := by
  obtain ⟨cs, rfl, hbytes⟩ := encode_eq_some_iff.mp h
  obtain ⟨cs', rfl, hbytes'⟩ := encode_eq_some_iff.mp h'
  have hstring : String.ofList cs = String.ofList cs' := by
    refine String.toByteArray_inj.mp ?_
    show (cs.flatMap String.utf8EncodeChar).toByteArray =
      (cs'.flatMap String.utf8EncodeChar).toByteArray
    rw [← hbytes, ← hbytes']
  rw [String.ofList_inj.mp hstring]

/-- A name without a null character is read up to the separator, and is no mark. -/
theorem not_mem_encode {s : Text} {bytes : Bytes} (hnull : .scalar '\x00' ∉ s)
    (h : encode s = some bytes) : 0x00 ∉ bytes ∧ 0xff ∉ bytes := by
  obtain ⟨cs, rfl, rfl⟩ := encode_eq_some_iff.mp h
  constructor
  · intro hmem
    obtain ⟨c, hc, hbyte⟩ := List.mem_flatMap.mp hmem
    refine hnull (List.mem_map.mpr ⟨c, hc, ?_⟩)
    rw [(mem_utf8EncodeChar hbyte).2 rfl]
  · intro hmem
    obtain ⟨c, -, hbyte⟩ := List.mem_flatMap.mp hmem
    exact (mem_utf8EncodeChar hbyte).1 rfl

/-! ## The stream of frames -/

/-- An update writes the frame of the file. -/
theorem updateFile_eq (h : Bytes) (name : Text) (content : Bytes) :
    updateFile h name content =
      (frameOf (name, content)).map fun frame => h ++ frame.text 0x00 [0xff, 0xff] := by
  rw [updateFile, frameOf, Option.map_map]
  congr 1
  funext bytes
  show h ++ bytes ++ [0x00] ++ content = h ++ (bytes ++ 0x00 :: content)
  rw [List.append_assoc, List.append_assoc, List.singleton_append]

/-- Steps that each write something behind write all of it, one behind the other. -/
theorem foldlM_write {β γ : Type} (f : β → Option γ) (write : γ → Bytes)
    (step : Bytes → β → Option Bytes) (hstep : ∀ h x, step h x = (f x).map fun y => h ++ write y)
    (l : List β) (h : Bytes) :
    l.foldlM step h = (l.mapM f).map fun ys => h ++ ys.flatMap write := by
  induction l generalizing h with
  | nil => exact congrArg some (List.append_nil h).symm
  | cons x l ih =>
    rw [List.foldlM_cons, List.mapM_cons, hstep]
    cases hx : f x with
    | none => rfl
    | some y =>
      show l.foldlM step (h ++ write y) = _
      rw [ih]
      cases hl : l.mapM f with
      | none => rfl
      | some ys => simp

theorem bytesOf_append (fs fs' : List (Frame UInt8)) :
    bytesOf (fs ++ fs') = bytesOf fs ++ bytesOf fs' :=
  Frame.stream_append fs fs'

theorem updateRoot_eq (disk : Disk) (h : Bytes) (p : Path) :
    updateRoot disk h p = (framesAt disk p).map fun frames => h ++ bytesOf frames := by
  have hmark : ∀ frames : Option (List (Frame UInt8)),
      ((frames.map fun fs => h ++ fs.flatMap (Frame.text 0x00 [0xff, 0xff])).bind
        fun h => some (h ++ [0xff, 0xff])) =
      (frames.map (· ++ [.mark])).map fun fs => h ++ bytesOf fs := by
    intro frames
    cases frames with
    | none => rfl
    | some fs =>
      show some (h ++ bytesOf fs ++ [0xff, 0xff]) = some (h ++ bytesOf (fs ++ [.mark]))
      rw [bytesOf_append, List.append_assoc]
      rfl
  rw [updateRoot, framesAt, filesAt]
  cases disk.files.get? p with
  | some content =>
    rw [← hmark]
    dsimp only
    rw [updateFile_eq, List.mapM_cons, List.mapM_nil]
    cases frameOf (p.name, content) with
    | none => rfl
    | some frame => simp
  | none =>
    rw [← hmark]
    dsimp only
    rw [foldlM_write (fun child : Path × Bytes => frameOf (p.relative child.1, child.2))
      (Frame.text 0x00 [0xff, 0xff]) (fun h child => updateFile h (p.relative child.1) child.2)
      fun h child => updateFile_eq h _ _, List.mapM_map]
    rfl

theorem sha256OfFiles_eq (disk : Disk) (paths : List Path) :
    sha256OfFiles disk paths = (frames disk paths).map bytesOf := by
  rw [sha256OfFiles, frames, foldlM_write (framesAt disk) bytesOf _ (updateRoot_eq disk),
    Option.map_map]
  congr 1
  funext fss
  show fss.flatMap bytesOf = bytesOf fss.flatten
  induction fss with
  | nil => rfl
  | cons fs fss ih => rw [List.flatMap_cons, List.flatten_cons, bytesOf_append, ih]

/-! ## Names in frames -/

theorem null_notMem_joined {names : List Text} (h : ∀ s ∈ names, IsName s) :
    PathChar.scalar '\x00' ∉ joined names := by
  induction names with
  | nil => exact List.not_mem_nil
  | cons s names ih =>
    have hs := (h s List.mem_cons_self).2.2.2
    have hrest := ih fun t ht => h t (List.mem_cons_of_mem s ht)
    cases names with
    | nil => simpa [joined] using hs
    | cons t names =>
      rw [joined, List.intercalate_cons_cons, List.mem_append, List.mem_append]
      rintro ((hmem | hmem) | hmem)
      · exact hs hmem
      · exact absurd (List.mem_singleton.mp hmem) (by decide)
      · exact hrest hmem

/-- The names of the files have no null character. -/
theorem null_notMem_filesAt {disk : Disk} {p : Path} :
    ∀ file ∈ filesAt disk p, PathChar.scalar '\x00' ∉ file.1 := by
  rw [filesAt]
  cases disk.files.get? p with
  | some content =>
    intro file hfile
    rw [List.mem_singleton.mp hfile]
    show _ ∉ p.names.getLast?.getD []
    cases hlast : p.names.getLast? with
    | none => exact List.not_mem_nil
    | some s => exact (p.isName s (List.mem_of_getLast? hlast)).2.2.2
  | none =>
    intro file hfile
    obtain ⟨child, -, rfl⟩ := List.mem_map.mp hfile
    exact null_notMem_joined fun s hs => child.1.isName s (List.mem_of_mem_drop hs)

theorem readable_of_frameOf {file : Text × Bytes} {frame : Frame UInt8}
    (hnull : PathChar.scalar '\x00' ∉ file.1) (h : frameOf file = some frame) :
    frame.Readable 0x00 [0xff, 0xff] := by
  obtain ⟨name, hname, rfl⟩ := Option.map_eq_some_iff.mp h
  obtain ⟨hzero, hmark⟩ := not_mem_encode hnull hname
  refine ⟨hzero, fun c hc => ?_⟩
  cases hc
  exact hmark

theorem mem_of_mapM {α β : Type} {f : α → Option β} {l : List α} {r : List β}
    (h : l.mapM f = some r) {y : β} (hy : y ∈ r) : ∃ x ∈ l, f x = some y := by
  have hmem : some y ∈ l.map f := by
    rw [mapM_eq_some_iff.mp h]
    exact List.mem_map_of_mem hy
  exact List.mem_map.mp hmem

theorem readable_frames {disk : Disk} {paths : List Path} {fs : List (Frame UInt8)}
    (h : frames disk paths = some fs) : ∀ frame ∈ fs, frame.Readable 0x00 [0xff, 0xff] := by
  intro frame hframe
  obtain ⟨fss, hfss, rfl⟩ := Option.map_eq_some_iff.mp h
  obtain ⟨root, hroot, hframe⟩ := List.mem_flatten.mp hframe
  obtain ⟨p, -, hp⟩ := mem_of_mapM hfss hroot
  obtain ⟨entries, hentries, rfl⟩ := Option.map_eq_some_iff.mp hp
  rcases List.mem_append.mp hframe with hentry | hmark
  · obtain ⟨file, hfile, hframe⟩ := mem_of_mapM hentries hentry
    exact readable_of_frameOf (null_notMem_filesAt file hfile) hframe
  · rw [List.mem_singleton.mp hmark]
    trivial

/-! ## Files in frames -/

/-- The frames that are no marks. -/
def entries (fs : List (Frame UInt8)) : List (Frame UInt8) :=
  fs.filter fun frame => decide (frame ≠ .mark)

theorem map_frameOf_filesAt {disk : Disk} {p : Path} {fs : List (Frame UInt8)}
    (h : framesAt disk p = some fs) : (filesAt disk p).map frameOf = (entries fs).map some := by
  obtain ⟨es, hes, rfl⟩ := Option.map_eq_some_iff.mp h
  rw [mapM_eq_some_iff.mp hes, entries, List.filter_append, List.filter_eq_self.mpr]
  · rw [List.filter_singleton, decide_eq_false (not_not.mpr rfl), cond_false, List.append_nil]
  · intro frame hframe
    obtain ⟨file, -, hfile⟩ := mem_of_mapM hes hframe
    obtain ⟨name, -, rfl⟩ := Option.map_eq_some_iff.mp hfile
    rfl

theorem map_frameOf_frames {disk : Disk} {paths : List Path} {fs : List (Frame UInt8)}
    (h : frames disk paths = some fs) :
    ((paths.insertionSort fun p q => p.key ≤ q.key).flatMap (filesAt disk)).map frameOf =
      (entries fs).map some := by
  obtain ⟨fss, hfss, rfl⟩ := Option.map_eq_some_iff.mp h
  have hall := mapM_eq_some_iff.mp hfss
  generalize paths.insertionSort (fun p q => p.key ≤ q.key) = sorted at hall ⊢
  clear h hfss
  induction sorted generalizing fss with
  | nil =>
    rw [List.map_eq_nil_iff.mp hall.symm]
    rfl
  | cons p sorted ih =>
    cases fss with
    | nil => cases hall
    | cons fs fss =>
      obtain ⟨hp, hrest⟩ := List.cons.inj hall
      rw [List.flatMap_cons, List.map_append, ih fss hrest, map_frameOf_filesAt hp,
        List.flatten_cons, entries, entries, entries, List.filter_append, List.map_append]

theorem frameOf_inj {file file' : Text × Bytes} {frame : Frame UInt8}
    (h : frameOf file = some frame) (h' : frameOf file' = some frame) : file = file' := by
  obtain ⟨name, hname, hframe⟩ := Option.map_eq_some_iff.mp h
  obtain ⟨name', hname', hframe'⟩ := Option.map_eq_some_iff.mp h'
  rw [← hframe'] at hframe
  injection hframe with hsame hcontent
  exact Prod.ext (encode_inj (hsame ▸ hname) hname') hcontent

/-- The frames say what the files are. -/
theorem sameFiles_of_frames {disk disk' : Disk} {paths paths' : List Path}
    {fs : List (Frame UInt8)} (h : frames disk paths = some fs)
    (h' : frames disk' paths' = some fs) : SameFiles disk disk' paths paths' := by
  have hsorted : ∀ (disk : Disk) (paths : List Path),
      ((paths.insertionSort fun p q => p.key ≤ q.key).flatMap (filesAt disk)).Perm
        (paths.flatMap (filesAt disk)) :=
    fun disk paths => (List.perm_insertionSort _ paths).flatMap_right _
  refine (hsorted disk paths).symm.trans (.trans (.of_eq ?_) (hsorted disk' paths'))
  have hsame := (map_frameOf_frames h).trans (map_frameOf_frames h').symm
  have hsome : ∀ file ∈ (paths.insertionSort fun p q => p.key ≤ q.key).flatMap (filesAt disk),
      (frameOf file).isSome := by
    intro file hfile
    have hmem := List.mem_map_of_mem (f := frameOf) hfile
    rw [map_frameOf_frames h] at hmem
    obtain ⟨frame, -, hframe⟩ := List.mem_map.mp hmem
    rw [← hframe]
    rfl
  generalize (paths.insertionSort fun p q => p.key ≤ q.key).flatMap (filesAt disk) = files
    at hsame hsome
  generalize (paths'.insertionSort fun p q => p.key ≤ q.key).flatMap (filesAt disk') = files'
    at hsame
  induction files generalizing files' with
  | nil => exact (List.map_eq_nil_iff.mp hsame.symm).symm
  | cons file files ih =>
    cases files' with
    | nil => cases hsame
    | cons file' files' =>
      obtain ⟨hfile, hrest⟩ := List.cons.inj hsame
      obtain ⟨hone, hmore⟩ := List.forall_mem_cons.mp hsome
      obtain ⟨frame, hframe⟩ := Option.isSome_iff_exists.mp hone
      rw [frameOf_inj hframe (hfile ▸ hframe), ih hmore files' hrest]

/-! ## Moving a root -/

theorem codePoint_injective : Function.Injective PathChar.codePoint := by
  intro x y h
  cases x with
  | scalar c =>
    cases y with
    | scalar c' => exact congrArg _ (Char.ext (UInt32.toNat_inj.mp h))
    | escaped b =>
      have hvalid := c.valid
      have hb := b.isLt
      simp only [PathChar.codePoint, Char.toNat, UInt32.isValidChar, Nat.isValidChar] at h hvalid
      omega
  | escaped b =>
    cases y with
    | scalar c' =>
      have hvalid := c'.valid
      have hb := b.isLt
      simp only [PathChar.codePoint, Char.toNat, UInt32.isValidChar, Nat.isValidChar] at h hvalid
      omega
    | escaped b' =>
      have hsame : b.val = b'.val := Nat.add_left_cancel h
      exact congrArg _ (Fin.ext hsame)

theorem joined_inj {a b : List Text} (ha : ∀ s ∈ a, IsName s) (hb : ∀ s ∈ b, IsName s)
    (hane : a ≠ []) (hbne : b ≠ []) (h : joined a = joined b) : a = b := by
  rw [← List.splitOn_intercalate (.scalar '/') (fun s hs => (ha s hs).2.2.1) hane,
    ← List.splitOn_intercalate (.scalar '/') (fun s hs => (hb s hs).2.2.1) hbne]
  exact congrArg _ h

/-- What a path below a root is compared by: what the texts of all of them begin with, and the
relative path. -/
def behind (p : Path) : Text :=
  rootText p.root ++ if p.names = [] then [] else joined p.names ++ [.scalar '/']

theorem joined_ne_nil {names : List Text} (h : ∀ s ∈ names, IsName s) (hne : names ≠ []) :
    joined names ≠ [] := by
  obtain ⟨s, rest, rfl⟩ := List.exists_cons_of_ne_nil hne
  have hs := (h s List.mem_cons_self).1
  cases rest with
  | nil => simpa [joined] using hs
  | cons t rest => simp [joined, List.intercalate_cons_cons]

theorem key_join (p : Path) {rest : List Text} (h : ∀ s ∈ rest, IsName s) (hne : rest ≠ []) :
    (p.join rest h).key = (behind p).map PathChar.codePoint ++
      (joined rest).map PathChar.codePoint := by
  rw [Path.key, ← List.map_append]
  congr 1
  have htext : rootText p.root ++ joined (p.names ++ rest) = behind p ++ joined rest := by
    rw [behind]
    split
    next hnil => rw [hnil, List.nil_append, List.append_nil]
    next hnames =>
      rw [joined, intercalate_append hnames hne]
      simp [joined]
  show (match rootText p.root ++ joined (p.names ++ rest) with
    | [] => [PathChar.scalar '.']
    | text => text) = _
  rw [htext]
  split
  next hnil => exact absurd (List.append_eq_nil_iff.mp hnil).2 (joined_ne_nil h hne)
  next => rfl

/-- The files below a root, under their names from there on. -/
def namesBelow (disk : Disk) (p : Path) : List (List Text × Bytes) :=
  (disk.below p).map fun child => (child.1.names.drop p.names.length, child.2)

theorem mem_below {disk : Disk} {p : Path} {child : Path × Bytes} :
    child ∈ disk.below p ↔ child ∈ disk.files.items ∧ Above p child.1 := by
  rw [Disk.below, (List.perm_insertionSort _ _).mem_iff, List.mem_filter, decide_eq_true_eq]

/-- A path below a root is the root with further names. -/
theorem eq_join_of_above {p q : Path} (h : Above p q) :
    q.names.drop p.names.length ≠ [] ∧ ∃ hnames : ∀ s ∈ q.names.drop p.names.length, IsName s,
      q = p.join (q.names.drop p.names.length) hnames := by
  obtain ⟨hroot, hpre, hlength⟩ := h
  refine ⟨?_, fun s hs => q.isName s (List.mem_of_mem_drop hs), ?_⟩
  · intro hnil
    have hle := List.drop_eq_nil_iff.mp hnil
    omega
  · obtain ⟨root, names, hname⟩ := q
    obtain ⟨rest, hrest⟩ := hpre
    have hnames : names = p.names ++ rest := hrest.symm
    subst hnames
    cases hroot
    simp [Path.join]

theorem mem_namesBelow {disk : Disk} {p : Path} {x : List Text × Bytes} :
    x ∈ namesBelow disk p ↔
      x.1 ≠ [] ∧ ∃ h, disk.files.get? (p.join x.1 h) = some x.2 := by
  constructor
  · intro hx
    obtain ⟨⟨q, content⟩, hchild, rfl⟩ := List.mem_map.mp hx
    obtain ⟨hitem, habove⟩ := mem_below.mp hchild
    obtain ⟨hne, hnames, hq⟩ := eq_join_of_above habove
    refine ⟨hne, hnames, ?_⟩
    rw [← hq]
    exact Dict.mem_items.mp hitem
  · intro h
    obtain ⟨hne, hnames, hget⟩ := h
    refine List.mem_map.mpr ⟨(p.join x.1 hnames, x.2), mem_below.mpr ⟨Dict.mem_items.mpr hget, ?_⟩,
      Prod.ext List.drop_left rfl⟩
    refine ⟨rfl, List.prefix_append _ _, ?_⟩
    show p.names.length < (p.names ++ x.1).length
    have hpos := List.length_pos_of_ne_nil hne
    rw [List.length_append]
    omega

theorem nodup_namesBelow (disk : Disk) (p : Path) : (namesBelow disk p).Nodup := by
  have hnodup : (disk.below p).Nodup :=
    ((List.perm_insertionSort _ _).nodup_iff).mpr
      ((List.Nodup.of_map _ disk.files.nodup).filter _)
  refine hnodup.map_on fun a ha b hb heq => ?_
  injection heq with hnames hcontent
  obtain ⟨-, hanames, hqa⟩ := eq_join_of_above (mem_below.mp ha).2
  obtain ⟨-, hbnames, hqb⟩ := eq_join_of_above (mem_below.mp hb).2
  refine Prod.ext ?_ hcontent
  rw [hqa, hqb]
  simp only [hnames]

/-- The order is that of the relative paths. -/
theorem pairwise_namesBelow (disk : Disk) (p : Path) :
    (namesBelow disk p).Pairwise fun x y =>
      (joined x.1).map PathChar.codePoint ≤ (joined y.1).map PathChar.codePoint := by
  have htotal : Std.Total fun a b : Path × Bytes => a.1.key ≤ b.1.key :=
    ⟨fun a b => le_total a.1.key b.1.key⟩
  have htrans : IsTrans (Path × Bytes) fun a b => a.1.key ≤ b.1.key :=
    ⟨fun a b c => le_trans⟩
  have hsorted : (disk.below p).Pairwise fun a b => a.1.key ≤ b.1.key :=
    List.pairwise_insertionSort _ _
  refine List.pairwise_map.mpr (hsorted.imp_of_mem fun {a b} ha hb hle => ?_)
  obtain ⟨hane, hanames, hqa⟩ := eq_join_of_above (mem_below.mp ha).2
  obtain ⟨hbne, hbnames, hqb⟩ := eq_join_of_above (mem_below.mp hb).2
  rw [hqa, hqb, key_join p hanames hane, key_join p hbnames hbne] at hle
  by_contra hnot
  exact absurd (List.append_left_lt (not_le.mp hnot)) (not_lt.mpr hle)

/-- A root has the same files wherever it is. -/
theorem filesAt_of_moved {disk disk' : Disk} {p p' : Path} (h : MovedTo disk disk' p p') :
    filesAt disk p = filesAt disk' p' := by
  obtain ⟨hname, hget⟩ := h
  have hself : ∀ p : Path, p.join [] (fun _ hs => nomatch hs) = p := by
    intro p
    simp [Path.join]
  have hroot := hget [] fun _ hs => nomatch hs
  rw [hself, hself] at hroot
  rw [filesAt, filesAt, ← hroot, ← hname]
  cases disk.files.get? p with
  | some content => rfl
  | none =>
    have hperm : (namesBelow disk p).Perm (namesBelow disk' p') := by
      refine (List.perm_ext_iff_of_nodup (nodup_namesBelow disk p)
        (nodup_namesBelow disk' p')).mpr fun x => ?_
      rw [mem_namesBelow, mem_namesBelow]
      simp only [hget]
    have hsame : namesBelow disk p = namesBelow disk' p' := by
      refine hperm.eq_of_pairwise (fun x y hx hy hle hle' => ?_) (pairwise_namesBelow disk p)
        (pairwise_namesBelow disk' p')
      obtain ⟨hxne, hxnames, hxget⟩ := mem_namesBelow.mp hx
      obtain ⟨hyne, hynames, hyget⟩ := mem_namesBelow.mp hy
      have htext := List.map_injective_iff.mpr codePoint_injective (le_antisymm hle hle')
      have hnames := joined_inj hxnames hynames hxne hyne htext
      refine Prod.ext hnames (Option.some.inj ?_)
      rw [← hxget, ← hyget, hget]
      simp only [hnames]
    show (disk.below p).map _ = (disk'.below p').map _
    have hmap := congrArg (List.map fun x : List Text × Bytes => (joined x.1, x.2)) hsame
    rw [namesBelow, namesBelow, List.map_map, List.map_map] at hmap
    exact hmap

/-- Roots that come in the same order, as a single one does, may be anywhere. -/
theorem sha256OfFiles_of_ordered {disk disk' : Disk} {paths paths' : List Path}
    (h : List.Forall₂ (MovedTo disk disk') (paths.insertionSort fun p q => p.key ≤ q.key)
      (paths'.insertionSort fun p q => p.key ≤ q.key)) :
    sha256OfFiles disk paths = sha256OfFiles disk' paths' := by
  rw [sha256OfFiles_eq, sha256OfFiles_eq, frames, frames]
  congr 2
  generalize paths.insertionSort (fun p q => p.key ≤ q.key) = sorted at h ⊢
  generalize paths'.insertionSort (fun p q => p.key ≤ q.key) = sorted' at h ⊢
  induction h with
  | nil => rfl
  | cons hmoved _ ih =>
    rw [List.mapM_cons, List.mapM_cons, ih, framesAt, framesAt, filesAt_of_moved hmoved]

/-! ## Reading the stream -/

theorem legible_iff (disk disk' : Disk) (paths paths' : List Path) :
    Faithful disk disk' paths paths' ↔ Legible disk disk' paths paths' := by
  have hread : ∀ {fs fs' : List (Frame UInt8)}, frames disk paths = some fs →
      frames disk' paths' = some fs' → (sha256OfFiles disk paths = sha256OfFiles disk' paths' ↔
        fs = fs' ∨ Spills fs fs' ∨ Spills fs' fs) := by
    intro fs fs' hfs hfs'
    rw [sha256OfFiles_eq, sha256OfFiles_eq, hfs, hfs']
    refine Iff.trans ?_ (Frame.text_eq_iff (by decide) (readable_frames hfs)
      (readable_frames hfs'))
    exact Option.some_inj
  constructor
  · intro h
    obtain ⟨⟨hsome, hsome'⟩, hinjective, hstable⟩ := h
    rw [sha256OfFiles_eq, Option.isSome_map] at hsome hsome'
    obtain ⟨fs, hfs⟩ := Option.isSome_iff_exists.mp hsome
    obtain ⟨fs', hfs'⟩ := Option.isSome_iff_exists.mp hsome'
    have hiff := hread hfs hfs'
    refine ⟨fs, fs', hfs, hfs', fun hspills => hinjective (hiff.mpr (.inr hspills)), ?_⟩
    exact fun hmoved => hiff.mp (hstable hmoved)
  · intro h
    obtain ⟨fs, fs', hfs, hfs', hspills, hmoved⟩ := h
    have hiff := hread hfs hfs'
    refine ⟨?_, fun hsame => ?_, fun h => hiff.mpr (hmoved h)⟩
    · rw [sha256OfFiles_eq, sha256OfFiles_eq, hfs, hfs']
      exact ⟨rfl, rfl⟩
    · rcases hiff.mp hsame with rfl | hcases
      · exact sameFiles_of_frames hfs hfs'
      · exact hspills hcases

def component (s : String) : Text := s.toList.map .scalar

/-- An absolute path. -/
def absolute (names : List String) (h : ∀ s ∈ names.map component, IsName s) : Path :=
  ⟨.slash, names.map component, h⟩

/-- The files `a` with `x` and `b` with `y`. -/
def apart : Disk where
  files := ⟨[(absolute ["in", "a"] (by decide +kernel), [0x78]),
    (absolute ["in", "b"] (by decide +kernel), [0x79])], by decide +kernel⟩
  leaf := by decide +kernel

/-- The files `a`, empty, and `xb` with `y`. -/
def shifted : Disk where
  files := ⟨[(absolute ["in", "a"] (by decide +kernel), []),
    (absolute ["in", "xb"] (by decide +kernel), [0x79])], by decide +kernel⟩
  leaf := by decide +kernel

theorem apart_hashed_as_shifted :
    ¬ Faithful apart shifted [absolute ["in"] (by decide +kernel)]
      [absolute ["in"] (by decide +kernel)] := by
  intro h
  have hsame : SameFiles apart shifted [absolute ["in"] (by decide +kernel)]
      [absolute ["in"] (by decide +kernel)] := h.injective (by decide +kernel)
  revert hsame
  decide +kernel

/-- The files of `apart` below another directory. -/
def elsewhere : Disk where
  files := ⟨[(absolute ["out", "in", "a"] (by decide +kernel), [0x78]),
    (absolute ["out", "in", "b"] (by decide +kernel), [0x79])], by decide +kernel⟩
  leaf := by decide +kernel

theorem apart_hashed_elsewhere :
    sha256OfFiles apart [absolute ["in"] (by decide +kernel)] =
      sha256OfFiles elsewhere [absolute ["out", "in"] (by decide +kernel)] := by
  have hmoved : MovedTo apart elsewhere (absolute ["in"] (by decide +kernel))
      (absolute ["out", "in"] (by decide +kernel)) := by
    refine ⟨by decide +kernel, fun rest h => ?_⟩
    by_cases ha : rest = [component "a"]
    · subst ha
      rfl
    by_cases hb : rest = [component "b"]
    · subst hb
      rfl
    rw [Dict.get?_of_notMem, Dict.get?_of_notMem]
    · simp [elsewhere, Dict.keys, Path.join, absolute, ha, hb]
    · simp [apart, Dict.keys, Path.join, absolute, ha, hb]
  exact sha256OfFiles_of_ordered (.cons hmoved .nil)

end OSimFlow.Cache.InputHash
