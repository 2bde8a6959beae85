import OSimFlow.Lib.Separator

/-!
# POSIX paths, as `pathlib` keeps them

A path is a root and the names below it. No name is empty, a single dot, or has a slash in
it: `PurePosixPath` drops the first two kinds when it reads a path. Two leading slashes are
a root of their own, three are one.

> `parse_str`: a path is what is read from its text.
-/

namespace OSimFlow.Lib

/-- What stands before the first name. -/
inductive PathRoot where
  | relative
  | slash
  | slashes
deriving DecidableEq, Repr

/-- A component that is kept. -/
def IsName (s : List Char) : Prop := s ≠ [] ∧ s ≠ ['.'] ∧ '/' ∉ s

instance (s : List Char) : Decidable (IsName s) := by
  unfold IsName
  infer_instance

/-- `PurePosixPath`. -/
structure PosixPath where
  root : PathRoot
  names : List (List Char)
  isName : ∀ s ∈ names, IsName s
deriving DecidableEq

namespace PosixPath

/-- The text of a root. -/
def rootText : PathRoot → List Char
  | .relative => []
  | .slash => ['/']
  | .slashes => ['/', '/']

/-- `str(path)`. -/
def str (p : PosixPath) : List Char :=
  match rootText p.root ++ ['/'].intercalate p.names with
  | [] => ['.']
  | text => text

/-- `posixpath.splitroot`. -/
def splitRoot : List Char → PathRoot × List Char
  | '/' :: '/' :: '/' :: rest => (.slash, '/' :: '/' :: rest)
  | '/' :: '/' :: rest => (.slashes, rest)
  | '/' :: rest => (.slash, rest)
  | rest => (.relative, rest)

/-- The components that are kept. -/
def namesOf (text : List Char) : List (List Char) :=
  (text.splitOn '/').filter fun s => decide (s ≠ [] ∧ s ≠ ['.'])

theorem isName_namesOf (text : List Char) : ∀ s ∈ namesOf text, IsName s := by
  intro s hs
  obtain ⟨hmem, hkept⟩ := List.mem_filter.mp hs
  obtain ⟨hne, hdot⟩ := of_decide_eq_true hkept
  exact ⟨hne, hdot, notMem_of_mem_splitOn hmem⟩

/-- `PurePosixPath(text)`. -/
def parse (text : List Char) : PosixPath :=
  ⟨(splitRoot text).1, namesOf (splitRoot text).2, isName_namesOf _⟩

/-! ## Reading what was written -/

theorem ext_iff_fields {p q : PosixPath} : p = q ↔ p.root = q.root ∧ p.names = q.names := by
  obtain ⟨r, ns, h⟩ := p
  obtain ⟨r', ns', h'⟩ := q
  constructor
  · intro heq
    cases heq
    exact ⟨rfl, rfl⟩
  · rintro ⟨rfl, rfl⟩
    rfl

/-- The names joined by slashes are told apart again. -/
theorem namesOf_intercalate {names : List (List Char)} (h : ∀ s ∈ names, IsName s) :
    namesOf (['/'].intercalate names) = names := by
  unfold namesOf
  cases names with
  | nil => rfl
  | cons s rest =>
    rw [List.splitOn_intercalate '/' (fun t ht => (h t ht).2.2) (List.cons_ne_nil s rest)]
    refine List.filter_eq_self.mpr fun t ht => ?_
    exact decide_eq_true ⟨(h t ht).1, (h t ht).2.1⟩

/-- No slash stands before the first name. -/
theorem head_intercalate {names : List (List Char)} (h : ∀ s ∈ names, IsName s) (c : Char)
    (hc : (['/'].intercalate names).head? = some c) : c ≠ '/' := by
  cases names with
  | nil => exact nomatch hc
  | cons s rest =>
    obtain ⟨hne, -, hslash⟩ := h s List.mem_cons_self
    obtain ⟨d, s', rfl⟩ := List.exists_cons_of_ne_nil hne
    have hhead : (['/'].intercalate ((d :: s') :: rest)).head? = some d := by
      cases rest with
      | nil => simp
      | cons t rest => simp
    rw [hhead] at hc
    cases hc
    intro heq
    exact hslash (heq ▸ List.mem_cons_self)

theorem splitRoot_rootText (r : PathRoot) {text : List Char}
    (h : ∀ c, text.head? = some c → c ≠ '/') : splitRoot (rootText r ++ text) = (r, text) := by
  cases text with
  | nil => cases r <;> rfl
  | cons c text =>
    have hc : c ≠ '/' := h c rfl
    cases r with
    | relative => simp [rootText, splitRoot, hc]
    | slash => simp [rootText, splitRoot, hc]
    | slashes => simp [rootText, splitRoot, hc]

theorem parse_str (p : PosixPath) : parse p.str = p := by
  have hread : parse (rootText p.root ++ ['/'].intercalate p.names) = p := by
    have hroot := splitRoot_rootText p.root (head_intercalate p.isName)
    refine ext_iff_fields.mpr ⟨congrArg Prod.fst hroot, ?_⟩
    show namesOf (splitRoot _).2 = p.names
    rw [hroot]
    exact namesOf_intercalate p.isName
  unfold str
  split
  next hnil =>
    -- the empty path is written as a dot, and a dot is dropped
    rw [hnil] at hread
    rw [← hread]
    rfl
  next => exact hread

/-! ## Parts of a path -/

/-- `path.parts` -/
def parts (p : PosixPath) : List (List Char) :=
  (match rootText p.root with
    | [] => []
    | text => [text]) ++ p.names

/-- `path.name` -/
def name (p : PosixPath) : List Char := p.names.getLast?.getD []

/-- `path.suffix`: from the last dot on, if something stands before it and after it. -/
def suffix (p : PosixPath) : List Char :=
  let tail := (p.name.reverse.takeWhile fun c => decide (c ≠ '.')).reverse
  if tail ≠ [] ∧ tail.length + 1 < p.name.length then '.' :: tail else []

/-- `path / text` -/
def div (p : PosixPath) (text : List Char) : PosixPath :=
  match (parse text).root with
  | .relative => ⟨p.root, p.names ++ (parse text).names, fun s hs =>
      (List.mem_append.mp hs).elim (p.isName s) ((parse text).isName s)⟩
  | _ => parse text

/-! ## Names joined by slashes -/

/-- `"/".join(names)` -/
def joined (names : List (List Char)) : List Char := ['/'].intercalate names

theorem splitOn_joined {names : List (List Char)} (h : ∀ s ∈ names, IsName s) (hne : names ≠ []) :
    (joined names).splitOn '/' = names :=
  List.splitOn_intercalate '/' (fun t ht => (h t ht).2.2) hne

theorem joined_append {a b : List (List Char)} (ha : a ≠ []) (hb : b ≠ []) :
    joined (a ++ b) = joined a ++ '/' :: joined b :=
  intercalate_append ha hb

theorem joined_inj {a b : List (List Char)} (ha : ∀ s ∈ a, IsName s) (hb : ∀ s ∈ b, IsName s)
    (h : joined a = joined b) : a = b := by
  have heq := congrArg namesOf h
  rwa [joined, joined, namesOf_intercalate ha, namesOf_intercalate hb] at heq

/-- A text that goes on after a slash goes on with further names. -/
theorem of_joined_eq_append {a b : List (List Char)} {text : List Char}
    (ha : ∀ s ∈ a, IsName s) (hb : ∀ s ∈ b, IsName s) (hne : b ≠ [])
    (h : joined a = joined b ++ '/' :: text) :
    ∃ rest, rest ≠ [] ∧ a = b ++ rest ∧ text = joined rest := by
  have hane : a ≠ [] := by
    rintro rfl
    exact absurd h.symm (by simp [joined])
  refine ⟨text.splitOn '/', List.splitOn_ne_nil '/' text, ?_, ?_⟩
  · rw [← splitOn_joined ha hane, h, List.splitOn_append_cons_self, splitOn_joined hb hne]
  · exact (List.intercalate_splitOn '/').symm

theorem parse_joined {names : List (List Char)} (h : ∀ s ∈ names, IsName s) :
    (parse (joined names)).root = .relative ∧ (parse (joined names)).names = names := by
  have hroot := splitRoot_rootText .relative (head_intercalate h)
  refine ⟨congrArg Prod.fst hroot, ?_⟩
  show namesOf (splitRoot _).2 = names
  rw [joined, show splitRoot (['/'].intercalate names) = _ from hroot]
  exact namesOf_intercalate h

theorem div_joined (p : PosixPath) {names : List (List Char)} (h : ∀ s ∈ names, IsName s) :
    (p.div (joined names)).root = p.root ∧ (p.div (joined names)).names = p.names ++ names := by
  obtain ⟨hroot, hnames⟩ := parse_joined h
  unfold div
  split
  next => exact ⟨rfl, congrArg (p.names ++ ·) hnames⟩
  next hne => exact absurd hroot hne

end PosixPath

end OSimFlow.Lib
