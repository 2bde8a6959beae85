import Mathlib
import OSimFlow.Lib.Dict
import OSimFlow.Lib.Worklist

/-!
# The files that the code hash covers

`_transitive_import_closure` starts from the modules of the work layer and follows their import
statements through the tree. A statement asks for the modules it names and for every package on
the way to them below `osimflow`; the package itself is left out on purpose, its `__init__.py`
would pull in everything.

> `closure_exact`: the walk ends, and the files are those of the modules that can be reached.
>
> `top_package_left_out`: the `__init__.py` that every import of a module runs first is not
> among them.

A dotted name is the list of its parts, a path the list of its parts below the package root.
-/

namespace OSimFlow.Campaign.CodeHashes

open OSimFlow.Lib (Dict)
open OSimFlow.Lib.Worklist

abbrev Name := List String

abbrev Path := List String

/-! ## The tree -/

/-- A node of the syntax tree: an import statement, or one with the nodes of its `body`,
`orelse`, `finalbody`, `handlers` and `cases`. -/
inductive Node where
  | imports (names : List Name)
  | importFrom (level : Nat) (moduleName : Option Name) (names : List String)
  | other (children : List Node)

/-- The files below the package root; `none` cannot be read or parsed. -/
structure Tree where
  files : Dict Path (Option Node)

def Tree.isFile (tree : Tree) (path : Path) : Prop := (tree.files.get? path).isSome

instance (tree : Tree) (path : Path) : Decidable (tree.isFile path) :=
  inferInstanceAs (Decidable ((tree.files.get? path).isSome = true))

/-! ## Names and files -/

/-- `_osimflow_prefixes`. -/
def osimflowPrefixes (dotted : Name) : List Name :=
  if dotted.head? ≠ some "osimflow" then []
  else (List.range (dotted.length - 1)).map fun depth => dotted.take (depth + 2)

/-- `base.with_suffix(".py")`. -/
def modulePath (dotted : Name) : Path :=
  dotted.tail.dropLast ++ [dotted.tail.getLastD "" ++ ".py"]

def initPy : String := "__init__" ++ ".py"

/-- `base / "__init__.py"`. -/
def initPath (dotted : Name) : Path := dotted.tail ++ [initPy]

/-- `_module_file_for`. -/
def moduleFileFor (tree : Tree) (dotted : Name) : Option Path :=
  if dotted.head? ≠ some "osimflow" ∨ dotted.length < 2 then none
  else if tree.isFile (modulePath dotted) then some (modulePath dotted)
  else if tree.isFile (initPath dotted) then some (initPath dotted)
  else none

/-- The name of a file without `.py`. -/
def stem (name : String) : String := String.ofList (name.toList.take (name.toList.length - 3))

/-- `_module_name_for_file`. -/
def moduleNameForFile (path : Path) : Name :=
  let parts := path.dropLast ++ [stem (path.getLastD "")]
  "osimflow" :: if parts.getLast? = some "__init__" then parts.dropLast else parts

/-- The `package_parts` of `_iter_import_targets`. -/
def packageParts (path : Path) : Name :=
  if path.getLast? = some initPy then moduleNameForFile path
  else (moduleNameForFile path).dropLast

/-! ## Import statements -/

/-- What a `from` import is relative to, and its module. -/
def baseParts (level : Nat) (moduleName : Option Name) (package : Name) : Name :=
  if 0 < level then
    (if 1 < level then package.take (package.length - (level - 1)) else package) ++
      moduleName.getD []
  else moduleName.getD []

/-- `_importfrom_targets`. -/
def importfromTargets (level : Nat) (moduleName : Option Name) (names : List String)
    (package : Name) : List Name :=
  let base := baseParts level moduleName package
  if base.head? ≠ some "osimflow" then []
  else osimflowPrefixes base ++ names.flatMap fun name => osimflowPrefixes (base ++ [name])

theorem sum_sizeOf_le (nodes : List Node) : (nodes.map sizeOf).sum ≤ sizeOf nodes := by
  induction nodes with
  | nil => simp
  | cons node nodes ih =>
    rw [List.map_cons, List.sum_cons, List.cons.sizeOf_spec]
    omega

/-- `stack.extend(nodes)`; the end of a stack, that is popped, is in front. -/
def extend {α : Type} (stack nodes : List α) : List α := nodes.reverse ++ stack

/-- The loop of `_iter_import_targets`. -/
def walk (package : Name) : List Node → List Name
  | [] => []
  | .imports names :: stack => names.flatMap osimflowPrefixes ++ walk package stack
  | .importFrom level moduleName names :: stack =>
    importfromTargets level moduleName names package ++ walk package stack
  | .other children :: stack => walk package (extend stack children)
termination_by stack => (stack.map sizeOf).sum
decreasing_by
  · rw [List.map_cons, List.sum_cons, Node.imports.sizeOf_spec]
    omega
  · rw [List.map_cons, List.sum_cons, Node.importFrom.sizeOf_spec]
    omega
  · have hle := sum_sizeOf_le children
    rw [extend, List.map_append, List.map_reverse, List.sum_append, List.sum_reverse,
      List.map_cons, List.sum_cons, Node.other.sizeOf_spec]
    omega

/-- `_iter_import_targets`. -/
def iterImportTargets (node : Node) (path : Path) : List Name := walk (packageParts path) [node]

/-! ## The closure -/

/-- `seen.add(module_file)`. -/
def see (seen : List Path) (path : Path) : List Path :=
  if path ∈ seen then seen else path :: seen

/-- The loop of `_transitive_import_closure`; `none` if it is not done. -/
def closureLoop (tree : Tree) : Nat → List Path → List Name → List Name → Option (List Path)
  | _, seen, _, [] => some seen
  | 0, _, _, _ :: _ => none
  | fuel + 1, seen, visited, name :: pending =>
    if name ∈ visited then closureLoop tree fuel seen visited pending
    else
      match moduleFileFor tree name with
      | none => closureLoop tree fuel seen (name :: visited) pending
      | some path =>
        match tree.files.get? path with
        | some (some node) =>
          closureLoop tree fuel (see seen path) (name :: visited)
            (extend pending (iterImportTargets node path))
        | _ => closureLoop tree fuel (see seen path) (name :: visited) pending

def importClosure (tree : Tree) (fuel : Nat) (roots : List Name) : Option (List Path) :=
  closureLoop tree fuel [] [] roots.reverse

/-! ## What is wanted -/

/-- The node is in the tree of the other. -/
inductive Within : Node → Node → Prop where
  | here (node : Node) : Within node node
  | inside {node child : Node} {children : List Node} (hchild : child ∈ children)
      (h : Within node child) : Within node (.other children)

/-- The statement names a module that `n` is, or is a package on the way to. -/
def Asks (package : Name) : Node → Name → Prop
  | .imports names, n => ∃ dotted ∈ names, n <+: dotted
  | .importFrom level moduleName names, n =>
    n <+: baseParts level moduleName package ∨
      ∃ name ∈ names, n <+: baseParts level moduleName package ++ [name]
  | .other _, _ => False

/-- A module below `osimflow`. -/
def Internal (n : Name) : Prop := n.head? = some "osimflow" ∧ 2 ≤ n.length

/-- The package that relative imports of the module start from: itself, if it is one. -/
def packageOf (tree : Tree) (n : Name) : Name :=
  if tree.isFile (modulePath n) then n.dropLast else n

/-- What can be reached from the roots by import statements. -/
inductive Reachable (tree : Tree) (roots : List Name) : Name → Prop where
  | root {n : Name} (h : n ∈ roots) : Reachable tree roots n
  | imported {m n : Name} {path : Path} {node statement : Node} (hm : Reachable tree roots m)
      (hpath : moduleFileFor tree m = some path)
      (hnode : tree.files.get? path = some (some node)) (hwithin : Within statement node)
      (hasks : Asks (packageOf tree m) statement n) (hinternal : Internal n) :
      Reachable tree roots n

/-! ## Names -/

theorem mem_osimflowPrefixes {n dotted : Name} :
    n ∈ osimflowPrefixes dotted ↔ n <+: dotted ∧ Internal n := by
  rw [osimflowPrefixes, Internal]
  by_cases hhead : dotted.head? = some "osimflow"
  · rw [if_neg (not_not.mpr hhead), List.mem_map]
    constructor
    · rintro ⟨depth, hdepth, rfl⟩
      have hlt := List.mem_range.mp hdepth
      refine ⟨List.take_prefix _ _, ?_, ?_⟩
      · rw [List.head?_take, if_neg (by omega), hhead]
      · rw [List.length_take]
        omega
    · rintro ⟨ hprefix, -, hlength⟩
      have hle := hprefix.length_le
      refine ⟨n.length - 2, List.mem_range.mpr (by omega), ?_⟩
      have hsame : n.length - 2 + 2 = n.length := by omega
      rw [hsame]
      exact (List.prefix_iff_eq_take.mp hprefix).symm
  · rw [if_pos hhead]
    refine iff_of_false List.not_mem_nil ?_
    rintro ⟨⟨rest, rfl⟩, hn, -⟩
    cases n with
    | nil => exact nomatch hn
    | cons part n => exact hhead hn

theorem mem_importfromTargets {level : Nat} {moduleName : Option Name} {names : List String}
    {package n : Name} : n ∈ importfromTargets level moduleName names package ↔
      Asks package (.importFrom level moduleName names) n ∧ Internal n := by
  rw [importfromTargets, Asks]
  split
  next hhead =>
    refine iff_of_false List.not_mem_nil ?_
    have hother : ∀ rest, n <+: baseParts level moduleName package ++ rest → ¬ Internal n ∨
        baseParts level moduleName package = [] := by
      intro rest hn
      cases hbase : baseParts level moduleName package with
      | nil => exact Or.inr rfl
      | cons part base =>
        refine Or.inl fun hinternal => ?_
        obtain ⟨tail, htail⟩ := hn
        cases n with
        | nil => exact nomatch hinternal.1
        | cons part' n =>
          rw [hbase, List.cons_append, List.cons_append] at htail
          rw [hbase] at hhead
          have hsame := (List.cons.inj htail).1
          exact hhead (hsame ▸ hinternal.1)
    rintro ⟨hn | ⟨name, -, hn⟩, hinternal⟩
    · rcases hother [] (by rwa [List.append_nil]) with h | h
      · exact h hinternal
      · rw [h] at hn
        have hlength := hn.length_le
        have hlong := hinternal.2
        rw [List.length_nil] at hlength
        omega
    · rcases hother [name] hn with h | h
      · exact h hinternal
      · rw [h] at hn
        have hlength := hn.length_le
        have hlong := hinternal.2
        rw [List.nil_append, List.length_singleton] at hlength
        omega
  next =>
    rw [List.mem_append, mem_osimflowPrefixes, List.mem_flatMap]
    simp only [mem_osimflowPrefixes]
    constructor
    · rintro (⟨hn, hinternal⟩ | ⟨name, hname, hn, hinternal⟩)
      · exact ⟨Or.inl hn, hinternal⟩
      · exact ⟨Or.inr ⟨name, hname, hn⟩, hinternal⟩
    · rintro ⟨hn | ⟨name, hname, hn⟩, hinternal⟩
      · exact Or.inl ⟨hn, hinternal⟩
      · exact Or.inr ⟨name, hname, hn, hinternal⟩

/-- The walk comes to every statement. -/
theorem mem_walk {package n : Name} (stack : List Node) : n ∈ walk package stack ↔
    ∃ node ∈ stack, ∃ statement, Within statement node ∧ Asks package statement n ∧ Internal n := by
  induction stack using walk.induct with
  | case1 =>
    rw [walk]
    exact iff_of_false List.not_mem_nil fun h => by
      obtain ⟨node, hnode, -⟩ := h
      exact nomatch hnode
  | case2 names stack ih =>
    rw [walk, List.mem_append, ih, List.mem_flatMap]
    simp only [mem_osimflowPrefixes, List.mem_cons, exists_eq_or_imp]
    refine or_congr_left ?_
    constructor
    · rintro ⟨dotted, hdotted, hn, hinternal⟩
      exact ⟨_, .here _, ⟨dotted, hdotted, hn⟩, hinternal⟩
    · rintro ⟨statement, hwithin, hasks, hinternal⟩
      cases hwithin
      obtain ⟨dotted, hdotted, hn⟩ := hasks
      exact ⟨dotted, hdotted, hn, hinternal⟩
  | case3 level moduleName names stack ih =>
    rw [walk, List.mem_append, ih, mem_importfromTargets]
    simp only [List.mem_cons, exists_eq_or_imp]
    refine or_congr_left ?_
    constructor
    · rintro ⟨hasks, hinternal⟩
      exact ⟨_, .here _, hasks, hinternal⟩
    · rintro ⟨statement, hwithin, hasks, hinternal⟩
      cases hwithin
      exact ⟨hasks, hinternal⟩
  | case4 children stack ih =>
    rw [walk, ih]
    simp only [extend, List.mem_append, List.mem_reverse, List.mem_cons, or_and_right, exists_or,
      exists_eq_left]
    refine or_congr_left ?_
    constructor
    · rintro ⟨child, hchild, statement, hwithin, hrest⟩
      exact ⟨statement, .inside hchild hwithin, hrest⟩
    · rintro ⟨statement, hwithin, hasks, hinternal⟩
      cases hwithin with
      | here => exact absurd hasks id
      | inside hchild h => exact ⟨_, hchild, statement, h, hasks, hinternal⟩

/-! ## Files -/

theorem stem_py (name : String) : stem (name ++ ".py") = name := by
  have hpy : (".py" : String).toList = ['.', 'p', 'y'] := rfl
  rw [stem, String.toList_append, hpy, List.length_append]
  have hlength : name.toList.length + ['.', 'p', 'y'].length - 3 = name.toList.length := by
    show name.toList.length + 3 - 3 = _
    omega
  rw [hlength, List.take_left', String.ofList_toList]
  rfl

theorem append_py_inj {a b : String} (h : a ++ ".py" = b ++ ".py") : a = b := by
  rw [← stem_py a, h, stem_py]

/-- A dotted name below `osimflow`. -/
theorem internal_of_file {tree : Tree} {n : Name} {path : Path}
    (h : moduleFileFor tree n = some path) :
    ∃ front last, n = "osimflow" :: (front ++ [last]) := by
  rw [moduleFileFor] at h
  split at h
  next => exact nomatch h
  next hname =>
    rw [not_or, not_not, Nat.not_lt] at hname
    obtain ⟨hhead, hlength⟩ := hname
    cases n with
    | nil => exact nomatch hhead
    | cons part rest =>
      obtain rfl := Option.some.inj hhead
      rcases List.eq_nil_or_concat rest with rfl | ⟨front, last, rfl⟩
      · exact absurd hlength (by decide)
      · exact ⟨front, last, by rw [List.concat_eq_append]⟩

/-- The package of a file is that of the name it was found for. -/
theorem packageParts_eq {tree : Tree} {n : Name} {path : Path}
    (h : moduleFileFor tree n = some path) : packageParts path = packageOf tree n := by
  obtain ⟨front, last, rfl⟩ := internal_of_file h
  have hmodule : modulePath ("osimflow" :: (front ++ [last])) = front ++ [last ++ ".py"] := by
    simp [modulePath]
  have hinit : initPath ("osimflow" :: (front ++ [last])) = front ++ [last] ++ [initPy] := rfl
  rw [moduleFileFor] at h
  split at h
  next => exact nomatch h
  next =>
    rw [packageOf]
    split at h
    next hfile =>
      -- a module: its file may be called like that of a package
      rw [if_pos hfile]
      rw [hmodule] at h
      obtain rfl := Option.some.inj h
      have hname : moduleNameForFile (front ++ [last ++ ".py"]) =
          "osimflow" :: if last = "__init__" then front else front ++ [last] := by
        simp [moduleNameForFile, stem_py]
      have hcut : ("osimflow" :: (front ++ [last])).dropLast = "osimflow" :: front := by
        rw [← List.cons_append, List.dropLast_concat]
      rw [packageParts, hname, hcut, List.getLast?_concat]
      by_cases hlast : last = "__init__"
      · rw [if_pos hlast, if_pos (by rw [hlast, initPy])]
      · have hother : some (last ++ ".py") ≠ some initPy := fun heq =>
          hlast (append_py_inj (Option.some.inj heq))
        rw [if_neg hlast, if_neg hother, hcut]
    next hfile =>
      rw [if_neg hfile]
      split at h
      next =>
        rw [hinit] at h
        obtain rfl := Option.some.inj h
        have hname : moduleNameForFile (front ++ [last] ++ [initPy]) =
            "osimflow" :: (front ++ [last]) := by
          have hstem : stem initPy = "__init__" := stem_py "__init__"
          simp [moduleNameForFile, hstem]
        rw [packageParts, List.getLast?_concat, if_pos rfl, hname]
      next => exact nomatch h

/-! ## Reachability -/

/-- The targets of a file. -/
def fileTargets (tree : Tree) (path : Path) : List Name :=
  match tree.files.get? path with
  | some (some node) => iterImportTargets node path
  | _ => []

/-- The targets of a name, if it has a file. -/
def targetsOf (tree : Tree) (name : Name) : List Name :=
  match moduleFileFor tree name with
  | none => []
  | some path => fileTargets tree path

theorem mem_targetsOf {tree : Tree} {m n : Name} : n ∈ targetsOf tree m ↔
    ∃ path node statement, moduleFileFor tree m = some path ∧
      tree.files.get? path = some (some node) ∧ Within statement node ∧
      Asks (packageOf tree m) statement n ∧ Internal n := by
  rw [targetsOf]
  cases hpath : moduleFileFor tree m with
  | none => simp
  | some path =>
    simp only [Option.some.injEq, exists_and_left, exists_eq_left']
    rw [fileTargets]
    cases hnode : tree.files.get? path with
    | none => simp
    | some read =>
      cases read with
      | none => simp
      | some node =>
        simp only [Option.some.injEq, exists_eq_left']
        rw [iterImportTargets, packageParts_eq hpath, mem_walk]
        simp only [List.mem_singleton, exists_eq_left]

theorem reachable_iff {tree : Tree} {roots : List Name} {n : Name} :
    Reachable tree roots n ↔ ∃ r ∈ roots, Reaches (targetsOf tree) r n := by
  constructor
  · intro h
    induction h with
    | root hr => exact ⟨_, hr, Relation.ReflTransGen.refl⟩
    | imported _ hpath hnode hwithin hasks hinternal ih =>
      obtain ⟨r, hr, hreaches⟩ := ih
      exact ⟨r, hr, hreaches.tail
        (mem_targetsOf.mpr ⟨_, _, _, hpath, hnode, hwithin, hasks, hinternal⟩)⟩
  · rintro ⟨r, hr, hreaches⟩
    induction hreaches with
    | refl => exact .root hr
    | tail _ hedge ih =>
      obtain ⟨_, _, _, hpath, hnode, hwithin, hasks, hinternal⟩ := mem_targetsOf.mp hedge
      exact .imported ih hpath hnode hwithin hasks hinternal

/-! ## The loop -/

theorem mem_see {seen : List Path} {path f : Path} : f ∈ see seen path ↔ f = path ∨ f ∈ seen := by
  rw [see]
  split
  next hmem => exact (or_iff_right_of_imp fun h => h ▸ hmem).symm
  next => exact List.mem_cons

theorem nodup_see {seen : List Path} (h : seen.Nodup) (path : Path) : (see seen path).Nodup := by
  rw [see]
  split
  next => exact h
  next hnew => exact List.nodup_cons.mpr ⟨hnew, h⟩

/-- The files that are seen are those of the names that are visited. -/
def Sees (tree : Tree) (seen : List Path) (visited : List Name) : Prop :=
  seen.Nodup ∧ ∀ f, f ∈ seen ↔ ∃ n ∈ visited, moduleFileFor tree n = some f

theorem Sees.none {tree : Tree} {seen : List Path} {visited : List Name} {name : Name}
    (h : Sees tree seen visited) (hname : moduleFileFor tree name = .none) :
    Sees tree seen (name :: visited) := by
  refine ⟨h.1, fun f => ?_⟩
  rw [h.2]
  simp only [List.mem_cons, exists_eq_or_imp, hname]
  exact (or_iff_right nofun).symm

theorem Sees.some {tree : Tree} {seen : List Path} {visited : List Name} {name : Name}
    {path : Path} (h : Sees tree seen visited) (hname : moduleFileFor tree name = .some path) :
    Sees tree (see seen path) (name :: visited) := by
  refine ⟨nodup_see h.1 path, fun f => ?_⟩
  rw [mem_see, h.2]
  simp only [List.mem_cons, exists_eq_or_imp, hname, Option.some.injEq]
  exact or_congr_left eq_comm

/-- The loop visits as a worklist does. -/
theorem closureLoop_of_visit {tree : Tree} {fuel : Nat} {seen : List Path}
    {visited pending result : List Name} (hsees : Sees tree seen visited)
    (h : visit (targetsOf tree) fuel visited pending = some result) :
    ∃ files, closureLoop tree fuel seen visited pending = some files ∧ Sees tree files result := by
  induction fuel generalizing seen visited pending with
  | zero =>
    cases pending with
    | nil => exact ⟨seen, rfl, Option.some.inj h ▸ hsees⟩
    | cons name pending => exact nomatch h
  | succ fuel ih =>
    cases pending with
    | nil => exact ⟨seen, rfl, Option.some.inj h ▸ hsees⟩
    | cons name pending =>
      rw [visit] at h
      rw [closureLoop]
      split at h
      next hvisited =>
        rw [if_pos hvisited]
        exact ih hsees h
      next hnew =>
        rw [if_neg hnew]
        rw [targetsOf] at h
        cases hpath : moduleFileFor tree name with
        | none =>
          rw [hpath] at h
          exact ih (hsees.none hpath) h
        | some path =>
          rw [hpath] at h
          have hgrown := hsees.some hpath
          simp only [fileTargets] at h
          cases hnode : tree.files.get? path with
          | none =>
            simp only [hnode] at h ⊢
            exact ih hgrown h
          | some read =>
            cases read with
            | none =>
              simp only [hnode] at h ⊢
              exact ih hgrown h
            | some node =>
              simp only [hnode] at h ⊢
              exact ih hgrown h

/-- Only the targets of the files can come on the list, besides the roots. -/
theorem exists_nodes (tree : Tree) (roots : List Name) : ∃ nodes : Finset Name,
    (∀ n ∈ roots, n ∈ nodes) ∧ ∀ m ∈ nodes, ∀ n ∈ targetsOf tree m, n ∈ nodes := by
  refine ⟨roots.toFinset ∪ (tree.files.keys.flatMap (fileTargets tree)).toFinset, ?_, ?_⟩
  · exact fun n hn => Finset.mem_union_left _ (List.mem_toFinset.mpr hn)
  · intro m _ n hn
    refine Finset.mem_union_right _ (List.mem_toFinset.mpr (List.mem_flatMap.mpr ?_))
    obtain ⟨path, node, _, hpath, hnode, _⟩ := mem_targetsOf.mp hn
    rw [targetsOf, hpath] at hn
    exact ⟨path, Dict.mem_keys_of_get? hnode, hn⟩

theorem closure_exact (tree : Tree) (roots : List Name) :
    ∃ bound, ∀ fuel, bound ≤ fuel → ∃ files, importClosure tree fuel roots = some files ∧
      files.Nodup ∧
      ∀ path, path ∈ files ↔ ∃ n, Reachable tree roots n ∧ moduleFileFor tree n = some path := by
  obtain ⟨nodes, hroots, hclosed⟩ := exists_nodes tree roots
  refine ⟨roots.reverse.length + ∑ n ∈ nodes, (targetsOf tree n).length, fun fuel hfuel => ?_⟩
  obtain ⟨result, hvisit, -, hresult⟩ := visit_spec hclosed
    (fun n hn => hroots n (List.mem_reverse.mp hn)) hfuel
  have hstart : Sees tree [] [] := ⟨List.nodup_nil, fun f => by simp⟩
  obtain ⟨files, hfiles, hnodup, hmem⟩ := closureLoop_of_visit hstart hvisit
  refine ⟨files, hfiles, hnodup, fun path => ?_⟩
  rw [hmem]
  refine exists_congr fun n => and_congr_left fun _ => ?_
  rw [hresult, reachable_iff]
  simp only [List.mem_reverse]

/-- An import of `osimflow.work` runs the `__init__.py` of the package first. -/
theorem top_package_left_out :
    let tree : Tree := ⟨Dict.setAll ∅
      [([initPy], some (.other [])), (["work" ++ ".py"], some (.other []))]⟩
    let roots : List Name := [["osimflow", "work"]]
    ∃ n package : Name, Reachable tree roots n ∧ package ≠ [] ∧ package <+: n ∧
      tree.isFile (initPath package) ∧
      ∃ files, importClosure tree 1 roots = some files ∧ initPath package ∉ files := by
  intro tree roots
  refine ⟨["osimflow", "work"], ["osimflow"], .root (List.mem_singleton_self _), by decide,
    ⟨["work"], rfl⟩, by decide, [["work" ++ ".py"]], ?_, by decide⟩
  have hpath : moduleFileFor tree ["osimflow", "work"] = some ["work" ++ ".py"] := by decide
  have hnode : tree.files.get? ["work" ++ ".py"] = some (some (.other [])) := rfl
  have hnone : iterImportTargets (.other []) ["work" ++ ".py"] = [] := by
    rw [iterImportTargets, walk]
    exact walk.eq_1 _
  show closureLoop tree 1 [] [] [["osimflow", "work"]] = _
  rw [closureLoop, if_neg List.not_mem_nil, hpath]
  simp only [hnode, hnone]
  rfl

end OSimFlow.Campaign.CodeHashes
