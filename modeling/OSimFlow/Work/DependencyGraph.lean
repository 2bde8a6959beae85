import Mathlib.Data.List.Perm.Basic
import Mathlib.Data.List.Sort
import OSimFlow.Lib.Kahn
import OSimFlow.Lib.Succeeds
import OSimFlow.Work.GenerateLhs

/-!
# The order in which the script draws the variables

`generate_lhs.py` sorts the variables by Kahn's algorithm, a conditional variable behind the one
it depends on, and draws those of a sample in this order, looking the parent's value up among
those drawn before. The names stand in a `set`: in which order the loop gets them, and so the
order of the variables that do not depend on each other, is not determined.

> `ordering_exact`: `ValueError` for a parent that is not given, not defined, or that cannot
> come first because of a cycle, and else all variables in an order in which every lookup of a
> parent's value succeeds.
-/

namespace OSimFlow.Work.DependencyGraph

open OSimFlow.Lib
open OSimFlow.Algorithms.Sampling
open OSimFlow.Work.GenerateLhs

/-! ## Definitions -/

/-- An entry of `conditions`. -/
structure Condition (K : Type) where
  distribution : Option Distribution
  params : Definition K

/-- An entry of `variables`. -/
structure VarDef (K : Type) where
  name : String
  distribution : Option Distribution
  dependsOn : Option String := none
  conditions : List (String × Condition K) := []
  params : Definition K

variable {K : Type}

/-- What `depends_on` names; an empty name is none. -/
def VarDef.parent? (v : VarDef K) : Option String := v.dependsOn.filter (· ≠ "")

inductive GraphError where
  /-- "variable '…' has distribution='conditional' but no 'depends_on' key" -/
  | noParent (name : String)
  /-- "variable '…' depends_on '…', which is not defined in variables" -/
  | undefinedParent (name parent : String)
  /-- "circular dependency detected among variables: […]" -/
  | circular (remaining : List String)
  /-- `KeyError`; the others are `ValueError`s. -/
  | keyError (name : String)
deriving DecidableEq

def GraphError.IsValueError : GraphError → Prop
  | .keyError _ => False
  | _ => True

/-! ## `_validate_dependency_graph` -/

/-- `in_degree` and `children`. -/
structure Graph where
  inDegree : String → Int
  children : String → List String

/-- The edge to a conditional variable. -/
def link (allNames : List String) (g : Graph) (v : VarDef K) : Except GraphError Graph :=
  if v.distribution = some .conditional then
    match v.parent? with
    | none => .error (.noParent v.name)
    | some parent =>
      if parent ∉ allNames then .error (.undefinedParent v.name parent)
      else .ok {
        inDegree := Function.update g.inDegree v.name (g.inDegree v.name + 1)
        children := Function.update g.children parent (g.children parent ++ [v.name]) }
  else .ok g

/-- `var_by_name`. -/
def varByName (vars : List (VarDef K)) : Dict String (VarDef K) :=
  Dict.setAll ∅ (vars.map fun v => (v.name, v))

/-- `var_by_name[name]`. -/
def lookup (vars : List (VarDef K)) (name : String) : Except GraphError (VarDef K) :=
  match (varByName vars).get? name with
  | none => .error (.keyError name)
  | some v => .ok v

/-- `_validate_dependency_graph`, where the set of the names lists them as in `allNames`. Every
turn of the loop takes a name out for good; it would be `none` if it took more turns. -/
def validateDependencyGraph (allNames : List String) (vars : List (VarDef K)) :
    Option (Except GraphError (List (VarDef K))) :=
  match vars.foldlM (link allNames) ⟨fun _ => 0, fun _ => []⟩ with
  | .error e => some (.error e)
  | .ok g =>
    match Kahn.drain g.children allNames.length
        ⟨g.inDegree, allNames.filter fun name => g.inDegree name = 0, []⟩ with
    | none => none
    | some ordered =>
      if ordered.length ≠ vars.length then
        some (.error (.circular
          ((allNames.filter fun name => name ∉ ordered).insertionSort (· ≤ ·))))
      else some (ordered.mapM (lookup vars))

/-! ## The sampling loop -/

inductive LoopError where
  /-- What drawing a value raises. -/
  | draw (e : SampleError)
  /-- The `KeyError` of `resolved[parent_name]`. -/
  | unresolved (parent : String)
deriving DecidableEq

section

variable [Field K] [LinearOrder K] [FloorRing K]

/-- `_resolve_label`. -/
def resolveLabel (str : Scalar K → String) : Sampled K → String
  | .structured label _ _ => label
  | .plain v => str v

/-- The condition for the parent's value, and a draw from its distribution. -/
def drawCondition (num : Numerics K) (str : Scalar K → String) (u : K) (v : VarDef K)
    (parentKey : String) : Except SampleError (Sampled K) :=
  match v.conditions.find? fun item => item.1 = parentKey with
  | none => .error .valueError
  | some item => do
    let subDist ← require item.2.distribution
    applyDistribution num str u subDist item.2.params

/-- `_resolve_conditional`. -/
def resolveConditional (num : Numerics K) (str : Scalar K → String) (u : K) (v : VarDef K)
    (resolved : Dict String (Sampled K)) : Except LoopError (Sampled K) :=
  match v.dependsOn with
  | none => .error (.draw .keyError)
  | some parentName =>
    match resolved.get? parentName with
    | none => .error (.unresolved parentName)
    | some parentValue =>
      if v.conditions = [] then .error (.draw .valueError)
      else (drawCondition num str u v (resolveLabel str parentValue)).mapError .draw

/-- One turn of the loop on the variables; `row` is that of the sample in `lhs_samples`. -/
def turn (num : Numerics K) (str : Scalar K → String) (varIndex : Dict String Nat)
    (row : Nat → K) (values : Dict String (Sampled K)) (v : VarDef K) :
    Except LoopError (Dict String (Sampled K)) :=
  match varIndex.get? v.name with
  | none => .error (.draw .keyError)
  | some j =>
    values.set v.name <$>
      if v.distribution = some .conditional then resolveConditional num str (row j) v values
      else (applyDistribution num str (row j) (v.distribution.getD (.other "")) v.params).mapError
        .draw

/-- The loop on the samples. -/
def sampleAll (num : Numerics K) (str : Scalar K → String) (lhsSamples : Nat → Nat → K)
    (vars ordered : List (VarDef K)) (nSamples : Nat) :
    Except LoopError (List (String × Dict String (Sampled K))) :=
  let varIndex := Dict.setAll ∅ (vars.zipIdx.map fun item => (item.1.name, item.2))
  (List.range nSamples).mapM fun i => do
    let values ← ordered.foldlM (turn num str varIndex (lhsSamples i)) ∅
    return (padded 4 (i + 1), values)

end

/-! ## What is wanted -/

/-- `c` is conditional on `p`. -/
def DependsOn (vars : List (VarDef K)) (p c : String) : Prop :=
  ∃ v ∈ vars, v.name = c ∧ v.distribution = some .conditional ∧ v.parent? = some p

/-- The variable is conditional, and its parent is missing, or not defined, or it is on a cycle
or below one. -/
def Faulty (vars : List (VarDef K)) (v : VarDef K) : Prop :=
  v.distribution = some .conditional ∧
    (v.parent? = none ∨
      (∃ p, v.parent? = some p ∧ p ∉ vars.map VarDef.name) ∨
      Kahn.Stuck (DependsOn vars) v.name)

/-- Every conditional variable comes behind its parent. -/
def ParentsFirst (ordered : List (VarDef K)) : Prop :=
  ∀ (i : Nat) v, ordered[i]? = some v → v.distribution = some .conditional →
    ∀ p, v.parent? = some p → ∃ (j : Nat) (w : VarDef K), j < i ∧ ordered[j]? = some w ∧ w.name = p

/-! ## The graph -/

/-- The variable passes the checks of the first loop. -/
def Sound (allNames : List String) (v : VarDef K) : Prop :=
  v.distribution = some .conditional → ∃ p, v.parent? = some p ∧ p ∈ allNames

/-- The graph of the edges to some of the variables. -/
structure Linked (allNames : List String) (done : List (VarDef K)) (g : Graph) : Prop where
  children : ∀ p c, c ∈ g.children p ↔ DependsOn done p c
  degree : ∀ x, g.inDegree x = (∑ p ∈ allNames.toFinset, (g.children p).count x : Nat)

theorem linked_start (allNames : List String) :
    Linked allNames ([] : List (VarDef K)) ⟨fun _ => 0, fun _ => []⟩ where
  children := fun p c => by simp [DependsOn]
  degree := fun x => by simp

theorem dependsOn_concat {done : List (VarDef K)} {v : VarDef K} {p c : String} :
    DependsOn (done ++ [v]) p c ↔ DependsOn done p c ∨
      (v.name = c ∧ v.distribution = some .conditional ∧ v.parent? = some p) := by
  simp only [DependsOn, List.mem_append, List.mem_singleton, or_and_right, exists_or,
    exists_eq_left]

theorem link_unsound {allNames : List String} {v : VarDef K} (h : ¬ Sound allNames v)
    (g : Graph) : ∃ e, link allNames g v = .error e ∧ e.IsValueError := by
  rw [Sound] at h
  push Not at h
  obtain ⟨hcond, hparent⟩ := h
  rw [link, if_pos hcond]
  cases hp : v.parent? with
  | none => exact ⟨_, rfl, trivial⟩
  | some p => exact ⟨_, if_pos (hparent p hp), trivial⟩

/-- One more edge counts once, under its parent. -/
theorem Linked.link {allNames : List String} {done : List (VarDef K)} {g : Graph}
    (h : Linked allNames done g) {v : VarDef K} (hv : Sound allNames v) :
    ∃ g', link allNames g v = .ok g' ∧ Linked allNames (done ++ [v]) g' := by
  by_cases hcond : v.distribution = some .conditional
  · obtain ⟨parent, hp, hmem⟩ := hv hcond
    rw [DependencyGraph.link, if_pos hcond, hp]
    refine ⟨_, if_neg (not_not.mpr hmem), ⟨fun p c => ?_, fun x => ?_⟩⟩
    · rw [dependsOn_concat]
      by_cases hpp : p = parent
      · subst hpp
        show c ∈ Function.update g.children p (g.children p ++ [v.name]) p ↔ _
        rw [Function.update_self, List.mem_append, h.children, List.mem_singleton]
        exact or_congr_right ⟨fun hc => ⟨hc.symm, hcond, hp⟩, fun hc => hc.1.symm⟩
      · show c ∈ Function.update g.children parent (g.children parent ++ [v.name]) p ↔ _
        rw [Function.update_of_ne hpp, h.children]
        refine (or_iff_left ?_).symm
        rintro ⟨-, -, hp'⟩
        exact hpp (Option.some.inj (hp'.symm.trans hp))
    · have hnode : parent ∈ allNames.toFinset := List.mem_toFinset.mpr hmem
      have hold := Finset.add_sum_erase _ (fun p => (g.children p).count x) hnode
      have hnew := Finset.add_sum_erase _ (fun p =>
        (Function.update g.children parent (g.children parent ++ [v.name]) p).count x) hnode
      have hrest : ∑ p ∈ allNames.toFinset.erase parent,
          (Function.update g.children parent (g.children parent ++ [v.name]) p).count x =
          ∑ p ∈ allNames.toFinset.erase parent, (g.children p).count x :=
        Finset.sum_congr rfl fun p hpe => by
          rw [Function.update_of_ne (Finset.ne_of_mem_erase hpe)]
      have hdegree := h.degree x
      simp only [Function.update_self, List.count_append] at hnew
      rw [hrest] at hnew
      show Function.update g.inDegree v.name (g.inDegree v.name + 1) x =
        (∑ p ∈ allNames.toFinset,
          (Function.update g.children parent (g.children parent ++ [v.name]) p).count x : Nat)
      by_cases hx : x = v.name
      · subst hx
        rw [List.count_singleton_self] at hnew
        rw [Function.update_self]
        omega
      · rw [List.count_singleton, if_neg (by simpa using Ne.symm hx)] at hnew
        rw [Function.update_of_ne hx]
        omega
  · rw [DependencyGraph.link, if_neg hcond]
    refine ⟨g, rfl, fun p c => ?_, h.degree⟩
    rw [dependsOn_concat, h.children]
    exact (or_iff_left fun hv => hcond hv.2.1).symm

theorem foldlM_link {allNames : List String} {done rest : List (VarDef K)} {g : Graph}
    (h : Linked allNames done g) (hrest : ∀ v ∈ rest, Sound allNames v) :
    ∃ g', rest.foldlM (link allNames) g = .ok g' ∧ Linked allNames (done ++ rest) g' := by
  induction rest generalizing done g with
  | nil => exact ⟨g, rfl, by rwa [List.append_nil]⟩
  | cons v rest ih =>
    obtain ⟨g', hg', hlinked⟩ := h.link (hrest v (List.mem_cons_self ..))
    obtain ⟨g'', hg'', hall⟩ := ih hlinked fun w hw => hrest w (List.mem_cons_of_mem _ hw)
    refine ⟨g'', ?_, ?_⟩
    · rw [List.foldlM_cons, hg']
      exact hg''
    · rwa [List.append_assoc] at hall

theorem foldlM_link_unsound {allNames : List String} {vars : List (VarDef K)} {v : VarDef K}
    (hv : v ∈ vars) (hunsound : ¬ Sound allNames v) (g : Graph) :
    ∃ e, vars.foldlM (link allNames) g = .error e ∧ e.IsValueError := by
  induction vars generalizing g with
  | nil => exact absurd hv List.not_mem_nil
  | cons w vars ih =>
    rw [List.foldlM_cons]
    by_cases hw : Sound allNames w
    · have hne : v ≠ w := fun heq => hunsound (heq ▸ hw)
      have hmem := (List.mem_cons.mp hv).resolve_left hne
      cases hlink : link allNames g w with
      | ok g' => exact ih hmem g'
      | error e =>
        -- a sound variable has its edge
        exfalso
        rw [link] at hlink
        split at hlink
        next hcond =>
          obtain ⟨p, hp, hknown⟩ := hw hcond
          rw [hp] at hlink
          simp only [hknown, not_true_eq_false, if_false] at hlink
          cases hlink
        next => cases hlink
    · obtain ⟨e, he, hvalue⟩ := link_unsound hw g
      exact ⟨e, by rw [he]; rfl, hvalue⟩

/-! ## Names and variables -/

theorem keys_varByName (vars : List (VarDef K)) (name : String) :
    name ∈ (varByName vars).keys ↔ name ∈ vars.map VarDef.name := by
  rw [varByName, Dict.mem_keys_setAll, List.map_map]
  exact or_iff_right List.not_mem_nil

theorem lookup_of_mem {vars : List (VarDef K)} (hdistinct : (vars.map VarDef.name).Nodup)
    {v : VarDef K} (hv : v ∈ vars) : lookup vars v.name = .ok v := by
  have hlast : Dict.lastOf v.name (vars.map fun w => (w.name, w)) = some v := by
    refine Dict.lastOf_eq_some (List.mem_map.mpr ⟨v, hv, rfl⟩) fun w hw => ?_
    obtain ⟨w', hw', heq⟩ := List.mem_map.mp hw
    injection heq with hname hsame
    subst hsame
    exact List.inj_on_of_nodup_map hdistinct hw' hv hname
  rw [lookup, varByName, Dict.get?_setAll, hlast]
  rfl

/-- The set holds every name once. -/
theorem perm_names {allNames : List String} {vars : List (VarDef K)}
    (hall : allNames.Perm (varByName vars).keys) (hdistinct : (vars.map VarDef.name).Nodup) :
    allNames.Perm (vars.map VarDef.name) := by
  refine hall.trans ((List.perm_ext_iff_of_nodup ?_ hdistinct).mpr (keys_varByName vars))
  exact (varByName vars).nodup

/-- If all variables pass the first loop, the second leaves those out that are on a cycle or
below one. -/
theorem drain_names {allNames : List String} {vars : List (VarDef K)}
    (hall : allNames.Perm (varByName vars).keys) (hdistinct : (vars.map VarDef.name).Nodup)
    (hsound : ∀ v ∈ vars, Sound allNames v) :
    ∃ g ordered, vars.foldlM (link allNames) ⟨fun _ => 0, fun _ => []⟩ = .ok g ∧
      Kahn.drain g.children allNames.length
        ⟨g.inDegree, allNames.filter fun name => g.inDegree name = 0, []⟩ = some ordered ∧
      ordered.Nodup ∧ Kahn.Sorted (DependsOn vars) ordered ∧
      ∀ x, x ∈ ordered ↔ x ∈ vars.map VarDef.name ∧ ¬ Kahn.Stuck (DependsOn vars) x := by
  have hperm := perm_names hall hdistinct
  have hnodup : allNames.Nodup := hperm.nodup_iff.mpr hdistinct
  obtain ⟨g, hg, hlinked⟩ := foldlM_link (linked_start allNames) hsound
  rw [List.nil_append] at hlinked
  have hclosed : ∀ p ∈ allNames.toFinset, ∀ c ∈ g.children p, c ∈ allNames.toFinset := by
    intro p _ c hc
    obtain ⟨v, hv, hname, -⟩ := (hlinked.children p c).mp hc
    exact List.mem_toFinset.mpr (hperm.mem_iff.mpr (List.mem_map.mpr ⟨v, hv, hname⟩))
  have hedge : Kahn.Edge g.children allNames.toFinset = DependsOn vars := by
    funext p c
    rw [Kahn.Edge, hlinked.children]
    refine propext ⟨And.right, fun hdep => ⟨?_, hdep⟩⟩
    obtain ⟨v, hv, -, hcond, hp⟩ := hdep
    obtain ⟨p', hp', hmem⟩ := hsound v hv hcond
    rw [hp] at hp'
    cases hp'
    exact List.mem_toFinset.mpr hmem
  have hstart : Kahn.Inv g.children allNames.toFinset []
      ⟨g.inDegree, allNames.filter fun name => g.inDegree name = 0, []⟩ := by
    refine Kahn.inv_start rfl (hnodup.filter _) (fun x => ?_) fun x _ => hlinked.degree x
    rw [List.mem_filter, List.mem_toFinset, decide_eq_true_eq]
  obtain ⟨ordered, hdrain, hnd, hsorted, hmem⟩ := Kahn.drain_spec hclosed allNames.length hstart (by
    rw [List.toFinset_card_of_nodup hnodup]
    exact Nat.le_add_right _ _)
  rw [hedge] at hsorted hmem
  refine ⟨g, ordered, hg, hdrain, hnd, hsorted, fun x => ?_⟩
  rw [hmem, List.mem_toFinset, hperm.mem_iff]

/-- The variables under the sorted names are the variables, sorted. -/
theorem mapM_lookup {vars : List (VarDef K)} {ordered : List String}
    (hdistinct : (vars.map VarDef.name).Nodup) (hnodup : ordered.Nodup)
    (hsorted : Kahn.Sorted (DependsOn vars) ordered)
    (hmem : ∀ x, x ∈ ordered ↔ x ∈ vars.map VarDef.name) :
    ∃ sorted, ordered.mapM (lookup vars) = .ok sorted ∧ sorted.Perm vars ∧
      ParentsFirst sorted := by
  obtain ⟨sorted, hlookup, hnames⟩ := succeeds_mapM (f := lookup vars)
    (P := fun name v => v ∈ vars ∧ v.name = name) (l := ordered) fun name hname => by
      obtain ⟨v, hv, rfl⟩ := List.mem_map.mp ((hmem name).mp hname)
      exact ⟨v, lookup_of_mem hdistinct hv, hv, rfl⟩
  have hmap : sorted.map VarDef.name = ordered := by
    have heq : List.Forall₂ (fun name v => VarDef.name v = name) ordered sorted :=
      hnames.imp fun _ _ h => h.2
    rw [← List.forall₂_eq_eq_eq, List.forall₂_map_left_iff]
    exact heq.flip
  have hsub : ∀ v ∈ sorted, v ∈ vars := by
    intro v hv
    obtain ⟨_, -, hin, -⟩ := exists_of_forall₂ hnames.flip v hv
    exact hin
  refine ⟨sorted, hlookup, ?_, ?_⟩
  · refine (List.perm_ext_iff_of_nodup ?_ hdistinct.of_map).mpr fun v => ⟨hsub v, fun hv => ?_⟩
    · exact List.Nodup.of_map VarDef.name (hmap ▸ hnodup)
    · have hname : v.name ∈ sorted.map VarDef.name := by
        rw [hmap, hmem]
        exact List.mem_map_of_mem hv
      obtain ⟨w, hw, hsame⟩ := List.mem_map.mp hname
      rw [List.inj_on_of_nodup_map hdistinct (hsub w hw) hv hsame] at hw
      exact hw
  · intro i v hi hcond p hp
    have hv := hsub v (List.mem_of_getElem? hi)
    have hplace : ordered[i]? = some v.name := by rw [← hmap, List.getElem?_map, hi]; rfl
    obtain ⟨j, hj, hparent⟩ := hsorted i v.name hplace p ⟨v, hv, rfl, hcond, hp⟩
    rw [← hmap, List.getElem?_map] at hparent
    obtain ⟨w, hw, hname⟩ := Option.map_eq_some_iff.mp hparent
    exact ⟨j, w, hj, hw, hname⟩

theorem sound_iff {allNames : List String} {vars : List (VarDef K)}
    (hperm : allNames.Perm (vars.map VarDef.name)) {v : VarDef K} :
    Sound allNames v ↔ ¬ (v.distribution = some .conditional ∧
      (v.parent? = none ∨ ∃ p, v.parent? = some p ∧ p ∉ vars.map VarDef.name)) := by
  rw [Sound]
  cases hp : v.parent? with
  | none => simp
  | some p => simp [hperm.mem_iff]

/-- A variable on a cycle or below one is conditional. -/
theorem stuck_dependsOn {vars : List (VarDef K)} {x : String}
    (h : Kahn.Stuck (DependsOn vars) x) : ∃ p, DependsOn vars p x := by
  obtain ⟨c, hcycle, hbelow⟩ := h
  have hlast := hcycle.trans_left hbelow
  obtain ⟨p, -, hedge⟩ := Relation.TransGen.tail'_iff.mp hlast
  exact ⟨p, hedge⟩

/-! ## The verdict -/

theorem validate_unsound {allNames : List String} {vars : List (VarDef K)}
    (h : ∃ v ∈ vars, ¬ Sound allNames v) :
    ∃ e, validateDependencyGraph allNames vars = some (.error e) ∧ e.IsValueError := by
  obtain ⟨v, hv, hunsound⟩ := h
  obtain ⟨e, he, hvalue⟩ := foldlM_link_unsound hv hunsound ⟨fun _ => 0, fun _ => []⟩
  exact ⟨e, by rw [validateDependencyGraph, he], hvalue⟩

theorem validate_eq {allNames : List String} {vars : List (VarDef K)} {g : Graph}
    {ordered : List String} (hg : vars.foldlM (link allNames) ⟨fun _ => 0, fun _ => []⟩ = .ok g)
    (hdrain : Kahn.drain g.children allNames.length
      ⟨g.inDegree, allNames.filter fun name => g.inDegree name = 0, []⟩ = some ordered) :
    validateDependencyGraph allNames vars =
      if ordered.length ≠ vars.length then
        some (.error (.circular
          ((allNames.filter fun name => name ∉ ordered).insertionSort (· ≤ ·))))
      else some (ordered.mapM (lookup vars)) := by
  rw [validateDependencyGraph, hg]
  simp only [hdrain]

/-- A name that is left out makes the list too short. -/
theorem validate_stuck {allNames : List String} {vars : List (VarDef K)}
    (hall : allNames.Perm (varByName vars).keys) (hdistinct : (vars.map VarDef.name).Nodup)
    (hsound : ∀ v ∈ vars, Sound allNames v)
    (h : ∃ v ∈ vars, Kahn.Stuck (DependsOn vars) v.name) :
    ∃ e, validateDependencyGraph allNames vars = some (.error e) ∧ e.IsValueError := by
  obtain ⟨v, hv, hstuck⟩ := h
  obtain ⟨g, ordered, hg, hdrain, hnd, -, hmem⟩ := drain_names hall hdistinct hsound
  have hout : v.name ∉ ordered := fun hin => ((hmem v.name).mp hin).2 hstuck
  have hsub : v.name :: ordered ⊆ vars.map VarDef.name := by
    intro x hx
    rcases List.mem_cons.mp hx with rfl | hx
    · exact List.mem_map_of_mem hv
    · exact ((hmem x).mp hx).1
  have hlen := ((List.nodup_cons.mpr ⟨hout, hnd⟩).subperm hsub).length_le
  rw [List.length_cons, List.length_map] at hlen
  refine ⟨.circular ((allNames.filter fun name => name ∉ ordered).insertionSort (· ≤ ·)), ?_,
    trivial⟩
  rw [validate_eq hg hdrain, if_pos (by omega)]

theorem validate_free {allNames : List String} {vars : List (VarDef K)}
    (hall : allNames.Perm (varByName vars).keys) (hdistinct : (vars.map VarDef.name).Nodup)
    (hsound : ∀ v ∈ vars, Sound allNames v)
    (h : ∀ v ∈ vars, ¬ Kahn.Stuck (DependsOn vars) v.name) :
    ∃ ordered, validateDependencyGraph allNames vars = some (.ok ordered) ∧
      ordered.Perm vars ∧ ParentsFirst ordered := by
  obtain ⟨g, names, hg, hdrain, hnd, hsorted, hmem⟩ := drain_names hall hdistinct hsound
  have hnames : ∀ x, x ∈ names ↔ x ∈ vars.map VarDef.name := by
    intro x
    rw [hmem]
    refine and_iff_left_of_imp fun hx => ?_
    obtain ⟨v, hv, rfl⟩ := List.mem_map.mp hx
    exact h v hv
  obtain ⟨ordered, hlookup, hperm, hfirst⟩ := mapM_lookup hdistinct hnd hsorted hnames
  have hlen : names.length = vars.length := by
    rw [((List.perm_ext_iff_of_nodup hnd hdistinct).mpr hnames).length_eq, List.length_map]
  refine ⟨ordered, ?_, hperm, hfirst⟩
  rw [validate_eq hg hdrain, if_neg (not_not.mpr hlen), hlookup]

/-! ## The lookups of the sampling loop -/

section

variable [Field K] [LinearOrder K] [FloorRing K]

/-- A turn looks up the parent of a conditional variable, and no other value. -/
theorem turn_unresolved {num : Numerics K} {str : Scalar K → String} {varIndex : Dict String Nat}
    {row : Nat → K} {values : Dict String (Sampled K)} {v : VarDef K} {p : String}
    (h : turn num str varIndex row values v = .error (.unresolved p)) :
    v.distribution = some .conditional ∧ v.dependsOn = some p ∧ values.get? p = none := by
  have hdraw : ∀ x : Except SampleError (Sampled K),
      x.mapError LoopError.draw ≠ .error (.unresolved p) := by
    intro x hx
    cases x <;> cases hx
  rw [turn] at h
  cases hj : varIndex.get? v.name with
  | none => rw [hj] at h; cases h
  | some j =>
    rw [hj] at h
    have hvalue : ∀ x : Except LoopError (Sampled K),
        values.set v.name <$> x = .error (.unresolved p) → x = .error (.unresolved p) := by
      intro x hx
      cases x with
      | ok y => cases hx
      | error e => cases hx; rfl
    have hx := hvalue _ h
    split at hx
    next hcond =>
      rw [resolveConditional] at hx
      split at hx
      next => cases hx
      next parentName hdep =>
        split at hx
        next hnone =>
          cases hx
          exact ⟨hcond, hdep, hnone⟩
        next parentValue _ =>
          split at hx
          next => cases hx
          next => exact absurd hx (hdraw _)
    next => exact absurd hx (hdraw _)

/-- A turn gives its variable a value, and takes none away. -/
theorem turn_ok {num : Numerics K} {str : Scalar K → String} {varIndex : Dict String Nat}
    {row : Nat → K} {values values' : Dict String (Sampled K)} {v : VarDef K}
    (h : turn num str varIndex row values v = .ok values') (name : String) :
    values'.get? name = none ↔ name ≠ v.name ∧ values.get? name = none := by
  rw [turn] at h
  split at h
  next => cases h
  next j _ =>
    have hvalue : ∀ drawn : Except LoopError (Sampled K), values.set v.name <$> drawn = .ok values' →
        ∃ x, values.set v.name x = values' := by
      intro drawn hdrawn
      cases drawn with
      | error e => cases hdrawn
      | ok x => exact ⟨x, Except.ok.inj hdrawn⟩
    obtain ⟨x, rfl⟩ := hvalue _ h
    rw [Dict.get?_set]
    by_cases hname : v.name = name
    · rw [if_pos hname]
      exact iff_of_false (by rintro ⟨⟩) fun hne => hne.1 hname.symm
    · rw [if_neg hname]
      exact ⟨fun hnone => ⟨Ne.symm hname, hnone⟩, And.right⟩

/-- The loop on a sorted list never misses a parent's value: all variables before have one. -/
theorem loop_resolved {num : Numerics K} {str : Scalar K → String} {varIndex : Dict String Nat}
    {row : Nat → K} {allNames : List String} {done rest : List (VarDef K)}
    {values : Dict String (Sampled K)} (hfirst : ParentsFirst (done ++ rest))
    (hsound : ∀ v ∈ rest, Sound allNames v) (hdone : ∀ v ∈ done, values.get? v.name ≠ none)
    (p : String) : rest.foldlM (turn num str varIndex row) values ≠ .error (.unresolved p) := by
  induction rest generalizing done values with
  | nil => exact fun h => nomatch h
  | cons v rest ih =>
    intro h
    rw [List.foldlM_cons] at h
    cases hturn : turn num str varIndex row values v with
    | error e =>
      rw [hturn] at h
      obtain rfl : e = .unresolved p := Except.error.inj h
      obtain ⟨hcond, hdep, hnone⟩ := turn_unresolved hturn
      obtain ⟨p', hp', -⟩ := hsound v (List.mem_cons_self ..) hcond
      have hsame : p = p' := by
        rw [VarDef.parent?, hdep] at hp'
        exact (Option.filter_eq_some_iff.mp hp').1 |> Option.some.inj
      subst hsame
      have hplace : (done ++ v :: rest)[done.length]? = some v := by simp
      obtain ⟨j, w, hj, hw, hname⟩ := hfirst done.length v hplace hcond p hp'
      rw [List.getElem?_append_left hj] at hw
      exact hdone w (List.mem_of_getElem? hw) (hname ▸ hnone)
    | ok values' =>
      rw [hturn] at h
      have hfirst' : ParentsFirst (done ++ [v] ++ rest) := by
        rwa [List.append_assoc, List.singleton_append]
      refine ih hfirst' (fun w hw => hsound w (List.mem_cons_of_mem _ hw)) ?_ h
      intro w hw hnone
      obtain ⟨hne, hold⟩ := (turn_ok hturn w.name).mp hnone
      rcases List.mem_append.mp hw with hw | hw
      · exact hdone w hw hold
      · exact hne (congrArg VarDef.name (List.mem_singleton.mp hw))

theorem sampleAll_resolved {allNames : List String} {vars ordered : List (VarDef K)}
    (hfirst : ParentsFirst ordered) (hsound : ∀ v ∈ ordered, Sound allNames v)
    (num : Numerics K) (str : Scalar K → String) (lhsSamples : Nat → Nat → K) (nSamples : Nat)
    (p : String) : sampleAll num str lhsSamples vars ordered nSamples ≠ .error (.unresolved p) := by
  have hall : ∀ (f : Nat → Except LoopError (Dict String (Sampled K)))
      (hf : ∀ i, f i ≠ .error (.unresolved p)) (rows : List Nat),
      (rows.mapM fun i => do
        let values ← f i
        return (padded 4 (i + 1), values)) ≠ .error (.unresolved p) := by
    intro f hf rows
    induction rows with
    | nil => exact fun h => nomatch h
    | cons i rows ih =>
      intro h
      rw [List.mapM_cons] at h
      cases hi : f i with
      | error e =>
        rw [hi] at h
        exact hf i (hi.trans (congrArg _ (Except.error.inj h)))
      | ok values =>
        rw [hi] at h
        cases hrest : rows.mapM fun i => do
            let values ← f i
            return (padded 4 (i + 1), values) with
        | error e =>
          have hsame : e = .unresolved p := by
            simp only [hrest] at h
            exact Except.error.inj h
          exact ih (hsame ▸ hrest)
        | ok _ =>
          simp only [hrest] at h
          exact nomatch h
  have hfirst' : ParentsFirst ([] ++ ordered) := hfirst
  exact hall _ (fun i => loop_resolved hfirst' hsound (fun v hv => nomatch hv) p) _

/-! ## The result -/

theorem ordering_exact {allNames : List String} {vars : List (VarDef K)}
    (hall : allNames.Perm (varByName vars).keys) (hdistinct : (vars.map VarDef.name).Nodup) :
    ((∃ e, validateDependencyGraph allNames vars = some (.error e) ∧ e.IsValueError) ↔
      ∃ v ∈ vars, Faulty vars v) ∧
    ((∀ v ∈ vars, ¬ Faulty vars v) →
      ∃ ordered, validateDependencyGraph allNames vars = some (.ok ordered) ∧
        ordered.Perm vars ∧ ParentsFirst ordered ∧
        ∀ num str lhsSamples nSamples p,
          sampleAll num str lhsSamples vars ordered nSamples ≠ .error (.unresolved p)) := by
  have hperm := perm_names hall hdistinct
  -- a variable without fault passes the first loop and is not stuck
  have hfree : (∀ v ∈ vars, ¬ Faulty vars v) → (∀ v ∈ vars, Sound allNames v) ∧
      ∀ v ∈ vars, ¬ Kahn.Stuck (DependsOn vars) v.name := by
    intro h
    refine ⟨fun v hv => (sound_iff hperm).mpr fun hbad => ?_, fun v hv hstuck => ?_⟩
    · exact h v hv ⟨hbad.1, hbad.2.imp_right Or.inl⟩
    · obtain ⟨p, w, hw, hname, hcond, -⟩ := stuck_dependsOn hstuck
      rw [List.inj_on_of_nodup_map hdistinct hw hv hname] at hcond
      exact h v hv ⟨hcond, Or.inr (Or.inr hstuck)⟩
  have hok : (∀ v ∈ vars, ¬ Faulty vars v) →
      ∃ ordered, validateDependencyGraph allNames vars = some (.ok ordered) ∧
        ordered.Perm vars ∧ ParentsFirst ordered := fun h =>
    validate_free hall hdistinct (hfree h).1 (hfree h).2
  refine ⟨⟨fun hraises => ?_, fun hfaulty => ?_⟩, fun h => ?_⟩
  · by_contra hnone
    push Not at hnone
    obtain ⟨ordered, hvalid, -⟩ := hok hnone
    obtain ⟨e, he, -⟩ := hraises
    rw [hvalid] at he
    cases he
  · by_cases hsound : ∀ v ∈ vars, Sound allNames v
    · obtain ⟨v, hv, hcond, hparent⟩ := hfaulty
      refine validate_stuck hall hdistinct hsound ⟨v, hv, ?_⟩
      have hgood := (sound_iff hperm).mp (hsound v hv)
      rcases hparent with hmissing | hundefined | hstuck
      · exact absurd ⟨hcond, Or.inl hmissing⟩ hgood
      · exact absurd ⟨hcond, Or.inr hundefined⟩ hgood
      · exact hstuck
    · push Not at hsound
      exact validate_unsound hsound
  · obtain ⟨ordered, hvalid, hsame, hfirst⟩ := hok h
    refine ⟨ordered, hvalid, hsame, hfirst, fun num str lhsSamples nSamples p => ?_⟩
    exact sampleAll_resolved hfirst (fun v hv => (hfree h).1 v (hsame.mem_iff.mp hv)) num str
      lhsSamples nSamples p

/-- A child that is listed before its parent. -/
theorem ordering_child_first :
    let child : VarDef ℚ := ⟨"child", some .conditional, some "root", [], {}⟩
    let root : VarDef ℚ := ⟨"root", some .uniform, none, [], {}⟩
    ∃ ordered, validateDependencyGraph ["child", "root"] [child, root] = some (.ok ordered) ∧
      ordered.Perm [child, root] ∧ ParentsFirst ordered ∧
        ∀ num str lhsSamples nSamples p,
          sampleAll num str lhsSamples [child, root] ordered nSamples ≠ .error (.unresolved p) := by
  intro child root
  have hedge : ∀ p c, DependsOn [child, root] p c → p = "root" ∧ c = "child" := by
    intro p c h
    obtain ⟨v, hv, hname, hcond, hp⟩ := h
    simp only [List.mem_cons, List.not_mem_nil, or_false] at hv
    rcases hv with rfl | rfl
    · exact ⟨(Option.some.inj hp).symm, hname.symm⟩
    · cases hcond
  have hacyclic : ∀ c, ¬ Relation.TransGen (DependsOn [child, root]) c c := by
    intro c hcycle
    obtain ⟨_, hfirst, -⟩ := Relation.TransGen.head'_iff.mp hcycle
    obtain ⟨_, -, hlast⟩ := Relation.TransGen.tail'_iff.mp hcycle
    have hsame := (hedge _ _ hfirst).1.symm.trans (hedge _ _ hlast).2
    exact absurd hsame (by decide)
  have hdistinct : ([child, root].map VarDef.name).Nodup := by decide
  refine (ordering_exact (List.Perm.refl _) hdistinct).2 fun v hv hfaulty => ?_
  obtain ⟨hcond, hparent⟩ := hfaulty
  simp only [List.mem_cons, List.not_mem_nil, or_false] at hv
  rcases hv with rfl | rfl
  · rcases hparent with hnone | ⟨p, hp, hout⟩ | ⟨c, hcycle, -⟩
    · cases hnone
    · cases hp
      exact hout (by decide)
    · exact hacyclic c hcycle
  · cases hcond

end

end OSimFlow.Work.DependencyGraph
