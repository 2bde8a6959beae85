import Mathlib.Data.Fintype.Basic
import Mathlib.Data.Rat.Floor
import Mathlib.Logic.Relation
import Mathlib.Order.RelClasses
import OSimFlow.Algorithms.Sampling
import OSimFlow.Lib.Collect
import OSimFlow.Lib.Rotation

/-!
# Which conditional variables are resolved

`_resolve_conditional` takes the variables round and round: one whose parent
has no value yet goes back to the end of the queue, for at most two turns a
variable. A rule has no condition of its own; `depends_on.match` is that of all
of them, so that the first rule is the one to be used, or none. The values a
sample determines are then those of `Determined`.

There are two ways to miss them.

* If the condition does not hold, the value is drawn all the same, from the
  distribution that a rule had when a condition last held, and if none ever did
  the function raises `UnboundLocalError`.
* A variable gets its value in the first round that begins its parent's, or
  the next: the round is one more than the number of its ancestors that are
  declared behind their children (`Rounds`). The turns of all variables before
  that one may use up the budget.

> `conditional_resolved_iff`: exactly the determined values are assigned if and only if, for
> every variable whose parent has a value, its condition holds if its turn comes
> in time (`Timely`), and not otherwise.

The turn of a variable with less than two such ancestors is always in time
(`timely_of_round_le_two`).
-/

namespace OSimFlow.Algorithms.Conditional

open OSimFlow.Lib (Dict)
open OSimFlow.Lib.Rotation
open OSimFlow.Algorithms.Sampling

variable {K : Type}

/-! ## The values a sample determines -/

section

variable [Field K] [LinearOrder K] [FloorRing K]

/-- The values of a sample and of the variables that depend on them: each conditional variable
has the value of the first of its rules if their condition holds. -/
inductive Determined (num : Numerics K) (vars : List (VarDef K)) (s : Sample K) :
    String → Scalar K → Prop where
  | given {name : String} {x : Scalar K} (h : s.values.get? name = some x) :
      Determined num vars s name x
  | drawn {v : VarDef K} {pv x : Scalar K} {rule : Rule K} {rules : List (Rule K)}
      (hv : v ∈ vars) (hparent : Determined num vars s v.parent pv) (hset : pv ≠ .null)
      (hrules : v.conditions = rule :: rules) (hmatch : num.safeEval v.condition pv = true)
      (hdraw : applyDistribution num (1 / 2) (rule.distribution.getD .uniform) rule.params =
        .ok x) : Determined num vars s v.name x

/-- Every sample ends up with the values it determines, and with no other. -/
def Resolved (num : Numerics K) (vars : List (VarDef K)) (samples : List (Sample K)) (n : Nat) :
    Prop :=
  ∃ final, resolveConditional num samples vars n = .ok final ∧
    List.Forall₂ (fun s s' => s'.sampleId = s.sampleId ∧
      ∀ name x, s'.values.get? name = some x ↔ Determined num vars s name x) samples final

/-- The variables have different names, and the samples do not hold them yet. -/
structure Definite (vars : List (VarDef K)) (samples : List (Sample K)) : Prop where
  distinct : (vars.map VarDef.name).Nodup
  fresh : ∀ s ∈ samples, ∀ v ∈ vars, s.values.get? v.name = none

/-- In this sample the parent of the `i`-th variable has a value, and there is a rule. -/
def Reached (num : Numerics K) (vars : List (VarDef K)) (s : Sample K) (i : Nat) : Prop :=
  ∃ v pv, vars[i]? = some v ∧ v.conditions ≠ [] ∧ Determined num vars s v.parent pv ∧ pv ≠ .null

open Classical in
/-- The number of the samples in which it is so. -/
noncomputable def reachedCount (num : Numerics K) (vars : List (VarDef K))
    (samples : List (Sample K)) (i : Nat) : Nat :=
  (samples.filter fun s => decide (Reached num vars s i)).length

end

/-- The `j`-th variable is the parent of the `i`-th. -/
def ParentOf (vars : List (VarDef K)) (j i : Nat) : Prop :=
  ∃ p v, vars[j]? = some p ∧ vars[i]? = some v ∧ v.parent = p.name

def Acyclic (vars : List (VarDef K)) : Prop := ∀ i, ¬ Relation.TransGen (ParentOf vars) i i

/-! ## The turns -/

/-- The round in which each variable can be resolved: that of its parent, if this is declared
before it, and else the next. -/
structure Rounds (vars : List (VarDef K)) (round : Nat → Nat) : Prop where
  root : ∀ i, (∀ j, ¬ ParentOf vars j i) → round i = 1
  earlier : ∀ i j, ParentOf vars j i → j < i → round i = round j
  later : ∀ i j, ParentOf vars j i → i ≤ j → round i = round j + 1

/-- A variable that is resolved in fewer than `n` samples stays in the queue for ever; another
leaves it when it is resolved. -/
def TakesPart (count round : Nat → Nat) (n i r : Nat) : Prop :=
  n ≤ count i → r ≤ if n = 0 then 1 else round i

/-- The turns that take place, of the turns of `k` variables in each round. -/
def Part (k : Nat) (count round : Nat → Nat) (n t : Nat) : Prop :=
  TakesPart count round n (t % k) (t / k + 1)

instance (k : Nat) (count round : Nat → Nat) (n : Nat) :
    DecidablePred (Part k count round n) :=
  fun t => inferInstanceAs (Decidable (n ≤ count (t % k) →
    t / k + 1 ≤ if n = 0 then 1 else round (t % k)))

/-- The turn at which a variable can be resolved. -/
def turnOf (k : Nat) (round : Nat → Nat) (i : Nat) : Nat := (round i - 1) * k + i

/-- This turn takes place, and fewer turns than the budget go before it. -/
def Timely (k : Nat) (count round : Nat → Nat) (n i : Nat) : Prop :=
  Part k count round n (turnOf k round i) ∧
    Nat.count (Part k count round n) (turnOf k round i) < 2 * k

/-! ## Acyclic declarations -/

theorem ParentOf.lt {vars : List (VarDef K)} {j i : Nat} (h : ParentOf vars j i) :
    j < vars.length ∧ i < vars.length := by
  obtain ⟨p, v, hp, hv, -⟩ := h
  exact ⟨(List.getElem?_eq_some_iff.mp hp).1, (List.getElem?_eq_some_iff.mp hv).1⟩

/-- A list is finite: without a cycle every chain of parents ends. -/
theorem Acyclic.wellFounded {vars : List (VarDef K)} (h : Acyclic vars) :
    WellFounded (ParentOf vars) := by
  have hfin : WellFounded (fun j i : Fin vars.length => ParentOf vars j i) := by
    have hirrefl : Std.Irrefl (Relation.TransGen fun j i : Fin vars.length => ParentOf vars j i) :=
      ⟨fun i hi => h i (Relation.TransGen.lift (fun i : Fin vars.length => (i : Nat))
        (fun _ _ hab => hab) _ _ hi)⟩
    have hwf := Finite.wellFounded_of_trans_of_irrefl
      (Relation.TransGen fun j i : Fin vars.length => ParentOf vars j i)
    have hsub : Subrelation (fun j i : Fin vars.length => ParentOf vars j i)
        (Relation.TransGen fun j i : Fin vars.length => ParentOf vars j i) :=
      fun hab => Relation.TransGen.single hab
    exact hsub.wf hwf
  refine ⟨fun i => ?_⟩
  have hacc : ∀ i : Fin vars.length, Acc (ParentOf vars) i := by
    intro i
    induction i using hfin.induction with
    | _ i ih => exact ⟨_, fun j hj => ih ⟨j, hj.lt.1⟩ hj⟩
  exact ⟨_, fun j hj => hacc ⟨j, hj.lt.1⟩⟩

theorem parentOf_unique {vars : List (VarDef K)} (hdistinct : (vars.map VarDef.name).Nodup)
    {i j j' : Nat} (h : ParentOf vars j i) (h' : ParentOf vars j' i) : j = j' := by
  obtain ⟨p, v, hp, hv, hparent⟩ := h
  obtain ⟨p', v', hp', hv', hparent'⟩ := h'
  have hsame : v = v' := Option.some.inj (hv.symm.trans hv')
  have hlen : j < (vars.map VarDef.name).length := by
    rw [List.length_map]
    exact (List.getElem?_eq_some_iff.mp hp).1
  refine (List.getElem?_inj hlen hdistinct).mp ?_
  rw [List.getElem?_map, List.getElem?_map, hp, hp', Option.map_some, Option.map_some,
    ← hparent, ← hparent', hsame]

theorem name_unique {vars : List (VarDef K)} (hdistinct : (vars.map VarDef.name).Nodup) {i j : Nat} {v w : VarDef K}
    (hv : vars[i]? = some v) (hw : vars[j]? = some w) (hname : v.name = w.name) : i = j := by
  have hlen : i < (vars.map VarDef.name).length := by
    rw [List.length_map]
    exact (List.getElem?_eq_some_iff.mp hv).1
  refine (List.getElem?_inj hlen hdistinct).mp ?_
  rw [List.getElem?_map, List.getElem?_map, hv, hw, Option.map_some, Option.map_some, hname]

open Classical in
/-- Along the parents the rounds are well defined. -/
theorem exists_rounds {vars : List (VarDef K)} (h : Acyclic vars)
    (hdistinct : (vars.map VarDef.name).Nodup) : ∃ round, Rounds vars round := by
  let step : (i : Nat) → ((j : Nat) → ParentOf vars j i → Nat) → Nat := fun i above =>
    if hj : ∃ j, ParentOf vars j i then
      if hj.choose < i then above hj.choose hj.choose_spec
      else above hj.choose hj.choose_spec + 1
    else 1
  have hfix : ∀ i, h.wellFounded.fix step i = step i fun j _ => h.wellFounded.fix step j :=
    fun i => h.wellFounded.fix_eq step i
  have hparent : ∀ i j, ParentOf vars j i → h.wellFounded.fix step i =
      if j < i then h.wellFounded.fix step j else h.wellFounded.fix step j + 1 := by
    intro i j hj
    have hex : ∃ j, ParentOf vars j i := ⟨j, hj⟩
    have hchoose : hex.choose = j := parentOf_unique hdistinct hex.choose_spec hj
    rw [hfix]
    have hstep : step i (fun j _ => h.wellFounded.fix step j) =
        if hex.choose < i then h.wellFounded.fix step hex.choose
        else h.wellFounded.fix step hex.choose + 1 := dif_pos hex
    rw [hstep, hchoose]
  refine ⟨h.wellFounded.fix step, fun i hi => ?_, fun i j hj hlt => ?_, fun i j hj hle => ?_⟩
  · rw [hfix]
    exact dif_neg fun hex => hi _ hex.choose_spec
  · rw [hparent i j hj, if_pos hlt]
  · rw [hparent i j hj, if_neg (by omega)]

/-! ## Positions and rounds -/

theorem Rounds.pos {vars : List (VarDef K)} {round : Nat → Nat} (h : Rounds vars round)
    (hacyclic : Acyclic vars) (i : Nat) : 1 ≤ round i := by
  induction i using hacyclic.wellFounded.induction with
  | _ i ih =>
    by_cases hparent : ∃ j, ParentOf vars j i
    · obtain ⟨j, hj⟩ := hparent
      have := ih j hj
      rcases Nat.lt_or_ge j i with hlt | hge
      · rw [h.earlier i j hj hlt]
        exact this
      · rw [h.later i j hj hge]
        omega
    · rw [h.root i fun j hj => hparent ⟨j, hj⟩]

section

variable {k n : Nat} {count round : Nat → Nat}

theorem mod_turnOf {i : Nat} (hi : i < k) : turnOf k round i % k = i := by
  unfold turnOf
  rw [Nat.add_comm, Nat.add_mul_mod_self_right, Nat.mod_eq_of_lt hi]

theorem div_turnOf {i : Nat} (hi : i < k) (hpos : 1 ≤ round i) :
    turnOf k round i / k + 1 = round i := by
  unfold turnOf
  rw [Nat.add_comm _ i, Nat.add_mul_div_right _ _ (by omega), Nat.div_eq_of_lt hi]
  omega

/-- Positions are ordered by their rounds first. -/
theorem turnOf_le_iff {i t : Nat} (hi : i = t % k) (hk : 0 < k) (hpos : 1 ≤ round i) :
    turnOf k round i ≤ t ↔ round i ≤ t / k + 1 := by
  have hdiv := Nat.div_add_mod t k
  unfold turnOf
  rw [Nat.mul_comm] at hdiv
  constructor
  · intro h
    by_contra hlt
    have hmul : (t / k + 1) * k ≤ (round i - 1) * k := Nat.mul_le_mul_right k (by omega)
    have hmod := Nat.mod_lt t hk
    rw [Nat.succ_mul] at hmul
    omega
  · intro h
    have hmul : (round i - 1) * k ≤ t / k * k := Nat.mul_le_mul_right k (by omega)
    omega

/-- What has left does not come back. -/
theorem part_of_part_add {t : Nat} (hk : 0 < k) (h : Part k count round n (t + k)) :
    Part k count round n t := by
  intro hle
  have := h (by rw [Nat.add_mod_right]; exact hle)
  rw [Nat.add_mod_right, Nat.add_div_right _ hk] at this
  omega

theorem TakesPart.mono {i r r' : Nat} (h : TakesPart count round n i r) (hle : r' ≤ r) :
    TakesPart count round n i r' :=
  fun hn => Nat.le_trans hle (h hn)

/-- The turn of a resolution takes place if a later one of the variable does. -/
theorem part_turnOf {i t : Nat} (hi : i = t % k) (hk : 0 < k) (hpos : 1 ≤ round i)
    (h : Part k count round n t) (hle : round i ≤ t / k + 1) :
    Part k count round n (turnOf k round i) := by
  have hlt : i < k := by
    rw [hi]
    exact Nat.mod_lt t hk
  unfold Part at h ⊢
  rw [mod_turnOf hlt, div_turnOf hlt hpos, hi]
  rw [hi] at hle
  exact h.mono hle

/-- The variable goes back to the queue if its next turn takes place. -/
theorem part_next_iff {t : Nat} (hk : 0 < k) :
    Part k count round n (t + k) ↔
      (if round (t % k) ≤ t / k + 1 then count (t % k) else 0) < n := by
  unfold Part TakesPart
  rw [Nat.add_mod_right, Nat.add_div_right _ hk]
  generalize t / k = r
  generalize t % k = i
  rcases Nat.eq_zero_or_pos n with hn | hn
  · -- of no samples every variable has one turn
    rw [if_pos hn]
    refine iff_of_false (fun hnext => ?_) (by omega)
    have := hnext (by omega)
    omega
  · rw [if_neg (by omega)]
    by_cases hle : round i ≤ r + 1
    · rw [if_pos hle]
      constructor
      · intro hnext
        by_contra hge
        have := hnext (Nat.not_lt.mp hge)
        omega
      · intro hlt hge
        omega
    · rw [if_neg hle]
      exact iff_of_true (fun _ => by omega) hn

/-- The variable has had the turn at which it can be resolved. -/
def Settled (k : Nat) (count round : Nat → Nat) (n i t : Nat) : Prop :=
  turnOf k round i < t ∧ Part k count round n (turnOf k round i)

theorem not_settled_zero {i : Nat} : ¬ Settled k count round n i 0 :=
  fun h => absurd h.1 (Nat.not_lt_zero _)

/-- At each position one variable at most is settled. -/
theorem settled_succ_of_ne {i t : Nat} (hi : i < k) (hne : i ≠ t % k) :
    Settled k count round n i (t + 1) ↔ Settled k count round n i t := by
  refine and_congr_left fun _ => ?_
  have hturn : turnOf k round i ≠ t := by
    intro h
    apply hne
    rw [← h, mod_turnOf hi]
  omega

theorem settled_succ_self {i t : Nat} (hi : i = t % k) (hk : 0 < k) (hpos : 1 ≤ round i)
    (h : Part k count round n t) :
    Settled k count round n i (t + 1) ↔ round i ≤ t / k + 1 := by
  constructor
  · intro hs
    exact (turnOf_le_iff hi hk hpos).mp (Nat.le_of_lt_succ hs.1)
  · intro hle
    exact ⟨Nat.lt_succ_of_le ((turnOf_le_iff hi hk hpos).mpr hle), part_turnOf hi hk hpos h hle⟩

/-- The first two rounds are always within the budget. -/
theorem timely_of_round_le_two {i : Nat} (hi : i < k) (hn : 1 ≤ n) (hpos : 1 ≤ round i)
    (hle : round i ≤ 2) : Timely k count round n i := by
  have hpart : Part k count round n (turnOf k round i) := by
    intro _
    rw [mod_turnOf hi, div_turnOf hi hpos, if_neg (by omega)]
  refine ⟨hpart, ?_⟩
  have hturn : turnOf k round i < 2 * k := by
    unfold turnOf
    have hmul : (round i - 1) * k ≤ 1 * k := Nat.mul_le_mul_right k (by omega)
    omega
  exact Nat.lt_of_le_of_lt (Nat.count_le ..) hturn

end

/-! ## One turn -/

section

variable [Field K] [LinearOrder K] [FloorRing K] {num : Numerics K} {vars : List (VarDef K)}
  {samples : List (Sample K)}

/-- A sample determines one value of a name. -/
theorem Determined.unique (hdef : Definite vars samples) {s : Sample K} (hs : s ∈ samples)
    {name : String} {x y : Scalar K} (hx : Determined num vars s name x)
    (hy : Determined num vars s name y) : x = y := by
  have hmember : ∀ {v w : VarDef K}, v ∈ vars → w ∈ vars → v.name = w.name → v = w := by
    intro v w hv hw hname
    obtain ⟨i, hi⟩ := List.mem_iff_getElem?.mp hv
    obtain ⟨j, hj⟩ := List.mem_iff_getElem?.mp hw
    have hij := name_unique hdef.distinct hi hj hname
    rw [hij, hj] at hi
    exact (Option.some.inj hi).symm
  induction hx generalizing y with
  | @given name x h =>
    generalize hn : name = name' at hy
    cases hy with
    | given h' =>
      rw [hn] at h
      exact Option.some.inj (h.symm.trans h')
    | drawn hv _ _ _ _ _ =>
      rw [hn] at h
      exact nomatch h.symm.trans (hdef.fresh s hs _ hv)
  | @drawn v pv x rule rules hv _ _ hrules _ hdraw ih =>
    generalize hn : v.name = name' at hy
    cases hy with
    | given h' =>
      rw [← hn] at h'
      exact nomatch h'.symm.trans (hdef.fresh s hs _ hv)
    | drawn hv' hparent' _ hrules' _ hdraw' =>
      obtain rfl := hmember hv hv' hn
      obtain ⟨rfl, -⟩ := List.cons.inj (hrules.symm.trans hrules')
      exact Except.ok.inj (hdraw.symm.trans hdraw')

/-- How the value of a conditional variable is determined. -/
theorem Determined.of_variable (hdef : Definite vars samples) {s : Sample K} (hs : s ∈ samples)
    {v : VarDef K} (hv : v ∈ vars) {x : Scalar K} (h : Determined num vars s v.name x) :
    ∃ pv rule rules, Determined num vars s v.parent pv ∧ pv ≠ .null ∧
      v.conditions = rule :: rules ∧ num.safeEval v.condition pv = true ∧
      applyDistribution num (1 / 2) (rule.distribution.getD .uniform) rule.params = .ok x := by
  generalize hn : v.name = name at h
  cases h with
  | given h =>
    rw [← hn] at h
    exact nomatch h.symm.trans (hdef.fresh s hs _ hv)
  | @drawn w pv _ rule rules hw hparent hset hrules hmatch hdraw =>
    obtain ⟨i, hi⟩ := List.mem_iff_getElem?.mp hv
    obtain ⟨j, hj⟩ := List.mem_iff_getElem?.mp hw
    have hij := name_unique hdef.distinct hi hj hn
    rw [hij, hj] at hi
    obtain rfl := Option.some.inj hi
    exact ⟨pv, rule, rules, hparent, hset, hrules, hmatch, hdraw⟩

theorem Reached.of_determined (hdef : Definite vars samples) {s : Sample K} (hs : s ∈ samples)
    {i : Nat} {v : VarDef K} (hv : vars[i]? = some v) {x : Scalar K}
    (h : Determined num vars s v.name x) : Reached num vars s i := by
  obtain ⟨pv, rule, rules, hparent, hset, hrules, -, -⟩ :=
    h.of_variable hdef hs (List.mem_of_getElem? hv)
  refine ⟨v, pv, hv, ?_, hparent, hset⟩
  rw [hrules]
  exact List.cons_ne_nil _ _

/-- At position `t` a sample holds the determined values, but for the variables whose turn is
still to come. -/
def At (num : Numerics K) (vars : List (VarDef K)) (count round : Nat → Nat) (n t : Nat)
    (s s' : Sample K) : Prop :=
  s'.sampleId = s.sampleId ∧ ∀ name x, s'.values.get? name = some x ↔
    Determined num vars s name x ∧ ∀ i v, vars[i]? = some v → v.name = name →
      Settled vars.length count round n i t

variable {count round : Nat → Nat} {n : Nat}

/-- Before the parent's turn there is no value, after it the determined one. -/
theorem At.parent {t i : Nat} {s s' : Sample K} {v : VarDef K}
    (h : At num vars count round n t s s') (hround : Rounds vars round)
    (hpos : ∀ i, 1 ≤ round i) (hpart : Part vars.length count round n t)
    (hi : i = t % vars.length) (hk : 0 < vars.length) (hv : vars[i]? = some v) :
    (round i ≤ t / vars.length + 1 → ∀ pv, s'.values.get? v.parent = some pv ↔
      Determined num vars s v.parent pv) ∧
    (t / vars.length + 1 < round i → s'.values.get? v.parent = none) := by
  have hdiv := Nat.div_add_mod t vars.length
  obtain ⟨r, hr⟩ : ∃ r, t / vars.length = r := ⟨_, rfl⟩
  rw [Nat.mul_comm, ← hi, hr] at hdiv
  have hilt : i < vars.length := by
    rw [hi]
    exact Nat.mod_lt t hk
  rw [hr]
  constructor
  · intro hle pv
    rw [h.2 v.parent pv]
    refine and_iff_left fun j p hp hname => ?_
    have hparent : ParentOf vars j i := ⟨p, v, hp, hv, hname.symm⟩
    have hjlt := hparent.lt.1
    have hbefore : turnOf vars.length round j < t ∧ round j ≤ r + 1 := by
      unfold turnOf
      rcases Nat.lt_or_ge j i with hlt | hge
      · have hsame := hround.earlier i j hparent hlt
        have hmul : (round j - 1) * vars.length ≤ r * vars.length :=
          Nat.mul_le_mul_right _ (by omega)
        omega
      · have hsame := hround.later i j hparent hge
        have hmul : (round j - 1 + 1) * vars.length ≤ r * vars.length :=
          Nat.mul_le_mul_right _ (by have := hpos j; omega)
        rw [Nat.succ_mul] at hmul
        omega
    refine ⟨hbefore.1, ?_⟩
    unfold Part TakesPart
    rw [mod_turnOf hjlt, div_turnOf hjlt (hpos j)]
    intro _
    by_cases hn : n = 0
    · -- there is one round only
      have hone := hpart (by rw [hn]; exact Nat.zero_le _)
      rw [if_pos hn, hr] at hone
      rw [if_pos hn]
      omega
    · rw [if_neg hn]
  · intro hlt
    cases hget : s'.values.get? v.parent with
    | none => rfl
    | some pv =>
      exfalso
      have hsettled := ((h.2 v.parent pv).mp hget).2
      by_cases hparent : ∃ j, ParentOf vars j i
      · obtain ⟨j, hj⟩ := hparent
        obtain ⟨p, v', hp, hv', hname⟩ := hj
        obtain rfl := Option.some.inj (hv'.symm.trans hv)
        have hturn := (hsettled j p hp hname.symm).1
        unfold turnOf at hturn
        rcases Nat.lt_or_ge j i with hji | hge
        · have hsame := hround.earlier i j ⟨p, v', hp, hv, hname⟩ hji
          have hmul : (r + 1) * vars.length ≤ (round j - 1) * vars.length :=
            Nat.mul_le_mul_right _ (by omega)
          rw [Nat.succ_mul] at hmul
          omega
        · have hsame := hround.later i j ⟨p, v', hp, hv, hname⟩ hge
          have hmul : r * vars.length ≤ (round j - 1) * vars.length :=
            Nat.mul_le_mul_right _ (by omega)
          omega
      · have hroot := hround.root i fun j hj => hparent ⟨j, hj⟩
        omega

/-! ### The samples of a turn -/

theorem resolveSample_skip {v : VarDef K} {s : Sample K}
    (h : (s.values.get? v.parent).getD .null = .null ∨ v.conditions = []) (r : Resolving K) :
    resolveSample num v r s = .ok { r with samples := r.samples ++ [s] } := by
  unfold resolveSample
  rcases h with h | h
  · rw [h]
  · rw [h]
    cases (s.values.get? v.parent).getD .null <;> rfl

theorem resolveSample_draw {v : VarDef K} {s : Sample K} {pv x : Scalar K} {rule : Rule K}
    {rules : List (Rule K)} (hget : s.values.get? v.parent = some pv) (hset : pv ≠ .null)
    (hrules : v.conditions = rule :: rules) (hmatch : num.safeEval v.condition pv = true)
    (hdraw : applyDistribution num (1 / 2) (rule.distribution.getD .uniform) rule.params = .ok x)
    (r : Resolving K) :
    resolveSample num v r s = .ok ⟨some (rule.distribution.getD .uniform), r.resolved + 1,
      r.samples ++ [{ s with values := s.values.set v.name x }]⟩ := by
  unfold resolveSample
  rw [hget, hrules, Option.getD_some]
  cases pv with
  | null => exact absurd rfl hset
  | text t =>
    simp only
    rw [if_pos hmatch]
    simp only
    rw [hdraw]
  | number y =>
    simp only
    rw [if_pos hmatch]
    simp only
    rw [hdraw]

/-- Whether or not the condition holds, a sample whose parent has a value comes out with one, if
it comes out at all. -/
theorem resolveSample_ok {v : VarDef K} {s : Sample K} {r r' : Resolving K}
    (h : resolveSample num v r s = .ok r') :
    ∃ s', r'.samples = r.samples ++ [s'] ∧
      (∀ name, s.values.get? name ≠ none → s'.values.get? name ≠ none) ∧
      ∀ pv, s.values.get? v.parent = some pv → pv ≠ .null → v.conditions ≠ [] →
        s'.values.get? v.name ≠ none := by
  by_cases hskip : (s.values.get? v.parent).getD .null = .null ∨ v.conditions = []
  · rw [resolveSample_skip hskip] at h
    cases h
    refine ⟨s, rfl, fun _ hne => hne, fun pv hget hset hrules => ?_⟩
    rw [hget, Option.getD_some] at hskip
    exact absurd hskip (not_or.mpr ⟨hset, hrules⟩)
  · obtain ⟨hparent, hrules⟩ := not_or.mp hskip
    unfold resolveSample at h
    have hsets : ∃ x, r'.samples = r.samples ++ [{ s with values := s.values.set v.name x }] := by
      split at h
      next hnull => exact absurd hnull hparent
      next hnil _ => exact absurd hnil hrules
      next =>
        dsimp only at h
        split at h
        · exact nomatch h
        · split at h
          · exact nomatch h
          · cases h
            exact ⟨_, rfl⟩
    obtain ⟨x, hx⟩ := hsets
    refine ⟨_, hx, fun name hne => ?_, fun _ _ _ _ => ?_⟩
    · rw [Dict.get?_set]
      split
      · exact Option.some_ne_none _
      · exact hne
    · rw [Dict.get?_set_self]
      exact Option.some_ne_none _

/-- What a turn does to a sample, where the condition holds if it is asked. -/
theorem At.turn {t i : Nat} {s s' : Sample K} {v : VarDef K} (hdef : Definite vars samples)
    (hs : s ∈ samples) (h : At num vars count round n t s s') (hround : Rounds vars round)
    (hpos : ∀ i, 1 ≤ round i) (hpart : Part vars.length count round n t)
    (hi : i = t % vars.length) (hk : 0 < vars.length) (hv : vars[i]? = some v)
    (hgood : round i ≤ t / vars.length + 1 → Reached num vars s i →
      ∃ x, Determined num vars s v.name x) (r : Resolving K) :
    ∃ r' s'', resolveSample num v r s' = .ok r' ∧ r'.samples = r.samples ++ [s''] ∧
      (round i ≤ t / vars.length + 1 ∧ Reached num vars s i → r'.resolved = r.resolved + 1) ∧
      (¬ (round i ≤ t / vars.length + 1 ∧ Reached num vars s i) → r'.resolved = r.resolved) ∧
      At num vars count round n (t + 1) s s'' := by
  obtain ⟨hready, hearly⟩ := h.parent hround hpos hpart hi hk hv
  have hilt : i < vars.length := (List.getElem?_eq_some_iff.mp hv).1
  have hothers : ∀ name, name ≠ v.name →
      ((∀ j w, vars[j]? = some w → w.name = name →
        Settled vars.length count round n j (t + 1)) ↔
      ∀ j w, vars[j]? = some w → w.name = name → Settled vars.length count round n j t) := by
    intro name hne
    refine forall₄_congr fun j w hw hname => settled_succ_of_ne ?_ ?_
    · exact (List.getElem?_eq_some_iff.mp hw).1
    · intro hj
      rw [hj, ← hi, hv] at hw
      exact hne (by rw [← hname, Option.some.inj hw])
  have hself : (∀ j w, vars[j]? = some w → w.name = v.name →
      Settled vars.length count round n j (t + 1)) ↔ round i ≤ t / vars.length + 1 := by
    rw [← settled_succ_self hi hk (hpos i) hpart]
    constructor
    · exact fun hall => hall i v hv rfl
    · intro hsettled j w hw hname
      rw [name_unique hdef.distinct hw hv hname]
      exact hsettled
  by_cases hreach : round i ≤ t / vars.length + 1 ∧ Reached num vars s i
  · obtain ⟨x, hx⟩ := hgood hreach.1 hreach.2
    obtain ⟨pv, rule, rules, hparent, hset, hrules, hmatch, hdraw⟩ :=
      hx.of_variable hdef hs (List.mem_of_getElem? hv)
    refine ⟨_, _, resolveSample_draw ((hready hreach.1 pv).mpr hparent) hset hrules hmatch hdraw r,
      rfl, fun _ => rfl, fun hnot => absurd hreach hnot, h.1, fun name y => ?_⟩
    by_cases hname : name = v.name
    · rw [hname, Dict.get?_set_self, hself, and_iff_left hreach.1, Option.some.injEq]
      constructor
      · intro hxy
        rw [← hxy]
        exact hx
      · exact fun hy => hx.unique hdef hs hy
    · rw [Dict.get?_set_ne _ fun h => hname h.symm, h.2 name y, hothers name hname]
  · have hskip : (s'.values.get? v.parent).getD .null = .null ∨ v.conditions = [] := by
      by_contra hno
      obtain ⟨hparent, hrules⟩ := not_or.mp hno
      cases hget : s'.values.get? v.parent with
      | none =>
        rw [hget] at hparent
        exact hparent rfl
      | some pv =>
        rw [hget, Option.getD_some] at hparent
        have hle : round i ≤ t / vars.length + 1 := by
          by_contra hlt
          exact nomatch (hearly (by omega)).symm.trans hget
        exact hreach ⟨hle, v, pv, hv, hrules, (hready hle pv).mp hget, hparent⟩
    refine ⟨_, _, resolveSample_skip hskip r, rfl, fun hyes => absurd hyes hreach, fun _ => rfl,
      h.1, fun name y => ?_⟩
    rw [h.2 name y]
    by_cases hname : name = v.name
    · rw [hname, hself]
      have hnot : ¬ (Determined num vars s v.name y ∧ round i ≤ t / vars.length + 1) := by
        intro hy
        exact hreach ⟨hy.2, Reached.of_determined hdef hs hv hy.1⟩
      refine iff_of_false (fun hy => hnot ⟨hy.1, ?_⟩) hnot
      have hsettled := hy.2 i v hv rfl
      exact (turnOf_le_iff hi hk (hpos i)).mp (Nat.le_of_lt hsettled.1)
    · rw [hothers name hname]

open Classical in
/-- A whole turn. -/
theorem turn_ok {t i : Nat} {v : VarDef K} (hdef : Definite vars samples)
    (hround : Rounds vars round) (hpos : ∀ i, 1 ≤ round i)
    (hpart : Part vars.length count round n t) (hi : i = t % vars.length)
    (hk : 0 < vars.length) (hv : vars[i]? = some v)
    (hgood : round i ≤ t / vars.length + 1 → ∀ s ∈ samples, Reached num vars s i →
      ∃ x, Determined num vars s v.name x) :
    ∀ {some_ current : List (Sample K)}, (∀ s ∈ some_, s ∈ samples) →
      List.Forall₂ (At num vars count round n t) some_ current → ∀ r : Resolving K,
      ∃ r' after, current.foldlM (resolveSample num v) r = .ok r' ∧
        r'.samples = r.samples ++ after ∧
        r'.resolved = r.resolved + (some_.filter fun s =>
          decide (round i ≤ t / vars.length + 1 ∧ Reached num vars s i)).length ∧
        List.Forall₂ (At num vars count round n (t + 1)) some_ after := by
  intro some_ current hmem hat
  induction hat with
  | nil =>
    intro r
    exact ⟨r, [], rfl, (List.append_nil _).symm, rfl, List.Forall₂.nil⟩
  | @cons s s' some_ current hs _ ih =>
    intro r
    obtain ⟨r₁, s'', hone, hsamples, hyes, hno, hat⟩ :=
      hs.turn hdef (hmem s List.mem_cons_self) hround hpos hpart hi hk hv
        (fun hle => hgood hle s (hmem s List.mem_cons_self)) r
    obtain ⟨r', after, hrest, hafter, hcount, hall⟩ :=
      ih (fun s hs => hmem s (List.mem_cons_of_mem _ hs)) r₁
    refine ⟨r', s'' :: after, ?_, ?_, ?_, List.Forall₂.cons hat hall⟩
    · rw [List.foldlM_cons, hone]
      exact hrest
    · rw [hafter, hsamples, List.append_assoc]
      rfl
    · rw [hcount, List.filter_cons]
      by_cases hreach : round i ≤ t / vars.length + 1 ∧ Reached num vars s i
      · rw [hyes hreach, if_pos (decide_eq_true hreach), List.length_cons]
        omega
      · rw [hno hreach, if_neg (by simpa using hreach)]

/-- What is set stays set, and a turn sets what it reaches. -/
def Grown (v : VarDef K) (s s' : Sample K) : Prop :=
  (∀ name, s.values.get? name ≠ none → s'.values.get? name ≠ none) ∧
  ∀ pv, s.values.get? v.parent = some pv → pv ≠ .null → v.conditions ≠ [] →
    s'.values.get? v.name ≠ none

theorem turn_grown {v : VarDef K} : ∀ {current : List (Sample K)} {r r' : Resolving K},
    current.foldlM (resolveSample num v) r = .ok r' →
      ∃ after, r'.samples = r.samples ++ after ∧ List.Forall₂ (Grown v) current after := by
  intro current
  induction current with
  | nil =>
    intro r r' h
    cases h
    exact ⟨[], (List.append_nil _).symm, List.Forall₂.nil⟩
  | cons s current ih =>
    intro r r' h
    rw [List.foldlM_cons] at h
    cases hone : resolveSample num v r s with
    | error e =>
      rw [hone] at h
      exact nomatch h
    | ok r₁ =>
      rw [hone] at h
      obtain ⟨s', hsamples, hgrown⟩ := resolveSample_ok hone
      obtain ⟨after, hafter, hall⟩ := ih h
      refine ⟨s' :: after, ?_, List.Forall₂.cons hgrown hall⟩
      rw [hafter, hsamples, List.append_assoc]
      rfl

/-- Nothing is unset by the end. -/
theorem loop_grown {fuel : Nat} : ∀ {queue : List (VarDef K)} {ruleDist : Option Distribution}
    {current final : List (Sample K)},
    resolveLoop num n fuel queue ruleDist current = .ok final →
      List.Forall₂ (fun s s' => ∀ name, s.values.get? name ≠ none → s'.values.get? name ≠ none)
        current final := by
  induction fuel with
  | zero =>
    intro queue ruleDist current final h
    cases h
    exact List.forall₂_same.mpr fun _ _ _ hne => hne
  | succ fuel ih =>
    intro queue ruleDist current final h
    cases queue with
    | nil =>
      cases h
      exact List.forall₂_same.mpr fun _ _ _ hne => hne
    | cons v queue =>
      unfold resolveLoop at h
      cases hturn : current.foldlM (resolveSample num v) ⟨ruleDist, 0, []⟩ with
      | error e =>
        rw [hturn] at h
        cases h
      | ok r =>
        rw [hturn] at h
        obtain ⟨after, hafter, hgrown⟩ := turn_grown hturn
        have hrest := ih h
        rw [hafter, List.nil_append] at hrest
        refine (Lib.forall₂_comp_iff.mpr ⟨after, hgrown, hrest⟩).imp fun s s'' hboth name hne => ?_
        obtain ⟨s', hfirst, hthen⟩ := hboth
        exact hthen name (hfirst.1 name hne)

/-! ## The run -/

/-- The queue at a position. -/
def queueAt (vars : List (VarDef K)) (count round : Nat → Nat) (n t : Nat) : List (VarDef K) :=
  (waiting vars.length (Part vars.length count round n) t).filterMap
    fun i => vars[i % vars.length]?

/-- The loop comes to position `t`, with the samples and the queue that belong to it. -/
def Reach (num : Numerics K) (vars : List (VarDef K)) (samples : List (Sample K))
    (count round : Nat → Nat) (n t : Nat) : Prop :=
  ∃ ruleDist current, List.Forall₂ (At num vars count round n t) samples current ∧
    resolveConditional num samples vars n =
      resolveLoop num n (2 * vars.length - Nat.count (Part vars.length count round n) t)
        (queueAt vars count round n t) ruleDist current

omit [Field K] [LinearOrder K] [FloorRing K] in
theorem queueAt_zero (hpos : ∀ i, 1 ≤ round i) : queueAt vars count round n 0 = vars := by
  have hpart : ∀ i ∈ List.range' 0 vars.length, Part vars.length count round n i := by
    intro i hi _
    rw [List.mem_range'_1] at hi
    rw [Nat.div_eq_of_lt (by omega)]
    have := hpos (i % vars.length)
    split <;> omega
  have hmap : (List.range' 0 vars.length).map (fun i => vars[i % vars.length]?) =
      vars.map some := by
    apply List.ext_getElem?
    intro i
    rw [List.getElem?_map, List.getElem?_map]
    rcases Nat.lt_or_ge i vars.length with hlt | hge
    · rw [List.getElem?_range' hlt, Option.map_some, Nat.zero_add, Nat.one_mul,
        Nat.mod_eq_of_lt hlt, List.getElem?_eq_getElem hlt]
      rfl
    · rw [List.getElem?_eq_none hge, List.getElem?_eq_none (by rw [List.length_range']; exact hge)]
      rfl
  unfold queueAt waiting
  rw [List.filter_eq_self.mpr fun i hi => decide_eq_true (hpart i hi)]
  have hid : (List.range' 0 vars.length).filterMap (fun i => vars[i % vars.length]?) =
      ((List.range' 0 vars.length).map fun i => vars[i % vars.length]?).filterMap id := by
    rw [List.filterMap_map]
    rfl
  rw [hid, hmap, List.filterMap_map]
  exact List.filterMap_some

theorem reach_zero (hdef : Definite vars samples) (hpos : ∀ i, 1 ≤ round i) :
    Reach num vars samples count round n 0 := by
  refine ⟨none, samples, List.forall₂_same.mpr fun s hs => ⟨rfl, fun name x => ?_⟩, ?_⟩
  · constructor
    · intro h
      refine ⟨.given h, fun i v hv hname => ?_⟩
      rw [← hname, hdef.fresh s hs v (List.mem_of_getElem? hv)] at h
      exact nomatch h
    · intro ⟨h, hsettled⟩
      cases h with
      | given h => exact h
      | drawn hv =>
        obtain ⟨i, hi⟩ := List.mem_iff_getElem?.mp hv
        exact absurd (hsettled i _ hi rfl) not_settled_zero
  · rw [queueAt_zero hpos, Nat.count_zero]
    unfold resolveConditional
    rw [Nat.mul_comm]
    rfl

/-- Where no turn takes place the loop is already at the next position. -/
theorem Reach.succ_of_not_part {t : Nat} (h : Reach num vars samples count round n t)
    (hk : 0 < vars.length) (hpart : ¬ Part vars.length count round n t) :
    Reach num vars samples count round n (t + 1) := by
  obtain ⟨ruleDist, current, hat, hloop⟩ := h
  have hnext : ∀ s s', At num vars count round n t s s' →
      At num vars count round n (t + 1) s s' := by
    intro s s' hs
    refine ⟨hs.1, fun name x => ?_⟩
    rw [hs.2 name x]
    refine and_congr_right fun _ => forall₄_congr fun i v hv _ => ?_
    refine (and_congr_left fun hturn => ?_).symm
    have hne : turnOf vars.length round i ≠ t := by
      intro heq
      rw [heq] at hturn
      exact hpart hturn
    omega
  refine ⟨ruleDist, current, hat.imp hnext, ?_⟩
  rw [hloop, Nat.count_succ, if_neg hpart]
  unfold queueAt
  rw [waiting_of_not_part (fun t => part_of_part_add hk) hk hpart]
  rfl

omit [Field K] [LinearOrder K] [FloorRing K] in
/-- The variable whose turn it is, and the queue behind it. -/
theorem queueAt_of_part {t : Nat} (hk : 0 < vars.length) {v : VarDef K}
    (hv : vars[t % vars.length]? = some v) (hpart : Part vars.length count round n t) :
    ∃ rest, queueAt vars count round n t = v :: rest ∧
      queueAt vars count round n (t + 1) =
        if Part vars.length count round n (t + vars.length) then rest ++ [v] else rest := by
  refine ⟨(behind vars.length (Part vars.length count round n) t).filterMap
    fun i => vars[i % vars.length]?, ?_, ?_⟩
  · unfold queueAt
    rw [waiting_of_part hk hpart,
      List.filterMap_cons_some (f := fun i => vars[i % vars.length]?) hv]
  · unfold queueAt
    rw [waiting_succ hk, List.filterMap_append]
    split
    · have hagain : vars[(t + vars.length) % vars.length]? = some v := by
        rw [Nat.add_mod_right]
        exact hv
      rw [List.filterMap_cons_some (f := fun i => vars[i % vars.length]?) hagain,
        List.filterMap_nil]
    · rw [List.filterMap_nil, List.append_nil]

/-- What the turn at a position asks for is determined. -/
def Good (num : Numerics K) (vars : List (VarDef K)) (samples : List (Sample K))
    (round : Nat → Nat) (t : Nat) : Prop :=
  ∀ v, vars[t % vars.length]? = some v → round (t % vars.length) ≤ t / vars.length + 1 →
    ∀ s ∈ samples, Reached num vars s (t % vars.length) → ∃ x, Determined num vars s v.name x

open Classical in
theorem filter_reached (i r : Nat) (p : Nat → Prop) [DecidablePred p] :
    (samples.filter fun s => decide (p r ∧ Reached num vars s i)).length =
      if p r then reachedCount num vars samples i else 0 := by
  unfold reachedCount
  by_cases hp : p r
  · rw [if_pos hp]
    congr 1
    refine List.filter_congr fun s _ => ?_
    rw [Bool.eq_iff_iff, decide_eq_true_iff, decide_eq_true_iff]
    exact and_iff_right hp
  · rw [if_neg hp, List.length_eq_zero_iff, List.filter_eq_nil_iff]
    intro s _ hs
    exact hp (of_decide_eq_true hs).1

theorem resolveLoop_ok {fuel : Nat} {v : VarDef K} {queue : List (VarDef K)}
    {ruleDist : Option Distribution} {current : List (Sample K)} {r : Resolving K}
    (h : current.foldlM (resolveSample num v) ⟨ruleDist, 0, []⟩ = .ok r) :
    resolveLoop num n (fuel + 1) (v :: queue) ruleDist current =
      resolveLoop num n fuel (if r.resolved < n then queue ++ [v] else queue) r.ruleDist
        r.samples := by
  conv_lhs => unfold resolveLoop
  rw [h]

/-- A turn after which the loop goes on. -/
theorem Reach.succ_of_part {t : Nat}
    (h : Reach num vars samples (reachedCount num vars samples) round n t)
    (hdef : Definite vars samples) (hround : Rounds vars round) (hpos : ∀ i, 1 ≤ round i)
    (hk : 0 < vars.length)
    (hpart : Part vars.length (reachedCount num vars samples) round n t)
    (hbudget : Nat.count (Part vars.length (reachedCount num vars samples) round n) t <
      2 * vars.length)
    (hgood : Good num vars samples round t) :
    Reach num vars samples (reachedCount num vars samples) round n (t + 1) := by
  obtain ⟨ruleDist, current, hat, hloop⟩ := h
  obtain ⟨v, hv⟩ : ∃ v, vars[t % vars.length]? = some v :=
    ⟨_, List.getElem?_eq_getElem (Nat.mod_lt t hk)⟩
  obtain ⟨rest, hqueue, hnext⟩ := queueAt_of_part hk hv hpart
  obtain ⟨r', after, hturn, hafter, hresolved, hall⟩ :=
    turn_ok hdef hround hpos hpart rfl hk hv (hgood v hv) (fun s hs => hs) hat
      ⟨ruleDist, 0, []⟩
  obtain ⟨fuel, hfuel⟩ : ∃ fuel, 2 * vars.length -
      Nat.count (Part vars.length (reachedCount num vars samples) round n) t = fuel + 1 :=
    ⟨_, (Nat.succ_pred_eq_of_pos (by omega)).symm⟩
  refine ⟨r'.ruleDist, after, hall, ?_⟩
  have hfuel' : 2 * vars.length -
      Nat.count (Part vars.length (reachedCount num vars samples) round n) (t + 1) = fuel := by
    rw [Nat.count_succ, if_pos hpart]
    omega
  have hback : r'.resolved < n ↔
      Part vars.length (reachedCount num vars samples) round n (t + vars.length) := by
    rw [part_next_iff hk, hresolved, Nat.zero_add,
      filter_reached (t % vars.length) (t / vars.length + 1)
        (fun r => round (t % vars.length) ≤ r)]
  rw [hloop, hfuel', hfuel, hqueue, hnext, resolveLoop_ok hturn, hafter]
  simp only [hback]
  rfl

/-- If the result is right, so is every turn on the way. -/
theorem Reach.good {t : Nat} {final : List (Sample K)}
    (h : Reach num vars samples (reachedCount num vars samples) round n t)
    (hround : Rounds vars round) (hpos : ∀ i, 1 ≤ round i)
    (hk : 0 < vars.length)
    (hpart : Part vars.length (reachedCount num vars samples) round n t)
    (hbudget : Nat.count (Part vars.length (reachedCount num vars samples) round n) t <
      2 * vars.length)
    (hfinal : resolveConditional num samples vars n = .ok final)
    (hright : List.Forall₂ (fun s s' => s'.sampleId = s.sampleId ∧
      ∀ name x, s'.values.get? name = some x ↔ Determined num vars s name x) samples final) :
    Good num vars samples round t := by
  intro v hv hle s hs hreached
  obtain ⟨ruleDist, current, hat, hloop⟩ := h
  obtain ⟨rest, hqueue, -⟩ := queueAt_of_part hk hv hpart
  obtain ⟨fuel, hfuel⟩ : ∃ fuel, 2 * vars.length -
      Nat.count (Part vars.length (reachedCount num vars samples) round n) t = fuel + 1 :=
    ⟨_, (Nat.succ_pred_eq_of_pos (by omega)).symm⟩
  rw [hfinal, hfuel, hqueue] at hloop
  unfold resolveLoop at hloop
  cases hturn : current.foldlM (resolveSample num v) ⟨ruleDist, 0, []⟩ with
  | error e =>
    rw [hturn] at hloop
    cases hloop
  | ok r =>
    rw [hturn] at hloop
    obtain ⟨after, hafter, hgrown⟩ := turn_grown hturn
    have hrest := loop_grown hloop.symm
    rw [hafter, List.nil_append] at hrest
    -- the sample of the turn, after it, and at the end
    obtain ⟨j, hj⟩ := List.mem_iff_getElem?.mp hs
    have hlen : j < samples.length := (List.getElem?_eq_some_iff.mp hj).1
    have hlen₁ : j < current.length := by rw [← hat.length_eq]; exact hlen
    have hlen₂ : j < after.length := by rw [← hgrown.length_eq]; exact hlen₁
    have hlen₃ : j < final.length := by rw [← hright.length_eq]; exact hlen
    have hat' := hat.get hlen hlen₁
    have hgrown' := hgrown.get hlen₁ hlen₂
    have hrest' := hrest.get hlen₂ hlen₃
    have hright' := hright.get hlen hlen₃
    have hsj : samples.get ⟨j, hlen⟩ = s := (List.getElem?_eq_some_iff.mp hj).2
    rw [hsj] at hat' hright'
    obtain ⟨w, pv, hw, hrules, hparent, hset⟩ := hreached
    obtain rfl := Option.some.inj (hv.symm.trans hw)
    have hget := ((hat'.parent hround hpos hpart rfl hk hv).1 hle pv).mpr hparent
    have hsome := hrest' _ (hgrown'.2 pv hget hset hrules)
    obtain ⟨x, hx⟩ := Option.ne_none_iff_exists'.mp hsome
    exact ⟨x, (hright'.2 v.name x).mp hx⟩

/-- If no turn on the way asks for a value that is not determined, the loop comes to every
position that its budget allows. -/
theorem reach_of_good (hdef : Definite vars samples) (hround : Rounds vars round)
    (hpos : ∀ i, 1 ≤ round i) (hk : 0 < vars.length)
    (hgood : ∀ t, Reach num vars samples (reachedCount num vars samples) round n t →
      Part vars.length (reachedCount num vars samples) round n t →
      Nat.count (Part vars.length (reachedCount num vars samples) round n) t < 2 * vars.length →
      Good num vars samples round t) (t : Nat)
    (hle : Nat.count (Part vars.length (reachedCount num vars samples) round n) t ≤
      2 * vars.length) :
    Reach num vars samples (reachedCount num vars samples) round n t := by
  induction t with
  | zero => exact reach_zero hdef hpos
  | succ t ih =>
    rw [Nat.count_succ] at hle
    by_cases hpart : Part vars.length (reachedCount num vars samples) round n t
    · rw [if_pos hpart] at hle
      have ht := ih (by omega)
      exact ht.succ_of_part hdef hround hpos hk hpart (by omega) (hgood t ht hpart (by omega))
    · rw [if_neg hpart] at hle
      exact (ih hle).succ_of_not_part hk hpart

/-- The budget is used up, or nothing waits. -/
def Ended (k : Nat) (count round : Nat → Nat) (n t : Nat) : Prop :=
  Nat.count (Part k count round n) t ≤ 2 * k ∧
    (Nat.count (Part k count round n) t = 2 * k ∨ waiting k (Part k count round n) t = [])

/-- At the end the loop returns what it has. -/
theorem Reach.returns {t : Nat} (h : Reach num vars samples count round n t)
    (hend : Ended vars.length count round n t) :
    ∃ final, resolveConditional num samples vars n = .ok final ∧
      List.Forall₂ (At num vars count round n t) samples final := by
  obtain ⟨ruleDist, current, hat, hloop⟩ := h
  refine ⟨current, ?_, hat⟩
  rw [hloop]
  rcases hend.2 with hcount | hnil
  · rw [hcount, Nat.sub_self]
    rfl
  · have hqueue : queueAt vars count round n t = [] := by
      unfold queueAt
      rw [hnil]
      rfl
    rw [hqueue]
    cases 2 * vars.length - Nat.count (Part vars.length count round n) t <;> rfl

omit [Field K] [LinearOrder K] [FloorRing K] in
/-- At the end the variables are settled whose turn came in time. -/
theorem settled_iff_timely {t i : Nat} (hi : i < vars.length)
    (hend : Ended vars.length count round n t) :
    Settled vars.length count round n i t ↔ Timely vars.length count round n i := by
  have hk : 0 < vars.length := by omega
  constructor
  · intro ⟨hlt, hpart⟩
    exact ⟨hpart, Nat.lt_of_lt_of_le (Nat.count_strict_mono hpart hlt) hend.1⟩
  · intro ⟨hpart, hbudget⟩
    refine ⟨?_, hpart⟩
    by_contra hge
    rcases hend.2 with hcount | hnil
    · have := Nat.count_monotone (Part vars.length count round n) (Nat.not_lt.mp hge)
      omega
    · exact not_part_of_waiting_eq_nil (fun t => part_of_part_add hk) hk hnil
        (Nat.not_lt.mp hge) hpart

end

/-- The round of each variable of an acyclic declaration. -/
noncomputable def rounds {vars : List (VarDef K)} (h : Acyclic vars)
    (hdistinct : (vars.map VarDef.name).Nodup) : Nat → Nat :=
  (exists_rounds h hdistinct).choose

theorem rounds_spec {vars : List (VarDef K)} (h : Acyclic vars)
    (hdistinct : (vars.map VarDef.name).Nodup) : Rounds vars (rounds h hdistinct) :=
  (exists_rounds h hdistinct).choose_spec

/-! ## The values that are assigned -/

section

variable [Field K] [LinearOrder K] [FloorRing K]

/-- For any acyclic conditional variables in any order and for any samples, `_resolve_conditional`
assigns the determined values and no others if and only if, wherever the parent of a variable
has a value, the variable is due a value exactly if its turn comes in time. -/
theorem conditional_resolved_iff {num : Numerics K} {vars : List (VarDef K)} {samples : List (Sample K)}
    {n : Nat} (hdef : Definite vars samples) (hacyclic : Acyclic vars) :
    Resolved num vars samples n ↔
      ∀ i v, vars[i]? = some v → ∀ s ∈ samples, Reached num vars s i →
        (Timely vars.length (reachedCount num vars samples) (rounds hacyclic hdef.distinct) n i ↔
          ∃ x, Determined num vars s v.name x) := by
  have hround := rounds_spec hacyclic hdef.distinct
  have hpos := hround.pos hacyclic
  constructor
  · intro ⟨final, hfinal, hright⟩ i v hv s hs hreached
    have hi : i < vars.length := (List.getElem?_eq_some_iff.mp hv).1
    have hk : 0 < vars.length := by omega
    have hgood := fun t ht hpart hbudget =>
      Reach.good (n := n) (t := t) ht hround hpos hk hpart hbudget hfinal hright
    have hreach := reach_of_good hdef hround hpos hk hgood
    constructor
    · intro ⟨hpart, hbudget⟩
      refine hgood _ (hreach _ (Nat.le_of_lt hbudget)) hpart hbudget v ?_ ?_ s hs ?_
      · rw [mod_turnOf hi]
        exact hv
      · rw [mod_turnOf hi, div_turnOf hi (hpos i)]
      · rw [mod_turnOf hi]
        exact hreached
    · intro ⟨x, hx⟩
      obtain ⟨t, hend⟩ : ∃ t, Ended vars.length (reachedCount num vars samples)
        (rounds hacyclic hdef.distinct) n t := exists_end (2 * vars.length)
      obtain ⟨final', hfinal', hat⟩ := (hreach t hend.1).returns hend
      obtain rfl := Except.ok.inj (hfinal'.symm.trans hfinal)
      obtain ⟨j, hj⟩ := List.mem_iff_getElem?.mp hs
      have hlen := (List.getElem?_eq_some_iff.mp hj).1
      have hlen' : j < final'.length := by rw [← hat.length_eq]; exact hlen
      have hsj : samples.get ⟨j, hlen⟩ = s := (List.getElem?_eq_some_iff.mp hj).2
      have hat' := hat.get hlen hlen'
      have hright' := hright.get hlen hlen'
      rw [hsj] at hat' hright'
      have hget := (hright'.2 v.name x).mpr hx
      have hsettled := ((hat'.2 v.name x).mp hget).2 i v hv rfl
      exact (settled_iff_timely hi hend).mp hsettled
  · intro hcond
    have hgood : ∀ t, 0 < vars.length →
        Part vars.length (reachedCount num vars samples) (rounds hacyclic hdef.distinct) n t →
        Nat.count (Part vars.length (reachedCount num vars samples)
          (rounds hacyclic hdef.distinct) n) t < 2 * vars.length →
        Good num vars samples (rounds hacyclic hdef.distinct) t := by
      intro t hk hpart hbudget v hv hready s hs hreached
      refine (hcond _ v hv s hs hreached).mp ⟨part_turnOf rfl hk (hpos _) hpart hready, ?_⟩
      have hturn := (turnOf_le_iff rfl hk (hpos _)).mpr hready
      exact Nat.lt_of_le_of_lt (Nat.count_monotone _ hturn) hbudget
    obtain ⟨t, hreach, hend⟩ : ∃ t, Reach num vars samples (reachedCount num vars samples)
        (rounds hacyclic hdef.distinct) n t ∧ Ended vars.length (reachedCount num vars samples)
        (rounds hacyclic hdef.distinct) n t := by
      rcases Nat.eq_zero_or_pos vars.length with hzero | hk
      · refine ⟨0, reach_zero hdef hpos, Nat.zero_le _, .inl ?_⟩
        rw [Nat.count_zero, hzero]
      · obtain ⟨t, hend⟩ : ∃ t, Ended vars.length (reachedCount num vars samples)
          (rounds hacyclic hdef.distinct) n t := exists_end (2 * vars.length)
        exact ⟨t, reach_of_good hdef hround hpos hk (fun t _ => hgood t hk) t hend.1, hend⟩
    obtain ⟨final, hfinal, hat⟩ := hreach.returns hend
    refine ⟨final, hfinal, List.forall₂_iff_get.mpr ⟨hat.length_eq, fun j h h' => ?_⟩⟩
    have hat' := hat.get h h'
    refine ⟨hat'.1, fun name x => ?_⟩
    rw [hat'.2 name x]
    refine and_iff_left_of_imp fun hx i v hv hname => ?_
    have hs : samples.get ⟨j, h⟩ ∈ samples := List.getElem_mem h
    rw [← hname] at hx
    have hreached := Reached.of_determined hdef hs hv hx
    exact (settled_iff_timely (List.getElem?_eq_some_iff.mp hv).1 hend).mpr
      ((hcond i v hv _ hs hreached).mpr ⟨x, hx⟩)

end

/-! ## Runs -/

/-- Every `match` gives the same answer; no inverse distribution function is asked for. -/
def answering (answer : Bool) : Numerics ℚ where
  exp := id
  normPpf u _ _ := u
  lognormPpf u _ _ := u
  triangPpf u _ _ _ := u
  betaPpf u _ _ _ _ := u
  gammaPpf u _ _ _ := u
  exponPpf u _ := u
  floatOfText _ := none
  safeEval _ _ := answer

/-- A variable that depends on another, with one uniform rule. -/
def dependent (name parent : String) : VarDef ℚ where
  name := name
  distribution := some .conditional
  params := {}
  parent := parent
  condition := "val > 1"
  conditions := [⟨some .uniform, { min := some 0, max := some 1 }⟩]

/-- A sample that holds `x`. -/
def sampleX : Sample ℚ := ⟨"0001", (∅ : Dict String (Scalar ℚ)).set "x" (.number 2)⟩

theorem definite_single : Definite [dependent "y" "x"] [sampleX] where
  distinct := List.nodup_singleton _
  fresh := by
    intro s hs v hv
    rw [List.mem_singleton.mp hs, List.mem_singleton.mp hv]
    decide

theorem not_parentOf_single (j i : Nat) : ¬ ParentOf [dependent "y" "x"] j i := by
  intro ⟨p, v, hp, hv, hname⟩
  rw [List.mem_singleton.mp (List.mem_of_getElem? hp),
    List.mem_singleton.mp (List.mem_of_getElem? hv)] at hname
  exact absurd hname (by decide)

theorem acyclic_single : Acyclic [dependent "y" "x"] := by
  intro i h
  cases h with
  | single h => exact not_parentOf_single _ _ h
  | tail _ h => exact not_parentOf_single _ _ h

/-- A variable whose condition holds. -/
theorem resolved_single : Resolved (answering true) [dependent "y" "x"] [sampleX] 1 := by
  refine (conditional_resolved_iff definite_single acyclic_single).mpr fun i v hv s hs _ => ?_
  have hi : i < 1 := (List.getElem?_eq_some_iff.mp hv).1
  have hround := (rounds_spec acyclic_single definite_single.distinct).root i
    fun j => not_parentOf_single j i
  refine iff_of_true (timely_of_round_le_two hi le_rfl (by omega) (by omega)) ⟨.number (1 / 2), ?_⟩
  obtain rfl := List.mem_singleton.mp (List.mem_of_getElem? hv)
  obtain rfl := List.mem_singleton.mp hs
  have hparent : Determined (answering true) [dependent "y" "x"] sampleX "x" (.number 2) :=
    .given (by decide)
  refine .drawn List.mem_cons_self hparent (by decide) rfl rfl ?_
  decide +kernel

/-- A variable whose condition does not hold: the function raises. -/
theorem unmatched_raises : Definite [dependent "y" "x"] [sampleX] ∧
    Acyclic [dependent "y" "x"] ∧
    ¬ Resolved (answering false) [dependent "y" "x"] [sampleX] 1 := by
  refine ⟨definite_single, acyclic_single, fun ⟨final, hfinal, _⟩ => ?_⟩
  have herror : resolveConditional (answering false) [sampleX] [dependent "y" "x"] 1 =
      .error .unboundLocalError := rfl
  exact nomatch herror.symm.trans hfinal

end OSimFlow.Algorithms.Conditional
