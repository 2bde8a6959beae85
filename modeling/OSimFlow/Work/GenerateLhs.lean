import Mathlib
import OSimFlow.Algorithms.Sampling
import OSimFlow.Lib.Instances

/-!
# The standalone sampler and the package's

`generate_lhs.py` and the package each map a unit coordinate through the distribution of a
variable, the package with "the same logic" as an inline copy. They part in three places: the
script divides the unit interval evenly among the entries of a list where the package rounds to
the nearest of evenly spaced points, and reads no `pmf`; it returns a categorical value as a
dictionary; and it takes `1 / rate` for the scale of an exponential distribution where the
package takes the rate.

> `samplers_agree_iff`: where the two values are equal.
>
> `offset`: how far apart the two entries of a list are, for a coordinate.
-/

namespace OSimFlow.Work.GenerateLhs

open OSimFlow.Algorithms.Sampling

/-! ## The script -/

/-- A variable of `variables.yml`, with what the script reads besides. -/
structure Definition (K : Type) extends Params K where
  mapping : List (String × Scalar K) := []

/-- What the script returns: a value, or `{"label": …, "index": …}` with a `"mapping"` if the
variable has one. -/
inductive Sampled (K : Type) where
  | plain (v : Scalar K)
  | structured (label : String) (index : Int) (mapping : Option (Scalar K))
deriving DecidableEq

section

variable {K : Type} [Field K] [LinearOrder K]

/-- `int(x)`. -/
def pyInt [FloorRing K] (x : K) : Int := if 0 ≤ x then ⌊x⌋ else ⌈x⌉

/-- `min(int(u * len(values)), len(values) - 1)`. -/
def entryIndex [FloorRing K] (u : K) (values : List (Scalar K)) : Int :=
  min (pyInt (u * values.length)) (values.length - 1)

/-- The list of a discrete or categorical variable. -/
def rawValues (d : Definition K) : Except SampleError (List (Scalar K)) :=
  match d.values with
  | none | some [] => .error .valueError
  | some values => .ok values

/-- The continuous branches of `_apply_distribution` in `generate_lhs.py`. -/
def continuous (num : Numerics K) (u : K) (dist : Distribution) (d : Definition K) :
    Except SampleError K :=
  match dist with
  | .uniform => do
    let min ← require d.min
    let max ← require d.max
    return min + u * (max - min)
  | .normal => do
    let mean ← require d.mean
    let sigma ← require d.sigma
    return num.normPpf u mean sigma
  | .lognormal => do
    let mean ← require d.mean
    let sigma ← require d.sigma
    return num.lognormPpf u sigma (num.exp mean)
  | .triangular => do
    let left ← require d.min
    let right ← require d.max
    ppfTriangular num u left right d.mode
  | .beta => do
    let a ← require d.alpha
    let b ← require d.beta
    return num.betaPpf u a b (d.loc.getD 0) (d.scale.getD 1)
  | .gamma => do
    let a ← require d.alpha
    return num.gammaPpf u a (d.loc.getD 0) (d.scale.getD 1)
  | .exponential => do
    let rate ← require d.rate
    if rate = 0 then .error .zeroDivisionError
    else return num.exponPpf u (1 / rate)
  | _ => .error .valueError

/-- `_apply_distribution` of `generate_lhs.py`; `str` is Python's. -/
def applyDistribution [FloorRing K] (num : Numerics K) (str : Scalar K → String) (u : K)
    (dist : Distribution) (d : Definition K) : Except SampleError (Sampled K) :=
  match dist with
  | .discrete =>
    match rawValues d with
    | .error e => .error e
    | .ok values => .plain <$> pyIndex values (entryIndex u values)
  | .static =>
    match d.value with
    | .null => .error .valueError
    | value => .ok (.plain value)
  | .categorical =>
    match rawValues d with
    | .error e => .error e
    | .ok values =>
      match pyIndex values (entryIndex u values) with
      | .error e => .error e
      | .ok value =>
        let label := str value
        let resolved := ((d.mapping.find? fun item => item.1 = label).map Prod.snd).getD .null
        .ok (.structured label (entryIndex u values)
          (if d.mapping = [] then none else some resolved))
  | dist => (fun x => .plain (.number x)) <$> continuous num u dist d

/-! ## Where they agree -/

/-- What `scipy.stats.expon.ppf` is known for: the quantiles are those of the unit scale times
the scale, only that of 0 is zero, and there are none for a scale that is not positive. -/
structure ExponentialLaw (num : Numerics K) : Prop where
  scaled : ∀ u s, 0 < s → num.exponPpf u s = s * num.exponPpf u 1
  zero_iff : ∀ u, 0 ≤ u → u < 1 → (num.exponPpf u 1 = 0 ↔ u = 0)
  undefined : ∀ u s t, s ≤ 0 → t ≤ 0 → num.exponPpf u s = num.exponPpf u t

attribute [local instance] Lib.atLeastTwo_two in
/-- How many places behind the entry of the script the entry of the package stands, in a list
of `n`: the coordinate divides into a place and a rest, and the rest is to be within one half
of the coordinate; at exactly one half the even place wins. -/
def offset [FloorRing K] (u : K) (n : Nat) : Int :=
  let place := ⌊u * n⌋
  let gap := Int.fract (u * n) - u
  if 1 / 2 < gap ∨ gap = 1 / 2 ∧ place % 2 ≠ 0 then 1
  else if gap < -(1 / 2) ∨ gap = -(1 / 2) ∧ place % 2 ≠ 0 then -1
  else 0

/-- The two samplers are bound to agree on the definition at `u`. -/
def Agrees [FloorRing K] (u : K) (dist : Distribution) (d : Definition K) : Prop :=
  match dist with
  | .categorical => False
  | .exponential => ∀ rate, d.rate = some rate → rate = 1 ∨ u = 0 ∨ rate < 0
  | .discrete => ∀ values, d.values = some values →
    match d.pmf with
    | none =>
      offset u values.length = 0 ∨
        values[(⌊u * values.length⌋ + offset u values.length).toNat]? =
          values[⌊u * values.length⌋.toNat]?
    | some pmf =>
      -- the entry of the `pmf` that the coordinate falls on
      (pmf.map Prod.fst)[min (bisectRight (cdf pmf) u) (pmf.length - 1)]? =
        values[⌊u * values.length⌋.toNat]?
  | _ => True

/-! ## The entries of a list -/

variable [IsStrictOrderedRing K] [FloorRing K]

theorem pyRound_add (k : Int) {d : K} (hlow : -1 < d) (hhigh : d < 1) :
    pyRound ((k : K) + d) =
      k + (if 1 / 2 < d ∨ d = 1 / 2 ∧ k % 2 ≠ 0 then 1
        else if d < -(1 / 2) ∨ d = -(1 / 2) ∧ k % 2 ≠ 0 then -1 else 0) := by
  unfold pyRound
  rcases le_or_gt 0 d with hpos | hneg
  · have hfloor : ⌊(k : K) + d⌋ = k := by
      rw [Int.floor_eq_iff]
      exact ⟨by linarith, by linarith⟩
    have hrest : (k : K) + d - (k : K) = d := by ring
    have hup : ¬ (d < -(1 / 2) ∨ d = -(1 / 2) ∧ k % 2 ≠ 0) := by
      rintro (h | ⟨h, _⟩) <;> linarith
    dsimp only
    rw [hfloor, hrest, if_neg hup]
    rcases lt_trichotomy d (1 / 2) with hlt | heq | hgt
    · rw [if_pos hlt, if_neg, add_zero]
      rintro (h | ⟨h, _⟩) <;> linarith
    · rw [if_neg (by rw [heq]; exact lt_irrefl _), if_neg (by rw [heq]; exact lt_irrefl _)]
      by_cases heven : k % 2 = 0
      · rw [if_pos heven, if_neg, add_zero]
        rintro (h | ⟨_, hodd⟩)
        · linarith
        · exact hodd heven
      · rw [if_neg heven, if_pos (.inr ⟨heq, heven⟩)]
    · rw [if_neg (not_lt.mpr (le_of_lt hgt)), if_pos hgt, if_pos (.inl hgt)]
  · have hfloor : ⌊(k : K) + d⌋ = k - 1 := by
      rw [Int.floor_eq_iff, Int.cast_sub, Int.cast_one]
      exact ⟨by linarith, by linarith⟩
    have hrest : (k : K) + d - ((k - 1 : Int) : K) = d + 1 := by
      rw [Int.cast_sub, Int.cast_one]
      ring
    have hdown : ¬ (1 / 2 < d ∨ d = 1 / 2 ∧ k % 2 ≠ 0) := by
      rintro (h | ⟨h, _⟩) <;> linarith
    dsimp only
    rw [hfloor, hrest, if_neg hdown]
    rcases lt_trichotomy d (-(1 / 2)) with hlt | heq | hgt
    · rw [if_pos (by linarith), if_pos (.inl hlt)]
      ring
    · have hhalf : d + 1 = 1 / 2 := by
        rw [heq]
        norm_num
      rw [hhalf, if_neg (lt_irrefl _), if_neg (lt_irrefl _)]
      by_cases heven : k % 2 = 0
      · rw [if_neg (by omega), if_neg]
        · ring
        · rintro (h | ⟨_, hodd⟩)
          · linarith
          · exact hodd heven
      · rw [if_pos (by omega), if_pos (.inr ⟨heq, heven⟩)]
        ring
    · rw [if_neg (by linarith), if_pos (by linarith), if_neg]
      · ring
      · rintro (h | ⟨h, _⟩) <;> linarith

/-- The package's entry, from the script's. -/
theorem pyRound_eq_offset {u : K} (h0 : 0 ≤ u) (h1 : u < 1) (n : Nat) :
    pyRound (u * ((n : K) - 1)) = ⌊u * (n : K)⌋ + offset u n := by
  have hsum : u * ((n : K) - 1) = (⌊u * (n : K)⌋ : K) + (Int.fract (u * (n : K)) - u) := by
    rw [Int.fract]
    ring
  have hlow := Int.fract_nonneg (u * (n : K))
  have hhigh := Int.fract_lt_one (u * (n : K))
  rw [hsum, pyRound_add _ (by linarith) (by linarith)]
  rfl

theorem entryIndex_eq {u : K} (h0 : 0 ≤ u) (h1 : u < 1) {values : List (Scalar K)}
    (hne : values ≠ []) : entryIndex u values = ⌊u * (values.length : K)⌋ := by
  have hlen : (0 : K) < (values.length : K) := Nat.cast_pos.mpr (List.length_pos_iff.mpr hne)
  unfold entryIndex pyInt
  rw [if_pos (mul_nonneg h0 (le_of_lt hlen))]
  refine min_eq_left (Int.le_sub_one_of_lt (Int.floor_lt.mpr ?_))
  rw [Int.cast_natCast]
  nlinarith

omit [Field K] [LinearOrder K] [IsStrictOrderedRing K] [FloorRing K] in
theorem getElem?_of_pyIndex {l : List (Scalar K)} {i : Int} (hi : 0 ≤ i) {x : Scalar K}
    (h : pyIndex l i = .ok x) : l[i.toNat]? = some x := by
  unfold pyIndex at h
  rw [if_neg (by omega)] at h
  cases hget : l[i.toNat]? with
  | none =>
    rw [hget] at h
    exact nomatch h
  | some y =>
    rw [hget] at h
    have hback : (if i + l.length < 0 then Except.error .indexError else .ok y) =
        (.ok x : Except SampleError (Scalar K)) := h
    rw [if_neg (by omega)] at hback
    exact congrArg some (Except.ok.inj hback)

theorem floor_mul_nonneg {u : K} (h0 : 0 ≤ u) (n : Nat) : 0 ≤ ⌊u * (n : K)⌋ :=
  Int.floor_nonneg.mpr (mul_nonneg h0 (Nat.cast_nonneg n))

omit [IsStrictOrderedRing K] in
theorem pyRound_nonneg {x : K} (h : 0 ≤ x) : 0 ≤ pyRound x := by
  have hfloor := Int.floor_nonneg.mpr h
  unfold pyRound
  dsimp only
  split_ifs <;> omega

/-- What the script picks from the list of a discrete variable. -/
theorem discrete_script {num : Numerics K} {str : Scalar K → String} {u : K} (h0 : 0 ≤ u)
    (h1 : u < 1) {d : Definition K} {y : Sampled K}
    (hs : applyDistribution num str u .discrete d = .ok y) :
    ∃ values v, d.values = some values ∧ values ≠ [] ∧ y = .plain v ∧
      values[⌊u * (values.length : K)⌋.toNat]? = some v := by
  have heq : applyDistribution num str u .discrete d =
    match rawValues d with
    | .error e => .error e
    | .ok values => .plain <$> pyIndex values (entryIndex u values) := rfl
  rw [heq] at hs
  unfold rawValues at hs
  cases hvalues : d.values with
  | none =>
    rw [hvalues] at hs
    exact nomatch hs
  | some values =>
    cases values with
    | nil =>
      rw [hvalues] at hs
      exact nomatch hs
    | cons a values =>
      rw [hvalues] at hs
      have hs' : Sampled.plain <$> pyIndex (a :: values) (entryIndex u (a :: values)) = .ok y := hs
      rw [entryIndex_eq h0 h1 (List.cons_ne_nil a values)] at hs'
      cases hpick : pyIndex (a :: values) ⌊u * ((a :: values).length : K)⌋ with
      | error e =>
        rw [hpick] at hs'
        exact nomatch hs'
      | ok v =>
        rw [hpick] at hs'
        exact ⟨a :: values, v, rfl, List.cons_ne_nil a values, (Except.ok.inj hs').symm,
          getElem?_of_pyIndex (floor_mul_nonneg h0 _) hpick⟩

/-- What the package picks from it. -/
theorem discrete_package {u : K} (h0 : 0 ≤ u) (h1 : u < 1) {params : Params K}
    {values : List (Scalar K)} (hvalues : params.values = some values) (hne : values ≠ [])
    {x : Scalar K} (hp : applyDiscrete u params = .ok x) :
    match params.pmf with
    | none => values[(⌊u * (values.length : K)⌋ + offset u values.length).toNat]? = some x
    | some pmf =>
      (pmf.map Prod.fst)[min (bisectRight (cdf pmf) u) (pmf.length - 1)]? = some x := by
  unfold applyDiscrete at hp
  rw [hvalues] at hp
  cases hpmf : params.pmf with
  | none =>
    rw [hpmf] at hp
    have hp' : pyIndex values (pyRound (u * ((values.length : K) - 1))) = .ok x := hp
    have hlen : (1 : K) ≤ (values.length : K) := by
      exact_mod_cast List.length_pos_iff.mpr hne
    have hround := pyRound_nonneg (mul_nonneg h0 (sub_nonneg.mpr hlen))
    have hget := getElem?_of_pyIndex hround hp'
    rw [pyRound_eq_offset h0 h1] at hget
    exact hget
  | some pmf =>
    rw [hpmf] at hp
    have hp' : pyIndex (pmf.map Prod.fst)
      (min (bisectRight (cdf pmf) u : Int) ((pmf.length : Int) - 1)) = .ok x := hp
    cases pmf with
    | nil => exact nomatch hp'
    | cons entry pmf =>
      have hindex : min (bisectRight (cdf (entry :: pmf)) u : Int)
          (((entry :: pmf).length : Int) - 1) =
          ((min (bisectRight (cdf (entry :: pmf)) u) ((entry :: pmf).length - 1) : Nat) : Int) := by
        rw [List.length_cons]
        omega
      rw [hindex] at hp'
      exact getElem?_of_pyIndex (Int.natCast_nonneg _) hp'

omit [IsStrictOrderedRing K] [FloorRing K] in
/-- The other continuous branches are the same. -/
theorem continuous_eq (num : Numerics K) (u : K) {dist : Distribution} (d : Definition K)
    (hdist : dist ∈ [.uniform, .normal, .lognormal, .triangular, .beta, .gamma]) :
    continuous num u dist d = ppf num u dist d.toParams := by
  simp only [List.mem_cons, List.not_mem_nil, or_false] at hdist
  rcases hdist with rfl | rfl | rfl | rfl | rfl | rfl
  · rfl
  · rfl
  · -- the two read the mean and the sigma in opposite order
    unfold continuous ppf
    cases d.mean <;> cases d.sigma <;> rfl
  · rfl
  · rfl
  · rfl

omit [IsStrictOrderedRing K] [FloorRing K] in
/-- A continuous distribution of both gives one number in both. -/
theorem agree_of_continuous_eq {num : Numerics K} {u : K} {dist : Distribution}
    {d : Definition K} {x : Scalar K} {y : Sampled K}
    (heq : continuous num u dist d = ppf num u dist d.toParams)
    (hp : Scalar.number <$> ppf num u dist d.toParams = .ok x)
    (hs : (fun x => Sampled.plain (.number x)) <$> continuous num u dist d = .ok y) :
    y = .plain x := by
  rw [heq] at hs
  cases hppf : ppf num u dist d.toParams with
  | error e =>
    rw [hppf] at hp
    exact nomatch hp
  | ok v =>
    rw [hppf] at hp hs
    have hx : Scalar.number v = x := Except.ok.inj hp
    have hy : Sampled.plain (.number v) = y := Except.ok.inj hs
    rw [← hx, ← hy]

omit [FloorRing K] in
/-- The scales of the package and of the script. -/
theorem exponential_agree_iff {num : Numerics K} (hnum : ExponentialLaw num) {u : K}
    (h0 : 0 ≤ u) (h1 : u < 1) {rate : K} (hrate : rate ≠ 0) :
    num.exponPpf u (1 / rate) = num.exponPpf u rate ↔ rate = 1 ∨ u = 0 ∨ rate < 0 := by
  rcases lt_or_gt_of_ne hrate with hneg | hpos
  · have hscale : 1 / rate ≤ 0 := le_of_lt (one_div_neg.mpr hneg)
    exact iff_of_true (hnum.undefined u _ _ hscale (le_of_lt hneg)) (.inr (.inr hneg))
  · rw [hnum.scaled u _ (one_div_pos.mpr hpos), hnum.scaled u rate hpos, mul_eq_mul_right_iff,
      hnum.zero_iff u h0 h1]
    have hsquare : 1 / rate = rate ↔ rate = 1 := by
      rw [div_eq_iff hrate]
      constructor
      · intro h
        nlinarith
      · intro h
        rw [h, one_mul]
    rw [hsquare]
    constructor
    · intro h
      rcases h with h | h
      · exact .inl h
      · exact .inr (.inl h)
    · intro h
      rcases h with h | h | h
      · exact .inl h
      · exact .inr h
      · exact absurd h (not_lt.mpr (le_of_lt hpos))

theorem samplers_agree_iff {num : Numerics K} (hnum : ExponentialLaw num)
    (str : Scalar K → String) {u : K} (h0 : 0 ≤ u) (h1 : u < 1) (dist : Distribution)
    (d : Definition K) {x : Scalar K} {y : Sampled K}
    (hp : Algorithms.Sampling.applyDistribution num u dist d.toParams = .ok x)
    (hs : applyDistribution num str u dist d = .ok y) :
    y = .plain x ↔ Agrees u dist d := by
  cases dist with
  | uniform =>
    exact iff_of_true (agree_of_continuous_eq (continuous_eq num u d (by decide)) hp hs) trivial
  | normal =>
    exact iff_of_true (agree_of_continuous_eq (continuous_eq num u d (by decide)) hp hs) trivial
  | lognormal =>
    exact iff_of_true (agree_of_continuous_eq (continuous_eq num u d (by decide)) hp hs) trivial
  | triangular =>
    exact iff_of_true (agree_of_continuous_eq (continuous_eq num u d (by decide)) hp hs) trivial
  | beta =>
    exact iff_of_true (agree_of_continuous_eq (continuous_eq num u d (by decide)) hp hs) trivial
  | gamma =>
    exact iff_of_true (agree_of_continuous_eq (continuous_eq num u d (by decide)) hp hs) trivial
  | exponential =>
    cases hrate : d.rate with
    | none =>
      have hnone : Algorithms.Sampling.applyDistribution num u .exponential d.toParams =
          .error .keyError := by
        show Scalar.number <$> (require d.rate >>= _) = _
        rw [hrate]
        rfl
      rw [hnone] at hp
      exact nomatch hp
    | some rate =>
      have hpackage : Algorithms.Sampling.applyDistribution num u .exponential d.toParams =
          .ok (.number (num.exponPpf u rate)) := by
        show Scalar.number <$> (require d.rate >>= _) = _
        rw [hrate]
        rfl
      have hscript : applyDistribution num str u .exponential d =
          (fun x => Sampled.plain (.number x)) <$>
            (if rate = 0 then Except.error SampleError.zeroDivisionError
              else .ok (num.exponPpf u (1 / rate))) := by
        show (fun x => Sampled.plain (.number x)) <$> (require d.rate >>= _) = _
        rw [hrate]
        rfl
      rw [hpackage] at hp
      rw [hscript] at hs
      have hne : rate ≠ 0 := by
        intro hzero
        rw [if_pos hzero] at hs
        exact nomatch hs
      rw [if_neg hne] at hs
      have hx : Scalar.number (num.exponPpf u rate) = x := Except.ok.inj hp
      have hy : Sampled.plain (.number (num.exponPpf u (1 / rate))) = y := Except.ok.inj hs
      rw [← hx, ← hy, Sampled.plain.injEq, Scalar.number.injEq,
        exponential_agree_iff hnum h0 h1 hne]
      constructor
      · intro h rate' hrate'
        rw [hrate] at hrate'
        exact Option.some.inj hrate' ▸ h
      · intro h
        exact h rate hrate
  | discrete =>
    obtain ⟨values, v, hvalues, hne, rfl, hv⟩ := discrete_script h0 h1 hs
    have hx := discrete_package h0 h1 hvalues hne hp
    rw [Sampled.plain.injEq]
    have hagree : Agrees u .discrete d ↔
        match d.pmf with
        | none =>
          offset u values.length = 0 ∨
            values[(⌊u * (values.length : K)⌋ + offset u values.length).toNat]? =
              values[⌊u * (values.length : K)⌋.toNat]?
        | some pmf =>
          (pmf.map Prod.fst)[min (bisectRight (cdf pmf) u) (pmf.length - 1)]? =
            values[⌊u * (values.length : K)⌋.toNat]? := by
      constructor
      · intro h
        exact h values hvalues
      · intro h values' hvalues'
        rw [hvalues] at hvalues'
        exact Option.some.inj hvalues' ▸ h
    rw [hagree]
    cases hpmf : d.pmf with
    | none =>
      rw [hpmf] at hx
      dsimp only at hx ⊢
      rw [hx, hv, Option.some.injEq]
      constructor
      · intro h
        exact .inr h.symm
      · intro h
        rcases h with hzero | h
        · rw [hzero, add_zero, hv] at hx
          exact Option.some.inj hx
        · exact h.symm
    | some pmf =>
      rw [hpmf] at hx
      dsimp only at hx ⊢
      rw [hx, hv, Option.some.injEq]
      exact eq_comm
  | categorical =>
    -- a dictionary is not a value of a list
    refine iff_of_false ?_ id
    intro h
    rw [h] at hs
    have heq : applyDistribution num str u .categorical d =
      match rawValues d with
      | .error e => .error e
      | .ok values =>
        match pyIndex values (entryIndex u values) with
        | .error e => .error e
        | .ok value => .ok (.structured (str value) (entryIndex u values)
          (if d.mapping = [] then none
            else some (((d.mapping.find? fun item => item.1 = str value).map Prod.snd).getD
              .null))) := rfl
    rw [heq] at hs
    split at hs
    · exact nomatch hs
    · split at hs
      · exact nomatch hs
      · exact nomatch hs
  | static =>
    refine iff_of_true ?_ trivial
    have hpackage : (match d.value with
      | .null => .error .valueError
      | value => .ok value : Except SampleError (Scalar K)) = .ok x := hp
    have hscript : (match d.value with
      | .null => .error .valueError
      | value => .ok (.plain value) : Except SampleError (Sampled K)) = .ok y := hs
    cases hvalue : d.value with
    | null =>
      rw [hvalue] at hpackage
      exact nomatch hpackage
    | text t =>
      rw [hvalue] at hpackage hscript
      exact (Except.ok.inj hscript).symm.trans (congrArg Sampled.plain (Except.ok.inj hpackage))
    | number v =>
      rw [hvalue] at hpackage hscript
      exact (Except.ok.inj hscript).symm.trans (congrArg Sampled.plain (Except.ok.inj hpackage))
  | conditional => exact nomatch hp
  | other name => exact nomatch hp

end

/-! ## Two lists -/

/-- Quantile functions over the rationals, with the domain of those of SciPy. -/
def rationalNumerics : Numerics ℚ where
  exp := fun x => 1 + x
  normPpf := fun u loc scale => loc + scale * (u - 1 / 2)
  lognormPpf := fun u s scale => scale * (1 + s * (u - 1 / 2))
  triangPpf := fun u _ loc scale => loc + scale * u
  betaPpf := fun u _ _ loc scale => loc + scale * u
  gammaPpf := fun u _ loc scale => loc + scale * u
  exponPpf := fun u scale => if 0 < scale then scale * (u / (1 - u)) else 0
  floatOfText := fun _ => none
  safeEval := fun _ _ => false

theorem rationalNumerics_law : ExponentialLaw rationalNumerics where
  scaled := fun u s hs => by
    show (if 0 < s then s * (u / (1 - u)) else 0) = s * (if (0 : ℚ) < 1 then 1 * (u / (1 - u)) else 0)
    rw [if_pos hs, if_pos one_pos, one_mul]
  zero_iff := fun u _ h1 => by
    show (if (0 : ℚ) < 1 then 1 * (u / (1 - u)) else 0) = 0 ↔ u = 0
    have hne : 1 - u ≠ 0 := by
      intro h
      linarith
    rw [if_pos one_pos, one_mul, div_eq_zero_iff]
    exact or_iff_left hne
  undefined := fun u s t hs ht => by
    show (if 0 < s then _ else (0 : ℚ)) = if 0 < t then _ else 0
    rw [if_neg (not_lt.mpr hs), if_neg (not_lt.mpr ht)]

def noText : Scalar ℚ → String := fun _ => ""

/-- A variable with a list of values. -/
def listed (values : List (Scalar ℚ)) : Definition ℚ :=
  { values := some values }

/-- At a quarter both take the first of two entries. -/
theorem samplers_agree_quarter :
    (.plain (.text "low") : Sampled ℚ) = .plain (.text "low") ↔
      Agrees (1 / 4) .discrete (listed [.text "low", .text "high"]) :=
  samplers_agree_iff rationalNumerics_law noText (by norm_num) (by norm_num) .discrete _
    (by decide +kernel) (by decide +kernel)

/-- At three tenths the package takes the second of three entries, the script the first. -/
theorem three_entries_differ :
    Algorithms.Sampling.applyDistribution rationalNumerics (3 / 10) .discrete
        (listed [.number 1, .number 2, .number 3]).toParams = .ok (.number 2) ∧
      applyDistribution rationalNumerics noText (3 / 10) .discrete
        (listed [.number 1, .number 2, .number 3]) = .ok (.plain (.number 1)) ∧
      (.plain (.number 1) : Sampled ℚ) ≠ .plain (.number 2) := by
  decide +kernel

end OSimFlow.Work.GenerateLhs
