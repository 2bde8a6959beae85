import Mathlib.Data.Finset.Card
import Mathlib.Tactic.Linarith
import OSimFlow.Breaker.CircuitBreaker
import OSimFlow.Lib.Run

/-!
# Reports that come late

A caller admitted by `allow` reports its outcome whenever it likes, or never.
`Traffic` is a breaker with its callers: who was admitted and has not reported
yet, which of them are probes, and when the circuit was opened.

What the breaker is for:

> `RejectsInCooldown`: between an opening at `t` and `t + cooldown_s`, `allow`
> admits nobody.
>
> `OneProbe`: in `half_open` at most one admitted probe is unresolved.

Neither survives a straggler, because a report does not say whose it is: a late
success closes an open circuit, and any late report releases the gate of a
probe that is still out. `timely_safe` is the converse, that these two are the
only ways: the invariant is `Timed`, one line for each state of the breaker.
`stray_unsafe` turns the first stray report of a run into a violation.
-/

namespace OSimFlow.Breaker

open OSimFlow.Lib

/-- The breaker and its callers. -/
structure Traffic where
  breaker : CircuitBreaker
  now : ℚ
  /-- The number of the next caller to be admitted. -/
  next : Nat
  unresolved : Finset Nat
  probes : Finset Nat
  openings : List ℚ

namespace Traffic

/-- What can happen. A report names its caller. -/
inductive Event where
  | advance (t : ℚ)
  | readState
  | allow
  | recordSuccess (caller : Nat)
  | recordFailure (caller : Nat)
deriving DecidableEq

def start : Traffic := ⟨.new, 0, 0, ∅, ∅, []⟩

variable (cfg : Config) (s : Traffic)

/-- The caller is admitted, as a probe if the circuit is half-open now. -/
def entered (b : CircuitBreaker) : Traffic :=
  { s with
    breaker := b
    next := s.next + 1
    unresolved := insert s.next s.unresolved
    probes := if b.state = .halfOpen then insert s.next s.probes else s.probes }

/-- The caller has reported. -/
def resolve (caller : Nat) (b : CircuitBreaker) : Traffic :=
  { s with
    breaker := b
    unresolved := s.unresolved.erase caller
    probes := s.probes.erase caller }

def step : Event → Traffic
  | .advance t => { s with now := max s.now t }
  | .readState => { s with breaker := s.breaker.effectiveState cfg s.now }
  | .allow =>
    match s.breaker.allow cfg s.now with
    | (true, b) => s.entered b
    | (false, b) => { s with breaker := b }
  | .recordSuccess caller =>
    if caller ∈ s.unresolved then s.resolve caller s.breaker.recordSuccess else s
  | .recordFailure caller =>
    if caller ∈ s.unresolved then
      { s.resolve caller (s.breaker.recordFailure cfg s.now) with
        openings := if s.breaker.Trips cfg then s.now :: s.openings else s.openings }
    else s

/-- `allow` refuses while an opening's cooldown lasts. -/
def RejectsInCooldown : Event → Prop
  | .allow => (∃ t ∈ s.openings, s.now < t + cfg.cooldownS) →
      (s.breaker.allow cfg s.now).1 = false
  | _ => True

/-- In half-open at most one probe is out. -/
def OneProbe : Prop :=
  (s.breaker.effectiveState cfg s.now).state = .halfOpen → s.probes.card ≤ 1

/-- The run is as the breaker promises. -/
def Safe (es : List Event) : Prop :=
  Along (step cfg) (RejectsInCooldown cfg) s es ∧ Always (step cfg) (OneProbe cfg) s es

/-- The report is not a straggler's: no success while the cooldown lasts, and,
while a probe is out, no report but the probe's. -/
def Timely : Event → Prop
  | .recordSuccess caller => caller ∈ s.unresolved →
      (s.breaker.state = .opened → s.breaker.CooledDown cfg s.now) ∧
        (s.probes ≠ ∅ → caller ∈ s.probes)
  | .recordFailure caller => caller ∈ s.unresolved → s.probes ≠ ∅ → caller ∈ s.probes
  | _ => True

instance : DecidablePred (Timely cfg s) := fun e =>
  match e with
  | .advance _ | .readState | .allow => inferInstanceAs (Decidable True)
  | .recordSuccess caller => inferInstanceAs (Decidable (caller ∈ s.unresolved →
      (s.breaker.state = .opened → s.breaker.CooledDown cfg s.now) ∧
        (s.probes ≠ ∅ → caller ∈ s.probes)))
  | .recordFailure caller => inferInstanceAs (Decidable
      (caller ∈ s.unresolved → s.probes ≠ ∅ → caller ∈ s.probes))

/-! ## The invariant -/

/-- Every opening's cooldown is over. -/
def Over : Prop :=
  ∀ t ∈ s.openings, t + cfg.cooldownS ≤ s.now

/-- The state of the breaker, and what it says of the openings and the probes. -/
inductive Phase : Prop where
  | closed (state : s.breaker.state = .closed) (elapsed : Over cfg s) (idle : s.probes = ∅)
  | opened (state : s.breaker.state = .opened)
      (last : s.breaker.openedAt ∈ s.openings ∧ ∀ t ∈ s.openings, t ≤ s.breaker.openedAt)
      (gate : s.breaker.halfOpenInFlight = false) (idle : s.probes = ∅)
  | halfOpen (state : s.breaker.state = .halfOpen) (elapsed : Over cfg s)
      (gate : s.breaker.halfOpenInFlight = false) (idle : s.probes = ∅)
  | probing (state : s.breaker.state = .halfOpen) (elapsed : Over cfg s)
      (gate : s.breaker.halfOpenInFlight = true) (p : Nat) (known : p < s.next)
      (out : s.probes = {p})

/-- The invariant of a run without stragglers. -/
structure Timed : Prop where
  phase : Phase cfg s
  fresh : ∀ caller ∈ s.unresolved, caller < s.next
  past : ∀ t ∈ s.openings, t ≤ s.now

variable {cfg s}

theorem start_timed : Timed cfg start where
  phase := .closed rfl (fun _ h => nomatch h) rfl
  fresh := fun _ h => absurd h (Finset.notMem_empty _)
  past := fun _ h => nomatch h

/-! ## One step at a time -/

/-- `allow`, as the traffic sees it. -/
theorem step_allow (cfg : Config) (s : Traffic) :
    (s.breaker.state = .closed ∧ (s.breaker.allow cfg s.now).1 = true ∧
      step cfg s .allow = s.entered s.breaker) ∨
    ((s.breaker.effectiveState cfg s.now).state = .halfOpen ∧
      s.breaker.halfOpenInFlight = false ∧ (s.breaker.allow cfg s.now).1 = true ∧
      step cfg s .allow =
        s.entered { s.breaker with state := .halfOpen, halfOpenInFlight := true }) ∨
    ((s.breaker.effectiveState cfg s.now).state ≠ .closed ∧
      (s.breaker.allow cfg s.now).1 = false ∧
      step cfg s .allow = { s with breaker := s.breaker.effectiveState cfg s.now }) := by
  unfold step
  rcases CircuitBreaker.allow_cases cfg s.now s.breaker with ⟨hs, ha⟩ | ⟨hs, hf, ha⟩ | ⟨hs, ha⟩
  · rw [ha]
    exact Or.inl ⟨hs, rfl, rfl⟩
  · rw [ha]
    exact Or.inr (Or.inl ⟨hs, hf, rfl, rfl⟩)
  · rw [ha]
    exact Or.inr (Or.inr ⟨hs, rfl, rfl⟩)

theorem step_recordSuccess (cfg : Config) {s : Traffic} {caller : Nat}
    (hc : caller ∈ s.unresolved) :
    step cfg s (.recordSuccess caller) = s.resolve caller s.breaker.recordSuccess :=
  if_pos hc

theorem step_recordFailure (cfg : Config) {s : Traffic} {caller : Nat}
    (hc : caller ∈ s.unresolved) :
    step cfg s (.recordFailure caller) =
      { s.resolve caller (s.breaker.recordFailure cfg s.now) with
        openings := if s.breaker.Trips cfg then s.now :: s.openings else s.openings } :=
  if_pos hc

theorem advance_timed (h : Timed cfg s) (t : ℚ) : Timed cfg (step cfg s (.advance t)) := by
  have hn : s.now ≤ max s.now t := le_max_left _ _
  refine ⟨?_, h.fresh, fun o ho => le_trans (h.past o ho) hn⟩
  cases h.phase with
  | closed state elapsed idle =>
    exact .closed state (fun o ho => le_trans (elapsed o ho) hn) idle
  | opened state last gate idle => exact .opened state last gate idle
  | halfOpen state elapsed gate idle =>
    exact .halfOpen state (fun o ho => le_trans (elapsed o ho) hn) gate idle
  | probing state elapsed gate p known out =>
    exact .probing state (fun o ho => le_trans (elapsed o ho) hn) gate p known out

/-- Noticing that the cooldown is over. -/
theorem effectiveState_timed (h : Timed cfg s) :
    Timed cfg { s with breaker := s.breaker.effectiveState cfg s.now } := by
  refine ⟨?_, h.fresh, h.past⟩
  by_cases ho : s.breaker.state = .opened
  · by_cases hc : s.breaker.CooledDown cfg s.now
    · rw [CircuitBreaker.effectiveState_of_cooled ho hc]
      cases h.phase with
      | opened state last gate idle =>
        refine .halfOpen rfl (fun t ht => ?_) gate idle
        have hle := last.2 t ht
        unfold CircuitBreaker.CooledDown at hc
        show t + cfg.cooldownS ≤ s.now
        linarith
      | closed state => rw [state] at ho; exact nomatch ho
      | halfOpen state => rw [state] at ho; exact nomatch ho
      | probing state => rw [state] at ho; exact nomatch ho
    · rw [CircuitBreaker.effectiveState_of_hot hc]
      exact h.phase
  · rw [CircuitBreaker.effectiveState_of_ne ho]
    exact h.phase

/-- Whoever is admitted, no cooldown lasts. -/
theorem Timed.over_of_admitted (h : Timed cfg s)
    (hs : (s.breaker.effectiveState cfg s.now).state ≠ .opened) : Over cfg s := by
  have he := (effectiveState_timed h).phase
  cases he with
  | closed _ elapsed _ => exact elapsed
  | opened state => exact absurd state hs
  | halfOpen _ elapsed _ _ => exact elapsed
  | probing _ elapsed => exact elapsed

theorem allow_rejects (h : Timed cfg s) : RejectsInCooldown cfg s .allow := by
  intro hopen
  obtain ⟨t, ht, hlt⟩ := hopen
  rcases step_allow cfg s with ⟨hs, -, -⟩ | ⟨hs, -, -, -⟩ | ⟨-, ha, -⟩
  · have hover := h.over_of_admitted (by
      rw [CircuitBreaker.effectiveState_of_ne (by rw [hs]; decide), hs]
      decide) t ht
    linarith
  · have hover := h.over_of_admitted (by rw [hs]; decide) t ht
    linarith
  · exact ha

theorem entered_fresh (h : Timed cfg s) (b : CircuitBreaker) :
    ∀ caller ∈ (s.entered b).unresolved, caller < (s.entered b).next := by
  intro caller hc
  show caller < s.next + 1
  rcases Finset.mem_insert.mp hc with he | hc
  · omega
  · have := h.fresh caller hc
    omega

theorem allow_timed (h : Timed cfg s) : Timed cfg (step cfg s .allow) := by
  rcases step_allow cfg s with ⟨hs, -, he⟩ | ⟨hs, hf, -, he⟩ | ⟨-, -, he⟩
  · -- closed: an ordinary call
    rw [he]
    refine ⟨?_, entered_fresh h _, h.past⟩
    have hprobes : (s.entered s.breaker).probes = s.probes := if_neg (by rw [hs]; decide)
    cases h.phase with
    | closed state elapsed idle => exact .closed state elapsed (hprobes.trans idle)
    | opened state => rw [state] at hs; exact nomatch hs
    | halfOpen state => rw [state] at hs; exact nomatch hs
    | probing state => rw [state] at hs; exact nomatch hs
  · -- the gate is free, so no probe is out: this one is the only one
    rw [he]
    refine ⟨?_, entered_fresh h _, h.past⟩
    have hidle : s.probes = ∅ := by
      cases h.phase with
      | closed _ _ idle => exact idle
      | opened _ _ _ idle => exact idle
      | halfOpen _ _ _ idle => exact idle
      | probing _ _ gate => rw [gate] at hf; exact nomatch hf
    refine .probing rfl (h.over_of_admitted (by rw [hs]; decide)) rfl s.next
      (Nat.lt_succ_self _) ?_
    show insert s.next s.probes = {s.next}
    rw [hidle]
    rfl
  · rw [he]
    exact effectiveState_timed h

theorem resolve_fresh (h : Timed cfg s) (caller : Nat) (b : CircuitBreaker) :
    ∀ c ∈ (s.resolve caller b).unresolved, c < (s.resolve caller b).next :=
  fun c hc => h.fresh c (Finset.mem_of_mem_erase hc)

/-- After a timely report no probe is out. -/
theorem probes_erase (h : Timed cfg s) {caller : Nat}
    (ht : s.probes ≠ ∅ → caller ∈ s.probes) : s.probes.erase caller = ∅ := by
  cases h.phase with
  | closed _ _ idle => rw [idle]; rfl
  | opened _ _ _ idle => rw [idle]; rfl
  | halfOpen _ _ _ idle => rw [idle]; rfl
  | probing _ _ _ p _ out =>
    have hmem : caller ∈ s.probes := ht (by
      rw [out]
      exact Finset.singleton_ne_empty p)
    rw [out, Finset.mem_singleton] at hmem
    rw [out, hmem, Finset.erase_singleton]

theorem recordSuccess_timed (h : Timed cfg s) {caller : Nat}
    (ht : Timely cfg s (.recordSuccess caller)) :
    Timed cfg (step cfg s (.recordSuccess caller)) := by
  by_cases hc : caller ∈ s.unresolved
  · rw [step_recordSuccess cfg hc]
    obtain ⟨hcool, hprobe⟩ := ht hc
    refine ⟨?_, resolve_fresh h caller _, h.past⟩
    refine .closed rfl (h.over_of_admitted ?_) (probes_erase h hprobe)
    -- an open circuit has cooled down, so it is half-open by now
    by_cases ho : s.breaker.state = .opened
    · rw [CircuitBreaker.effectiveState_of_cooled ho (hcool ho)]
      exact fun h => nomatch h
    · rw [CircuitBreaker.effectiveState_of_ne ho]
      exact ho
  · have he : step cfg s (.recordSuccess caller) = s := if_neg hc
    rw [he]
    exact h

theorem recordFailure_timed (h : Timed cfg s) {caller : Nat}
    (ht : Timely cfg s (.recordFailure caller)) :
    Timed cfg (step cfg s (.recordFailure caller)) := by
  by_cases hc : caller ∈ s.unresolved
  · rw [step_recordFailure cfg hc]
    have hidle := probes_erase h (ht hc)
    by_cases htrip : s.breaker.Trips cfg
    · -- the circuit opens now
      refine ⟨?_, resolve_fresh h caller (s.breaker.recordFailure cfg s.now), ?_⟩
      · refine .opened ?_ ?_ ?_ hidle
        · show (s.breaker.recordFailure cfg s.now).state = .opened
          rw [CircuitBreaker.recordFailure, if_pos htrip]
        · show (s.breaker.recordFailure cfg s.now).openedAt ∈ _ ∧ ∀ t ∈ _, t ≤
            (s.breaker.recordFailure cfg s.now).openedAt
          rw [CircuitBreaker.recordFailure, if_pos htrip, if_pos htrip]
          refine ⟨List.mem_cons_self, fun t hm => ?_⟩
          rcases List.mem_cons.mp hm with rfl | hm
          · exact le_refl _
          · exact h.past t hm
        · show (s.breaker.recordFailure cfg s.now).halfOpenInFlight = false
          rw [CircuitBreaker.recordFailure, if_pos htrip]
      · show ∀ t ∈ (if s.breaker.Trips cfg then s.now :: s.openings else s.openings), _
        rw [if_pos htrip]
        intro t hm
        rcases List.mem_cons.mp hm with rfl | hm
        · exact le_refl _
        · exact h.past t hm
    · -- one more failure, and the state stays
      have hopenings : (if s.breaker.Trips cfg then s.now :: s.openings else s.openings) =
          s.openings := if_neg htrip
      have hb : s.breaker.recordFailure cfg s.now =
          { s.breaker with
            consecutiveFailures := s.breaker.consecutiveFailures + 1
            halfOpenInFlight := false } := if_neg htrip
      rw [hopenings, hb]
      refine ⟨?_, resolve_fresh h caller _, h.past⟩
      cases h.phase with
      | closed state elapsed _ => exact .closed state elapsed hidle
      | opened state last _ _ => exact .opened state last rfl hidle
      | halfOpen state => exact absurd (Or.inr state) htrip
      | probing state => exact absurd (Or.inr state) htrip
  · have he : step cfg s (.recordFailure caller) = s := if_neg hc
    rw [he]
    exact h

/-- What a timely step keeps. -/
theorem step_timed (h : Timed cfg s) {e : Event} (ht : Timely cfg s e) :
    Timed cfg (step cfg s e) := by
  cases e with
  | advance t => exact advance_timed h t
  | readState => exact effectiveState_timed h
  | allow => exact allow_timed h
  | recordSuccess caller => exact recordSuccess_timed h ht
  | recordFailure caller => exact recordFailure_timed h ht

theorem step_rejects (h : Timed cfg s) (e : Event) : RejectsInCooldown cfg s e := by
  cases e with
  | allow => exact allow_rejects h
  | advance _ => trivial
  | readState => trivial
  | recordSuccess _ => trivial
  | recordFailure _ => trivial

theorem Timed.oneProbe (h : Timed cfg s) : OneProbe cfg s := by
  intro _
  cases h.phase with
  | closed _ _ idle => rw [idle]; decide
  | opened _ _ _ idle => rw [idle]; decide
  | halfOpen _ _ _ idle => rw [idle]; decide
  | probing _ _ _ p _ out => rw [out, Finset.card_singleton]

/-- A run without stragglers is safe. -/
theorem Timed.safe (h : Timed cfg s) {es : List Event}
    (ht : Along (step cfg) (Timely cfg) s es) : Safe cfg s es := by
  induction es generalizing s with
  | nil => exact ⟨trivial, h.oneProbe⟩
  | cons e es ih =>
    have hrest := ih (step_timed h ht.1) ht.2
    exact ⟨⟨step_rejects h e, hrest.1⟩, ⟨h.oneProbe, hrest.2⟩⟩

/-! ## Stray reports -/

theorem unsafe_cons {e : Event} {es : List Event} (h : ¬ Safe cfg (step cfg s e) es) :
    ¬ Safe cfg s (e :: es) :=
  fun hs => h ⟨hs.1.2, hs.2.2⟩

/-- A circuit that opened with a probe still out: after the cooldown there are two. -/
theorem unsafe_of_reopened (cfg : Config) (ho : s.breaker.state = .opened)
    (hnow : s.breaker.openedAt = s.now)
    (hgate : s.breaker.halfOpenInFlight = false) {p : Nat} (hp : p ∈ s.probes)
    (hk : p < s.next) : ∃ es, ¬ Safe cfg s es := by
  refine ⟨[.advance (s.now + cfg.cooldownS), .allow], unsafe_cons ?_⟩
  have hpos := cfg.cooldown_nonneg
  have hadv : step cfg s (.advance (s.now + cfg.cooldownS)) =
      { s with now := s.now + cfg.cooldownS } := by
    show { s with now := max s.now (s.now + cfg.cooldownS) } = _
    rw [max_eq_right (by linarith)]
  rw [hadv]
  intro hsafe
  have hcool : s.breaker.CooledDown cfg (s.now + cfg.cooldownS) := by
    unfold CircuitBreaker.CooledDown
    linarith
  have heff := CircuitBreaker.effectiveState_of_cooled ho hcool
  have hlast := hsafe.2.last
  rcases step_allow cfg { s with now := s.now + cfg.cooldownS } with
    ⟨hs, -, -⟩ | ⟨-, -, -, he⟩ | ⟨-, ha, -⟩
  · rw [show s.breaker.state = .opened from ho] at hs
    exact nomatch hs
  · have hrun : run (step cfg) { s with now := s.now + cfg.cooldownS } [.allow] = _ := he
    rw [hrun] at hlast
    have hone := hlast rfl
    have htwo : (insert s.next s.probes).card ≤ 1 := hone
    rw [Finset.card_le_one] at htwo
    have := htwo s.next (Finset.mem_insert_self _ _) p (Finset.mem_insert_of_mem hp)
    omega
  · unfold CircuitBreaker.allow at ha
    dsimp only at ha
    rw [heff] at ha
    dsimp only at ha
    rw [hgate] at ha
    exact nomatch ha

theorem step_allow_closed (cfg : Config) {s : Traffic} (hc : s.breaker.state = .closed) :
    step cfg s .allow = s.entered s.breaker := by
  rcases step_allow cfg s with ⟨-, -, he⟩ | ⟨hs, -, -, -⟩ | ⟨hs, -, -⟩
  · exact he
  · rw [CircuitBreaker.effectiveState_of_ne (by rw [hc]; decide), hc] at hs
    exact nomatch hs
  · rw [CircuitBreaker.effectiveState_of_ne (by rw [hc]; decide)] at hs
    exact absurd hc hs

/-- A call through a closed circuit that fails, with a probe still out. -/
theorem failing_call (cfg : Config) (hc : s.breaker.state = .closed) {p : Nat} (hp : p ∈ s.probes)
    (hk : p < s.next) : ∃ s', step cfg (step cfg s .allow) (.recordFailure s.next) = s' ∧
      s'.breaker = s.breaker.recordFailure cfg s.now ∧ s'.now = s.now ∧ p ∈ s'.probes ∧
      p < s'.next := by
  have hmem : s.next ∈ (s.entered s.breaker).unresolved := Finset.mem_insert_self _ _
  rw [step_allow_closed cfg hc, step_recordFailure cfg hmem]
  refine ⟨_, rfl, rfl, rfl, ?_, ?_⟩
  · show p ∈ (s.entered s.breaker).probes.erase s.next
    have hprobes : (s.entered s.breaker).probes = s.probes := if_neg (by rw [hc]; decide)
    rw [hprobes]
    exact Finset.mem_erase.mpr ⟨by omega, hp⟩
  · show p < s.next + 1
    omega

/-- A closed circuit with a probe still out: enough failures open it again. -/
theorem unsafe_of_closed (cfg : Config) {k : Nat} (hc : s.breaker.state = .closed)
    (hf : s.breaker.consecutiveFailures + (k + 1) = cfg.failureThreshold) {p : Nat}
    (hp : p ∈ s.probes) (hk : p < s.next) : ∃ es, ¬ Safe cfg s es := by
  induction k generalizing s with
  | zero =>
    obtain ⟨s', hs', hb, hnow, hp', hk'⟩ := failing_call cfg hc hp hk
    have htrip : s.breaker.Trips cfg := Or.inl (by omega)
    rw [CircuitBreaker.recordFailure, if_pos htrip] at hb
    obtain ⟨es, hes⟩ := unsafe_of_reopened cfg (s := s') (by rw [hb])
      (by rw [hb, hnow]) (by rw [hb]) hp' hk'
    refine ⟨.allow :: .recordFailure s.next :: es, unsafe_cons (unsafe_cons ?_)⟩
    rw [hs']
    exact hes
  | succ k ih =>
    obtain ⟨s', hs', hb, -, hp', hk'⟩ := failing_call cfg hc hp hk
    have hstay : ¬ s.breaker.Trips cfg := by
      unfold CircuitBreaker.Trips
      rw [hc]
      intro h
      rcases h with h | h
      · omega
      · exact nomatch h
    rw [CircuitBreaker.recordFailure, if_neg hstay] at hb
    obtain ⟨es, hes⟩ := ih (s := s') (by rw [hb]; exact hc)
      (by rw [hb]; show s.breaker.consecutiveFailures + 1 + (k + 1) = _; omega) hp' hk'
    refine ⟨.allow :: .recordFailure s.next :: es, unsafe_cons (unsafe_cons ?_)⟩
    rw [hs']
    exact hes

/-- A success reported in the cooldown closes the circuit: the next call is admitted. -/
theorem unsafe_of_early_success (h : Timed cfg s) {caller : Nat}
    (hc : caller ∈ s.unresolved) (ho : s.breaker.state = .opened)
    (hot : ¬ s.breaker.CooledDown cfg s.now) :
    ∃ es, ¬ Safe cfg s (.recordSuccess caller :: es) := by
  refine ⟨[.allow], unsafe_cons ?_⟩
  rw [step_recordSuccess cfg hc]
  intro hsafe
  have hlast : s.breaker.openedAt ∈ s.openings := by
    cases h.phase with
    | opened _ last => exact last.1
    | closed state => rw [state] at ho; exact nomatch ho
    | halfOpen state => rw [state] at ho; exact nomatch ho
    | probing state => rw [state] at ho; exact nomatch ho
  have hlt : s.now < s.breaker.openedAt + cfg.cooldownS := by
    unfold CircuitBreaker.CooledDown at hot
    linarith
  have hrefused : (s.breaker.recordSuccess.allow cfg s.now).1 = false :=
    hsafe.1.1 ⟨_, hlast, hlt⟩
  exact nomatch hrefused

/-- A report from another caller frees the gate while a probe is out. -/
theorem unsafe_of_other_report (h : Timed cfg s) {caller : Nat}
    (hc : caller ∈ s.unresolved) (hout : s.probes ≠ ∅) (hother : caller ∉ s.probes) :
    (∃ es, ¬ Safe cfg s (.recordSuccess caller :: es)) ∧
      ∃ es, ¬ Safe cfg s (.recordFailure caller :: es) := by
  have hpos := cfg.threshold_pos
  cases h.phase with
  | closed _ _ idle => exact absurd idle hout
  | opened _ _ _ idle => exact absurd idle hout
  | halfOpen _ _ _ idle => exact absurd idle hout
  | probing state _ _ p known out =>
    have hp : p ∈ s.probes.erase caller := by
      rw [Finset.erase_eq_of_notMem hother, out]
      exact Finset.mem_singleton_self p
    constructor
    · obtain ⟨es, hes⟩ := unsafe_of_closed cfg
        (s := s.resolve caller s.breaker.recordSuccess) (k := cfg.failureThreshold - 1) rfl
        (by show 0 + (cfg.failureThreshold - 1 + 1) = _; omega) hp known
      refine ⟨es, unsafe_cons ?_⟩
      rw [step_recordSuccess cfg hc]
      exact hes
    · have htrip : s.breaker.Trips cfg := Or.inr state
      obtain ⟨es, hes⟩ := unsafe_of_reopened cfg
        (s := step cfg s (.recordFailure caller)) (p := p)
        (by rw [step_recordFailure cfg hc]
            show (s.breaker.recordFailure cfg s.now).state = _
            rw [CircuitBreaker.recordFailure, if_pos htrip])
        (by rw [step_recordFailure cfg hc]
            show (s.breaker.recordFailure cfg s.now).openedAt = s.now
            rw [CircuitBreaker.recordFailure, if_pos htrip])
        (by rw [step_recordFailure cfg hc]
            show (s.breaker.recordFailure cfg s.now).halfOpenInFlight = _
            rw [CircuitBreaker.recordFailure, if_pos htrip])
        (by rw [step_recordFailure cfg hc]; exact hp)
        (by rw [step_recordFailure cfg hc]; exact known)
      exact ⟨es, unsafe_cons hes⟩

/-- A stray report breaks the promise: some continuation of the run shows it. -/
theorem stray_unsafe (h : Timed cfg s) {e : Event} (he : ¬ Timely cfg s e) :
    ∃ es, ¬ Safe cfg s (e :: es) := by
  cases e with
  | advance _ => exact absurd trivial he
  | readState => exact absurd trivial he
  | allow => exact absurd trivial he
  | recordSuccess caller =>
    unfold Timely at he
    rw [Classical.not_imp, not_and_or, Classical.not_imp, Classical.not_imp] at he
    rcases he with ⟨hc, ⟨ho, hot⟩ | ⟨hout, hother⟩⟩
    · exact unsafe_of_early_success h hc ho hot
    · exact (unsafe_of_other_report h hc hout hother).1
  | recordFailure caller =>
    unfold Timely at he
    rw [Classical.not_imp, Classical.not_imp] at he
    exact (unsafe_of_other_report h he.1 he.2.1 he.2.2).2

/-- For runs of the breaker from the start: without a stray report they are as
promised, and a first stray report can be continued to one that is not. -/
theorem timely_safe (cfg : Config) (es : List Event)
    (ht : Along (step cfg) (Timely cfg) start es) :
    Safe cfg start es ∧ ∀ e, ¬ Timely cfg (run (step cfg) start es) e →
      ∃ fs, ¬ Safe cfg start (es ++ e :: fs) := by
  have hrun : ∀ {s : Traffic}, Timed cfg s → ∀ {es : List Event},
      Along (step cfg) (Timely cfg) s es → ∀ e, ¬ Timely cfg (run (step cfg) s es) e →
        ∃ fs, ¬ Safe cfg s (es ++ e :: fs) := by
    intro s h es
    induction es generalizing s with
    | nil => exact fun _ e he => stray_unsafe h he
    | cons e' es ih =>
      intro ht e he
      obtain ⟨fs, hfs⟩ := ih (step_timed h ht.1) ht.2 e he
      exact ⟨fs, unsafe_cons hfs⟩
  exact ⟨start_timed.safe ht, hrun start_timed ht⟩

/-- `failure_threshold=1, cooldown_s=30`. -/
def oneStrike : Config := ⟨1, 30, by decide, by decide⟩

/-- An open circuit, its cooldown, and the probe that closes it. -/
def quietRun : List Event :=
  [.allow, .recordFailure 0, .allow, .advance 30, .allow, .allow, .recordSuccess 1, .allow]

theorem quietRun_safe : Safe oneStrike start quietRun :=
  (timely_safe oneStrike quietRun (by decide +kernel)).1

/-- Two calls through a closed circuit: one fails and opens it, the other succeeds
late and closes it, all at once. -/
theorem late_success_reopens_gate :
    ¬ ∀ (cfg : Config) (es : List Event), Safe cfg start es := by
  intro h
  have hsafe := (h oneStrike
    [.allow, .allow, .recordFailure 0, .recordSuccess 1, .allow]).1
  exact nomatch hsafe.2.2.2.2.1 ⟨0, by decide +kernel, by decide +kernel⟩

end Traffic

end OSimFlow.Breaker
