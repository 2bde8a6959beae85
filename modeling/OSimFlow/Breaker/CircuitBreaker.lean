import Mathlib.Algebra.Order.Ring.Rat

/-!
# The circuit breaker

`closed → open` after `failure_threshold` consecutive failures, `open →
half_open` once `cooldown_s` has passed (noticed only when somebody looks:
`effectiveState`), and from `half_open` one probe at a time decides: a success
closes, a failure opens again.

Every method runs under the breaker's lock, so each is one function of the
breaker and of what the clock reads. None of them knows which caller it is
called for.
-/

namespace OSimFlow.Breaker

/-- `"closed"`, `"open"`, `"half_open"`. -/
inductive State where
  | closed
  | opened
  | halfOpen
deriving DecidableEq, Repr

/-- The parameters, as `__init__` clamps them. -/
structure Config where
  failureThreshold : Nat
  cooldownS : ℚ
  threshold_pos : 1 ≤ failureThreshold
  cooldown_nonneg : 0 ≤ cooldownS

/-- `failure_threshold = max(int(..), 1)`, `cooldown_s = max(float(..), 0.0)`. -/
def Config.ofArgs (failureThreshold : Int) (cooldownS : ℚ) : Config where
  failureThreshold := (max failureThreshold 1).toNat
  cooldownS := max cooldownS 0
  threshold_pos := by omega
  cooldown_nonneg := le_max_right _ _

structure CircuitBreaker where
  consecutiveFailures : Nat
  state : State
  openedAt : ℚ
  halfOpenInFlight : Bool
deriving DecidableEq

namespace CircuitBreaker

variable (cfg : Config) (now : ℚ) (b : CircuitBreaker)

/-- A new breaker. -/
def new : CircuitBreaker := ⟨0, .closed, 0, false⟩

/-- `_effective_state`: the breaker after it, whose `state` is what it returns. -/
def effectiveState : CircuitBreaker :=
  if b.state = .opened ∧ cfg.cooldownS ≤ now - b.openedAt then
    { b with state := .halfOpen }
  else b

/-- `allow`. -/
def allow : Bool × CircuitBreaker :=
  let b := b.effectiveState cfg now
  match b.state with
  | .closed => (true, b)
  | .halfOpen =>
    -- only the first caller past the gate is admitted
    if b.halfOpenInFlight then (false, b) else (true, { b with halfOpenInFlight := true })
  | .opened => (false, b)

/-- `record_success`. -/
def recordSuccess : CircuitBreaker :=
  { b with consecutiveFailures := 0, state := .closed, halfOpenInFlight := false }

/-- The failure opens the circuit. -/
def Trips : Prop :=
  cfg.failureThreshold ≤ b.consecutiveFailures + 1 ∨ b.state = .halfOpen

instance : Decidable (b.Trips cfg) :=
  inferInstanceAs (Decidable (_ ∨ _))

/-- `record_failure`. -/
def recordFailure : CircuitBreaker :=
  if b.Trips cfg then
    { consecutiveFailures := if b.state = .halfOpen then 0 else b.consecutiveFailures + 1
      state := .opened
      openedAt := now
      halfOpenInFlight := false }
  else
    { b with
      consecutiveFailures := b.consecutiveFailures + 1
      halfOpenInFlight := false }

variable {cfg now b}

/-- The cooldown is over, whether or not anybody has looked. -/
def CooledDown (cfg : Config) (now : ℚ) (b : CircuitBreaker) : Prop :=
  cfg.cooldownS ≤ now - b.openedAt

instance : Decidable (b.CooledDown cfg now) :=
  inferInstanceAs (Decidable (_ ≤ _))

theorem effectiveState_of_cooled (h : b.state = .opened) (hc : b.CooledDown cfg now) :
    b.effectiveState cfg now = { b with state := .halfOpen } :=
  if_pos ⟨h, hc⟩

theorem effectiveState_of_hot (hc : ¬ b.CooledDown cfg now) :
    b.effectiveState cfg now = b :=
  if_neg fun h => hc h.2

theorem effectiveState_of_ne (h : b.state ≠ .opened) : b.effectiveState cfg now = b :=
  if_neg fun he => h he.1

/-- What `allow` can do: admit a call, admit the probe, or refuse. -/
theorem allow_cases (cfg : Config) (now : ℚ) (b : CircuitBreaker) :
    (b.state = .closed ∧ b.allow cfg now = (true, b)) ∨
    ((b.effectiveState cfg now).state = .halfOpen ∧ b.halfOpenInFlight = false ∧
      b.allow cfg now =
        (true, { b with state := .halfOpen, halfOpenInFlight := true })) ∨
    ((b.effectiveState cfg now).state ≠ .closed ∧
      b.allow cfg now = (false, b.effectiveState cfg now)) := by
  obtain ⟨failures, state, at_, inFlight⟩ := b
  cases state with
  | closed => exact Or.inl ⟨rfl, rfl⟩
  | halfOpen =>
    have he : effectiveState cfg now ⟨failures, .halfOpen, at_, inFlight⟩ =
        ⟨failures, .halfOpen, at_, inFlight⟩ := effectiveState_of_ne (fun h => nomatch h)
    unfold allow
    rw [he]
    cases inFlight with
    | true => exact Or.inr (Or.inr ⟨(fun h => nomatch h), rfl⟩)
    | false => exact Or.inr (Or.inl ⟨rfl, rfl, rfl⟩)
  | opened =>
    unfold allow
    by_cases hc : CooledDown cfg now ⟨failures, .opened, at_, inFlight⟩
    · rw [effectiveState_of_cooled rfl hc]
      cases inFlight with
      | true => exact Or.inr (Or.inr ⟨(fun h => nomatch h), rfl⟩)
      | false => exact Or.inr (Or.inl ⟨rfl, rfl, rfl⟩)
    · rw [effectiveState_of_hot hc]
      exact Or.inr (Or.inr ⟨(fun h => nomatch h), rfl⟩)

end CircuitBreaker

end OSimFlow.Breaker
