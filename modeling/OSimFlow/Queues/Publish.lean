import Mathlib.Data.Finset.Card
import OSimFlow.Breaker.CircuitBreaker
import OSimFlow.Lib.Run

/-!
# Publishing through the breaker

`_publish` peeks at the breaker and dispatches `_pub`; `_pub` consumes the
admission (`check`) and sends. What it reports depends on the class of what is
raised: Python's own `ConnectionError` and `TimeoutError` are a failure, any
other `RedisError` or `OSError` is logged only, and the rest is not caught. The
Redis client's `ConnectionError` and `TimeoutError` are `RedisError`s.

`resolved_iff` says when every publish has reported: exactly when none ends in
one of the client's connection errors, and none that ends in another unreported
error is the last one out with the probe gate taken. Such a one jams the
breaker: it is half-open with a probe that nobody will resolve, and every later
publish is refused (`jammed_forever`).
-/

namespace OSimFlow.Queues

open OSimFlow.Lib
open OSimFlow.Breaker (CircuitBreaker Config)

/-- What `_get_redis`, `json.dumps` and `client.publish` raise, by class. -/
inductive PublishError where
  /-- The builtin `ConnectionError`, and its subclasses. -/
  | connection
  /-- The builtin `TimeoutError`. -/
  | timeout
  /-- `redis.exceptions.ConnectionError`. -/
  | redisConnection
  /-- `redis.exceptions.TimeoutError`. -/
  | redisTimeout
  | otherRedis
  | otherOs
  /-- No `RedisError` and no `OSError`: a payload that is not JSON, no client. -/
  | uncaught
deriving DecidableEq, Repr

namespace PublishError

/-- `except (ConnectionError, TimeoutError)`. -/
def isBuiltin : PublishError → Bool
  | connection | timeout => true
  | _ => false

/-- A connection or timeout error of the client. -/
def isConnectionLoss : PublishError → Bool
  | connection | timeout | redisConnection | redisTimeout => true
  | _ => false

end PublishError

/-- The breaker and the publishes on their way. -/
structure Publisher where
  breaker : CircuitBreaker
  now : ℚ
  /-- The number of the next publish. -/
  next : Nat
  /-- Dispatched, `_pub` not begun. -/
  dispatched : Finset Nat
  /-- Past `check`. -/
  executing : Finset Nat
  /-- Publishes that ended in a connection or timeout error of the client. -/
  connectionLosses : Nat
  /-- Calls of `record_failure`. -/
  recordedFailures : Nat

namespace Publisher

inductive Event where
  | advance (t : ℚ)
  | breakerState
  /-- `_publish`, as far as the dispatch. -/
  | publish
  /-- `_pub` begins: `check`. -/
  | check (job : Nat)
  | finish (job : Nat) (outcome : Option PublishError)
deriving DecidableEq

def start : Publisher := ⟨.new, 0, 0, ∅, ∅, 0, 0⟩

variable (cfg : Config) (s : Publisher)

/-- The handlers of `_pub`, one for each class. -/
def report : Option PublishError → Publisher
  | none => { s with breaker := s.breaker.recordSuccess }
  | some error =>
    if error.isBuiltin then
      { s with
        breaker := s.breaker.recordFailure cfg s.now
        connectionLosses := s.connectionLosses + 1
        recordedFailures := s.recordedFailures + 1 }
    else if error.isConnectionLoss then
      { s with connectionLosses := s.connectionLosses + 1 }
    else s

def step : Event → Publisher
  | .advance t => { s with now := max s.now t }
  | .breakerState => { s with breaker := s.breaker.effectiveState cfg s.now }
  | .publish =>
    let b := s.breaker.effectiveState cfg s.now
    if b.state = .opened then { s with breaker := b }
    else { s with
      breaker := b
      next := s.next + 1
      dispatched := insert s.next s.dispatched }
  | .check job =>
    if job ∈ s.dispatched then
      let (admitted, b) := s.breaker.allow cfg s.now
      { s with
        breaker := b
        dispatched := s.dispatched.erase job
        executing := if admitted then insert job s.executing else s.executing }
    else s
  | .finish job outcome =>
    if job ∈ s.executing then
      { report cfg s outcome with executing := s.executing.erase job }
    else s

/-- Nothing is lost: every connection loss is one recorded failure, and with
nobody executing the probe gate is free. -/
def Resolved : Prop :=
  s.recordedFailures = s.connectionLosses ∧
    (s.executing = ∅ → s.breaker.halfOpenInFlight = false)

instance : Decidable (Resolved s) :=
  inferInstanceAs (Decidable (_ ∧ (_ → _)))

/-- The publish reports, or it may leave without: its error is no connection
loss, and it is not the last one out with the gate taken. -/
def Accounted : Event → Prop
  | .finish job (some error) => job ∈ s.executing → error.isBuiltin = false →
      error.isConnectionLoss = false ∧
        (s.executing = {job} → s.breaker.halfOpenInFlight = false)
  | _ => True

instance : DecidablePred (Accounted s) := fun e =>
  match e with
  | .finish job (some error) => inferInstanceAs (Decidable (job ∈ s.executing →
      error.isBuiltin = false → error.isConnectionLoss = false ∧
        (s.executing = {job} → s.breaker.halfOpenInFlight = false)))
  | .finish _ none | .advance _ | .breakerState | .publish | .check _ =>
    inferInstanceAs (Decidable True)

variable {cfg s}

theorem effectiveState_gate (cfg : Config) (now : ℚ) (b : CircuitBreaker) :
    (b.effectiveState cfg now).halfOpenInFlight = b.halfOpenInFlight := by
  unfold CircuitBreaker.effectiveState
  split
  · rfl
  · rfl

theorem publish_resolved (h : Resolved s) : Resolved (step cfg s .publish) := by
  have hgate : s.executing = ∅ →
      (s.breaker.effectiveState cfg s.now).halfOpenInFlight = false := by
    rw [effectiveState_gate]
    exact h.2
  unfold step
  dsimp only
  split
  · exact ⟨h.1, hgate⟩
  · exact ⟨h.1, hgate⟩

theorem check_resolved (h : Resolved s) (job : Nat) :
    Resolved (step cfg s (.check job)) := by
  by_cases hj : job ∈ s.dispatched
  · have he : step cfg s (.check job) = { s with
        breaker := (s.breaker.allow cfg s.now).2
        dispatched := s.dispatched.erase job
        executing := if (s.breaker.allow cfg s.now).1 then insert job s.executing
          else s.executing } := if_pos hj
    rw [he]
    refine ⟨h.1, fun hnone => ?_⟩
    dsimp only at hnone ⊢
    rcases CircuitBreaker.allow_cases cfg s.now s.breaker with ⟨-, ha⟩ | ⟨-, -, ha⟩ | ⟨-, ha⟩
    · rw [ha, if_pos rfl] at hnone
      exact absurd hnone (Finset.insert_ne_empty _ _)
    · rw [ha, if_pos rfl] at hnone
      exact absurd hnone (Finset.insert_ne_empty _ _)
    · -- refused: nothing but the effective state has changed
      rw [ha, if_neg Bool.false_ne_true] at hnone
      rw [ha, effectiveState_gate]
      exact h.2 hnone
  · have he : step cfg s (.check job) = s := if_neg hj
    rw [he]
    exact h

theorem recordFailure_gate (cfg : Config) (now : ℚ) (b : CircuitBreaker) :
    (b.recordFailure cfg now).halfOpenInFlight = false := by
  unfold CircuitBreaker.recordFailure
  split
  · rfl
  · rfl

theorem erase_eq_empty {job : Nat} (hj : job ∈ s.executing) :
    s.executing.erase job = ∅ ↔ s.executing = {job} := by
  rw [Finset.erase_eq_empty_iff]
  constructor
  · intro h
    exact h.resolve_left (Finset.ne_empty_of_mem hj)
  · exact Or.inr

/-- One publish ends: the exact condition. -/
theorem finish_resolved_iff (h : Resolved s) (job : Nat) (outcome : Option PublishError) :
    Resolved (step cfg s (.finish job outcome)) ↔ Accounted s (.finish job outcome) := by
  by_cases hj : job ∈ s.executing
  · have he : step cfg s (.finish job outcome) =
        { report cfg s outcome with executing := s.executing.erase job } := if_pos hj
    rw [he]
    cases outcome with
    | none => exact ⟨fun _ => trivial, fun _ => ⟨h.1, fun _ => rfl⟩⟩
    | some error =>
      unfold report Accounted
      dsimp only
      cases hb : error.isBuiltin with
      | true =>
        rw [if_pos rfl]
        constructor
        · intro _ _ hf
          cases hf
        · intro _
          refine ⟨?_, fun _ => recordFailure_gate _ _ _⟩
          show s.recordedFailures + 1 = s.connectionLosses + 1
          rw [h.1]
      | false =>
        rw [if_neg (by decide)]
        cases hc : error.isConnectionLoss with
        | true =>
          rw [if_pos rfl]
          constructor
          · intro hr
            have hlost : s.recordedFailures = s.connectionLosses + 1 := hr.1
            have := h.1
            omega
          · intro ha
            cases (ha hj rfl).1
        | false =>
          rw [if_neg (by decide)]
          constructor
          · intro hr _ _
            exact ⟨rfl, fun hone => hr.2 ((erase_eq_empty hj).mpr hone)⟩
          · intro ha
            exact ⟨h.1, fun hnone => (ha hj rfl).2 ((erase_eq_empty hj).mp hnone)⟩
  · have he : step cfg s (.finish job outcome) = s := if_neg hj
    rw [he]
    refine ⟨fun _ => ?_, fun _ => h⟩
    cases outcome with
    | none => trivial
    | some error => exact fun hmem => absurd hmem hj

theorem step_resolved_iff (h : Resolved s) (e : Event) :
    Resolved (step cfg s e) ↔ Accounted s e := by
  cases e with
  | advance t => exact ⟨fun _ => trivial, fun _ => h⟩
  | breakerState =>
    refine ⟨fun _ => trivial, fun _ => ⟨h.1, ?_⟩⟩
    show s.executing = ∅ → (s.breaker.effectiveState cfg s.now).halfOpenInFlight = false
    rw [effectiveState_gate]
    exact h.2
  | publish => exact ⟨fun _ => trivial, fun _ => publish_resolved h⟩
  | check job => exact ⟨fun _ => trivial, fun _ => check_resolved h job⟩
  | finish job outcome => exact finish_resolved_iff h job outcome

/-- Along every run: nothing is lost exactly when every publish that ends is
accounted for. -/
theorem resolved_iff (cfg : Config) (es : List Event) :
    Always (step cfg) Resolved start es ↔ Along (step cfg) Accounted start es :=
  always_iff_along (step cfg) (I := fun _ => True) (fun _ _ _ => trivial)
    (fun _ e _ h => step_resolved_iff h e) trivial ⟨rfl, fun _ => rfl⟩ es

theorem cooldown_nonneg : (0 : Rat) ≤ 30 := by decide

/-- The breaker of a queue, with its defaults. -/
def queueBreaker : Config := ⟨5, 30, by decide, cooldown_nonneg⟩

/-- A publish that ends in the client's own `ConnectionError`. -/
theorem client_error_not_counted :
    ¬ ∀ es : List Event, Always (step queueBreaker) Resolved start es := by
  intro h
  have hrun := h [.publish, .check 0, .finish 0 (some .redisConnection)]
  exact absurd hrun.last (by decide +kernel)

/-! ## The jam -/

/-- Half-open, the gate taken, and nobody to release it. -/
def Jammed (s : Publisher) : Prop :=
  s.breaker.state = .halfOpen ∧ s.breaker.halfOpenInFlight = true ∧ s.executing = ∅

theorem effectiveState_jammed (cfg : Config) (h : Jammed s) :
    s.breaker.effectiveState cfg s.now = s.breaker :=
  CircuitBreaker.effectiveState_of_ne (by rw [h.1]; decide)

theorem step_jammed (h : Jammed s) (e : Event) : Jammed (step cfg s e) := by
  have heff := effectiveState_jammed cfg h
  cases e with
  | advance t => exact h
  | breakerState =>
    show Jammed { s with breaker := s.breaker.effectiveState cfg s.now }
    rw [heff]
    exact h
  | publish =>
    unfold step
    dsimp only
    rw [heff]
    split
    · exact h
    · exact h
  | check job =>
    by_cases hj : job ∈ s.dispatched
    · have he : step cfg s (.check job) = { s with
          breaker := (s.breaker.allow cfg s.now).2
          dispatched := s.dispatched.erase job
          executing := if (s.breaker.allow cfg s.now).1 then insert job s.executing
            else s.executing } := if_pos hj
      rw [he]
      rcases CircuitBreaker.allow_cases cfg s.now s.breaker with
        ⟨hs, -⟩ | ⟨-, hf, -⟩ | ⟨-, ha⟩
      · rw [h.1] at hs
        cases hs
      · rw [h.2.1] at hf
        cases hf
      · rw [ha, heff, if_neg Bool.false_ne_true]
        exact h
    · have he : step cfg s (.check job) = s := if_neg hj
      rw [he]
      exact h
  | finish job outcome =>
    have hj : job ∉ s.executing := by
      rw [h.2.2]
      exact Finset.notMem_empty job
    have he : step cfg s (.finish job outcome) = s := if_neg hj
    rw [he]
    exact h

/-- A jammed breaker stays so: no publish is ever sent again. -/
theorem jammed_forever (h : Jammed s) (es : List Event) :
    Always (step cfg) Jammed s es :=
  always_inv (step cfg) (I := Jammed) (fun _ e h => step_jammed h e) h es

/-- Five publishes fail; the probe after the cooldown ends in an error of the client. -/
def probeLost : List Event :=
  ((List.range 5).flatMap fun job => [.publish, .check job, .finish job (some .connection)]) ++
    [.advance 30, .publish, .check 5, .finish 5 (some .redisConnection)]

theorem jammed_after_probe :
    Always (step queueBreaker) Jammed (run (step queueBreaker) start probeLost)
      [.advance 3600, .breakerState, .publish] :=
  jammed_forever ⟨by decide +kernel, by decide +kernel, by decide +kernel⟩ _

end Publisher

end OSimFlow.Queues
