import OSimFlow.Breaker.CircuitBreaker
import OSimFlow.Lib.Run
import OSimFlow.Lib.Trail

/-!
# The reports of the breaker

Three methods report to `on_transition`: `allow` when it notices that the
cooldown is over, `record_success` when the circuit was not closed, and
`record_failure` when the failure opens it. A monitor that replays the reports
is to know the state of the breaker.

It does not in two cases.

* The property `state` applies the same cooldown as `allow` and reports
  nothing.
* A failure past the threshold opens the circuit again and again, and each time
  it is reported, from `open` to `open`.

> `replayable_iff`: runs without these two steps are exactly the ones that can
> be replayed.
-/

namespace OSimFlow.Breaker

open OSimFlow.Lib

/-- A call of one of the methods, with what the clock reads in it. -/
inductive Call where
  | readState (now : ℚ)
  | allow (now : ℚ)
  | recordSuccess
  | recordFailure (now : ℚ)
deriving DecidableEq

namespace CircuitBreaker

variable (cfg : Config) (b : CircuitBreaker)

/-- The breaker after the call. -/
def after : Call → CircuitBreaker
  | .readState now => b.effectiveState cfg now
  | .allow now => (b.allow cfg now).2
  | .recordSuccess => b.recordSuccess
  | .recordFailure now => b.recordFailure cfg now

/-- What the call passes to `on_transition`, if anything. -/
def report : Call → Option (State × State)
  | .readState _ => none
  | .allow now =>
    let state := (b.effectiveState cfg now).state
    if state ≠ b.state then some (b.state, state) else none
  | .recordSuccess => if b.state ≠ .closed then some (b.state, .closed) else none
  | .recordFailure _ => if b.Trips cfg then some (b.state, .opened) else none

end CircuitBreaker

/-- The breaker and what it has reported. -/
structure Monitored where
  breaker : CircuitBreaker
  reports : List (State × State)
deriving DecidableEq

namespace Monitored

variable (cfg : Config)

def start : Monitored := ⟨.new, []⟩

def step (m : Monitored) (call : Call) : Monitored where
  breaker := m.breaker.after cfg call
  reports := m.reports ++ (m.breaker.report cfg call).toList

/-- The reports lead from `closed` to where the breaker is. -/
structure Replayable (m : Monitored) : Prop where
  trail : Trail .closed m.reports
  current : endpoint .closed m.reports = m.breaker.state

/-- The call neither looks at a circuit that is cooled down nor fails past the threshold while
the circuit is open. -/
def Reported (m : Monitored) : Call → Prop
  | .readState now => ¬ (m.breaker.state = .opened ∧ m.breaker.CooledDown cfg now)
  | .recordFailure _ => ¬ (m.breaker.state = .opened ∧
      cfg.failureThreshold ≤ m.breaker.consecutiveFailures + 1)
  | _ => True

variable {cfg} {m : Monitored}

/-- What a report has to say of a call that leads from one state to another. -/
def Tells (s s' : State) : Option (State × State) → Prop
  | none => s' = s
  | some move => move.1 = s ∧ move.1 ≠ move.2 ∧ move.2 = s'

theorem replayable_step_iff (h : m.Replayable) (call : Call) :
    (m.step cfg call).Replayable ↔
      Tells m.breaker.state (m.breaker.after cfg call).state (m.breaker.report cfg call) := by
  cases hreport : m.breaker.report cfg call with
  | none =>
    have hreports : (m.step cfg call).reports = m.reports := by
      show m.reports ++ (m.breaker.report cfg call).toList = m.reports
      rw [hreport]
      exact List.append_nil _
    constructor
    · intro hstep
      have hcurrent := hstep.current
      rw [hreports, h.current] at hcurrent
      exact hcurrent.symm
    · intro hsame
      refine ⟨hreports ▸ h.trail, ?_⟩
      rw [hreports, h.current]
      exact hsame.symm
  | some move =>
    have hreports : (m.step cfg call).reports = m.reports ++ [move] := by
      show m.reports ++ (m.breaker.report cfg call).toList = m.reports ++ [move]
      rw [hreport]
      rfl
    constructor
    · intro hstep
      have htrail := hstep.trail
      have hcurrent := hstep.current
      rw [hreports, trail_concat, h.current] at htrail
      rw [hreports, endpoint_concat] at hcurrent
      exact ⟨htrail.2.1, htrail.2.2, hcurrent⟩
    · intro ⟨hfrom, hmoves, hto⟩
      refine ⟨?_, ?_⟩
      · rw [hreports, trail_concat, h.current]
        exact ⟨h.trail, hfrom, hmoves⟩
      · rw [hreports, endpoint_concat]
        exact hto

theorem state_allow (b : CircuitBreaker) (now : ℚ) :
    (b.allow cfg now).2.state = (b.effectiveState cfg now).state := by
  unfold CircuitBreaker.allow
  cases hstate : (b.effectiveState cfg now).state with
  | closed | opened => simp only [hstate]
  | halfOpen =>
    simp only [hstate]
    split
    · exact hstate
    · rfl

/-- Of the four methods two may fail to tell. -/
theorem tells_iff (call : Call) :
    Tells m.breaker.state (m.breaker.after cfg call).state (m.breaker.report cfg call) ↔
      m.Reported cfg call := by
  cases call with
  | readState now =>
    show (m.breaker.effectiveState cfg now).state = m.breaker.state ↔ ¬ _
    by_cases hcooled : m.breaker.state = .opened ∧ m.breaker.CooledDown cfg now
    · rw [CircuitBreaker.effectiveState_of_cooled hcooled.1 hcooled.2, hcooled.1]
      exact iff_of_false (fun h => nomatch h) fun h => h ⟨rfl, hcooled.2⟩
    · have hsame : m.breaker.effectiveState cfg now = m.breaker := if_neg hcooled
      rw [hsame]
      exact iff_of_true rfl hcooled
  | allow now =>
    refine iff_of_true ?_ trivial
    show Tells _ (m.breaker.allow cfg now).2.state (if _ then _ else _)
    rw [state_allow]
    by_cases hsame : (m.breaker.effectiveState cfg now).state = m.breaker.state
    · rw [if_neg (not_not_intro hsame)]
      exact hsame
    · rw [if_pos hsame]
      exact ⟨rfl, fun h => hsame h.symm, rfl⟩
  | recordSuccess =>
    refine iff_of_true ?_ trivial
    show Tells _ State.closed (if _ then _ else _)
    by_cases hclosed : m.breaker.state = .closed
    · rw [if_neg (not_not_intro hclosed)]
      exact hclosed.symm
    · rw [if_pos hclosed]
      exact ⟨rfl, hclosed, rfl⟩
  | recordFailure now =>
    show Tells _ (m.breaker.recordFailure cfg now).state (if _ then _ else _) ↔ ¬ _
    unfold CircuitBreaker.recordFailure
    by_cases htrips : m.breaker.Trips cfg
    · rw [if_pos htrips, if_pos htrips]
      show _ = _ ∧ m.breaker.state ≠ .opened ∧ _ = _ ↔ _
      constructor
      · intro ⟨_, hne, _⟩ h
        exact hne h.1
      · intro hnot
        refine ⟨rfl, fun hopened => ?_, rfl⟩
        rcases htrips with hreached | hhalf
        · exact hnot ⟨hopened, hreached⟩
        · exact nomatch hopened.symm.trans hhalf
    · rw [if_neg htrips, if_neg htrips]
      exact iff_of_true rfl fun h => htrips (.inl h.2)

/-- A run can be replayed from its reports exactly when none of its calls is of the two kinds. -/
theorem replayable_iff (cfg : Config) (calls : List Call) :
    Always (step cfg) Replayable start calls ↔ Along (step cfg) (Reported cfg) start calls := by
  have hstart : Replayable start := ⟨trivial, rfl⟩
  refine always_iff_along (I := fun _ => True) (step cfg) (fun _ _ h => h) ?_ trivial hstart calls
  intro m call _ h
  rw [replayable_step_iff h, tells_iff]

/-- The second failure of a breaker of threshold 1 is reported from `open` to `open`. -/
theorem reports_open_twice : ¬ Always (step (Config.ofArgs 1 30)) Replayable start
    [.recordFailure 0, .recordFailure 1] := by
  intro h
  exact absurd h.2.2.trail (by decide)

end Monitored

end OSimFlow.Breaker
