import OSimFlow.Breaker.CircuitBreaker
import OSimFlow.Documents.RedisDocumentStore
import OSimFlow.Lib.Run

/-!
# The document store behind its circuit breaker

`_get_client` asks the breaker for admission, and so does the proxy it returns,
for every command; only the proxy reports how a command went. A session is the
breaker with what the store knows of its client, run through operation after
operation against surroundings that decide at every call what the clock reads,
whether a client can be built, and what each command answers, if anything.

> `Recovers`: the gate of the half-open probe is free, and once the cooldown is
> over an operation whose commands all succeed is executed and closes the
> circuit.

In `half_open` the getter takes the one probe, and the proxy then refuses the
command it was taken for. So a circuit that an operation leaves open stays open:
`recovers_iff` says that the store recovers exactly as long as no operation ends
on `failure_threshold` failed commands in a row.
-/

namespace OSimFlow.Documents

open OSimFlow.Breaker OSimFlow.Lib

/-- What the surroundings do at one call: the clock when admission is asked and when a
failure is recorded, whether a client can be built, and the answer of each command,
`none` for an exception. -/
structure Moment where
  now : ℚ
  later : ℚ
  builds : Bool
  reply : (c : Command) → Option c.Reply

/-- A store between two calls. For the account: the last reading of the clock, what the
commands (and attempts to build a client) came to, the latest first, and how many calls
were refused. -/
structure Session where
  breaker : CircuitBreaker
  connected : Bool
  tick : Nat
  clock : ℚ
  outcomes : List Bool
  refusals : Nat

namespace Session

def new : Session := ⟨.new, false, 0, 0, [], 0⟩

/-- The unbroken run of failures that the outcomes end on. -/
def streak (s : Session) : Nat :=
  (s.outcomes.takeWhile fun ok => !ok).length

/-- The session after the breaker is asked for admission. -/
def asked (s : Session) (cfg : Config) (m : Moment) : Session :=
  { s with breaker := (s.breaker.allow cfg m.now).2, tick := s.tick + 1, clock := m.now }

/-- `record_success`. -/
def succeeded (s : Session) : Session :=
  { s with breaker := s.breaker.recordSuccess, outcomes := true :: s.outcomes }

/-- `record_failure`. -/
def failed (s : Session) (cfg : Config) (m : Moment) : Session :=
  { s with
    breaker := s.breaker.recordFailure cfg m.later
    clock := m.later
    outcomes := false :: s.outcomes }

end Session

variable (cfg : Config) (env : Nat → Moment)

/-- `_get_client` and `_BreakerClient`. -/
def guarded : Prog.Handler Call Call.Answer Session
  | .getClient, s =>
    let m := env s.tick
    let s' := s.asked cfg m
    if (s.breaker.allow cfg m.now).1 = false then
      (.error .unavailable, { s' with refusals := s.refusals + 1 })
    else if s.connected then (.ok (), s')
    else if m.builds then (.ok (), { s' with connected := true })
    else (.error .redis, s'.failed cfg m)
  | .command c, s =>
    let m := env s.tick
    let s' := s.asked cfg m
    if (s.breaker.allow cfg m.now).1 = false then
      (.error .unavailable, { s' with refusals := s.refusals + 1 })
    else
      match m.reply c with
      | some reply => (.ok reply, s'.succeeded)
      | none => (.error .redis, s'.failed cfg m)

/-- An operation of the store, with the `_indexes` it iterates over and what the LRU has. -/
inductive Operation (V : Type) where
  | insertOne (indexes : List Index) (collection : String) (document : Document V)
  | findOne (cached : Option (Document V)) (collection : String) (filter : Filter V)
  | findMany (collection : String) (filter : Filter V) (limit skip : Nat)
      (sort : List (String × Int))
  | updateOne (indexes : List Index) (collection : String) (filter : Filter V)
      (update : Document V → Except StoreError (Document V))
  | deleteOne (indexes : List Index) (collection : String) (filter : Filter V)
  | createIndex (collection field : String) (unique : Bool)
  | listCollections
  | countDocuments (collection : String) (filter : Filter V)

variable {V : Type}

/-- Every operation but a read that the LRU answers. -/
def Operation.Contacts : Operation V → Prop
  | .findOne (some _) _ filter => filter.byId = none
  | _ => True

variable [PyValue V] [Codec V] (ns : String)

/-- The session after an operation. -/
def perform (s : Session) : Operation V → Session
  | .insertOne indexes collection document =>
    ((insertOne ns indexes collection document).run (guarded cfg env) s).2
  | .findOne cached collection filter =>
    ((findOne ns cached collection filter).run (guarded cfg env) s).2
  | .findMany collection filter limit skip sort =>
    ((findMany ns collection filter limit skip sort).run (guarded cfg env) s).2
  | .updateOne indexes collection filter update =>
    ((updateOne ns indexes collection filter update).run (guarded cfg env) s).2
  | .deleteOne indexes collection filter =>
    ((deleteOne ns indexes collection filter).run (guarded cfg env) s).2
  | .createIndex collection field unique =>
    ((createIndex V ns collection field unique).run (guarded cfg env) s).2
  | .listCollections => ((listCollections ns).run (guarded cfg env) s).2
  | .countDocuments collection filter =>
    ((countDocuments ns collection filter).run (guarded cfg env) s).2

/-- From now on everything answers, and the clock goes on past the cooldown. -/
structure Calm (s : Session) : Prop where
  forward : ∀ n, s.tick ≤ n → s.clock ≤ (env n).now ∧ (env n).now ≤ (env n).later ∧
    (env n).later ≤ (env (n + 1)).now
  cooled : ∀ n, s.tick ≤ n → s.breaker.CooledDown cfg (env n).now
  builds : ∀ n, s.tick ≤ n → (env n).builds = true
  replies : ∀ n, s.tick ≤ n → ∀ c, ((env n).reply c).isSome

variable (V) in
/-- The store can recover. -/
structure Recovers (s : Session) : Prop where
  gate : s.breaker.halfOpenInFlight = false
  heals : ∀ env, Calm cfg env s → ∀ op : Operation V, op.Contacts →
    (perform cfg env ns s op).refusals = s.refusals ∧
      (perform cfg env ns s op).breaker.state = .closed

/-- The breaker is closed, and has counted the failures; or they are too many. -/
inductive Counted (s : Session) : Prop where
  | closed (state : s.breaker.state = .closed) (gate : s.breaker.halfOpenInFlight = false)
      (count : s.breaker.consecutiveFailures = s.streak)
      (few : s.streak < cfg.failureThreshold)
  | tripped (state : s.breaker.state ≠ .closed) (many : cfg.failureThreshold ≤ s.streak)

variable {cfg env}

/-- What every call keeps, an operation keeps. -/
theorem perform_inv (env : Nat → Moment) {I : Session → Prop}
    (hI : ∀ call s, I s → I (guarded cfg env call s).2) {s : Session} (hs : I s)
    (op : Operation V) : I (perform cfg env ns s op) := by
  cases op <;> exact Prog.run_inv _ hI _ hs

/-! ## One call -/

variable (cfg) in
theorem allow_of_closed {b : CircuitBreaker} (h : b.state = .closed) (now : ℚ) :
    b.allow cfg now = (true, b) := by
  rcases b.allow_cases cfg now with ⟨-, ha⟩ | ⟨he, -⟩ | ⟨he, -⟩
  · exact ha
  · rw [CircuitBreaker.effectiveState_of_ne (by rw [h]; exact nofun), h] at he
    exact nomatch he
  · rw [CircuitBreaker.effectiveState_of_ne (by rw [h]; exact nofun)] at he
    exact absurd h he

variable (cfg) in
/-- A breaker that is not closed is not closed by asking; it admits in `half_open` only,
and then the gate is taken. -/
theorem allow_of_ne {b : CircuitBreaker} (h : b.state ≠ .closed) (now : ℚ) :
    (b.allow cfg now).2.state ≠ .closed ∧
      ((b.allow cfg now).1 = true →
        (b.allow cfg now).2.state = .halfOpen ∧ (b.allow cfg now).2.halfOpenInFlight = true) := by
  rcases b.allow_cases cfg now with ⟨hc, -⟩ | ⟨-, -, ha⟩ | ⟨he, ha⟩
  · exact absurd hc h
  · rw [ha]
    exact ⟨nofun, fun _ => ⟨rfl, rfl⟩⟩
  · rw [ha]
    exact ⟨he, nofun⟩

variable (cfg) in
theorem allow_of_gate {b : CircuitBreaker} (hstate : b.state = .halfOpen)
    (hgate : b.halfOpenInFlight = true) (now : ℚ) : (b.allow cfg now).1 = false := by
  rcases b.allow_cases cfg now with ⟨hc, -⟩ | ⟨-, hg, -⟩ | ⟨-, ha⟩
  · rw [hstate] at hc
    exact nomatch hc
  · rw [hgate] at hg
    exact nomatch hg
  · rw [ha]

theorem streak_failed (s : Session) (m : Moment) :
    (s.failed cfg m).streak = s.streak + 1 := rfl

/-- A failure is counted. -/
theorem Counted.failed {s : Session} (hs : Counted cfg s) (m : Moment)
    (hprobe : s.breaker.state ≠ .closed → s.breaker.state = .halfOpen) :
    Counted cfg (s.failed cfg m) := by
  cases hs with
  | closed state gate count few =>
    by_cases htrips : s.breaker.Trips cfg
    · have hmany : cfg.failureThreshold ≤ s.breaker.consecutiveFailures + 1 := by
        rcases htrips with h | h
        · exact h
        · rw [state] at h
          exact nomatch h
      refine .tripped ?_ ?_
      · simp only [Session.failed, CircuitBreaker.recordFailure, if_pos htrips]
        exact nofun
      · rw [streak_failed, ← count]
        exact hmany
    · have hfew : ¬ cfg.failureThreshold ≤ s.breaker.consecutiveFailures + 1 :=
        fun h => htrips (.inl h)
      have hbreaker : (s.failed cfg m).breaker =
          { s.breaker with
            consecutiveFailures := s.breaker.consecutiveFailures + 1
            halfOpenInFlight := false } := if_neg htrips
      refine .closed ?_ ?_ ?_ ?_
      · rw [hbreaker]
        exact state
      · rw [hbreaker]
      · rw [hbreaker, streak_failed, count]
      · rw [streak_failed, ← count]
        omega
  | tripped state many =>
    have htrips : s.breaker.Trips cfg := .inr (hprobe state)
    refine .tripped ?_ ?_
    · simp only [Session.failed, CircuitBreaker.recordFailure, if_pos htrips]
      exact nofun
    · rw [streak_failed]
      omega

/-- Asking the breaker keeps the count, and lets through in `closed` and `half_open` only. -/
theorem Counted.asked {s : Session} (hs : Counted cfg s) (m : Moment) :
    Counted cfg (s.asked cfg m) ∧ ((s.breaker.allow cfg m.now).1 = true →
      (s.asked cfg m).breaker.state ≠ .closed → (s.asked cfg m).breaker.state = .halfOpen) := by
  cases hs with
  | closed state gate count few =>
    have hbreaker : (s.asked cfg m).breaker = s.breaker := by
      simp only [Session.asked, allow_of_closed cfg state]
    refine ⟨.closed ?_ ?_ ?_ few, fun _ hne => ?_⟩
    · rw [hbreaker]
      exact state
    · rw [hbreaker]
      exact gate
    · rw [hbreaker]
      exact count
    · rw [hbreaker] at hne
      exact absurd state hne
  | tripped state many =>
    obtain ⟨hstate, hprobe⟩ := allow_of_ne cfg state m.now
    exact ⟨.tripped hstate many, fun h _ => (hprobe h).1⟩

theorem Counted.succeeded (s : Session) : Counted cfg s.succeeded :=
  .closed rfl rfl rfl cfg.threshold_pos

/-- Every call keeps the count. -/
theorem guarded_counted (call : Call) (s : Session) (hs : Counted cfg s) :
    Counted cfg (guarded cfg env call s).2 := by
  obtain ⟨hasked, hprobe⟩ := hs.asked (env s.tick)
  have hrefused : Counted cfg { s.asked cfg (env s.tick) with refusals := s.refusals + 1 } := by
    cases hasked with
    | closed state gate count few => exact .closed state gate count few
    | tripped state many => exact .tripped state many
  cases call with
  | getClient =>
    simp only [guarded]
    split
    · exact hrefused
    next hallow =>
      have hallow : (s.breaker.allow cfg (env s.tick).now).1 = true := by simpa using hallow
      split
      · exact hasked
      · split
        · cases hasked with
          | closed state gate count few => exact .closed state gate count few
          | tripped state many => exact .tripped state many
        · exact hasked.failed _ (hprobe hallow)
  | command c =>
    simp only [guarded]
    split
    · exact hrefused
    next hallow =>
      have hallow : (s.breaker.allow cfg (env s.tick).now).1 = true := by simpa using hallow
      split
      · exact .succeeded _
      · exact hasked.failed _ (hprobe hallow)

/-- Calls are refused or not; none is taken back. -/
theorem guarded_refusals (call : Call) (s : Session) :
    s.refusals ≤ (guarded cfg env call s).2.refusals := by
  cases call <;> simp only [guarded] <;> split
  · exact Nat.le_succ _
  · split
    · exact Nat.le_refl _
    · split <;> exact Nat.le_refl _
  · exact Nat.le_succ _
  · split <;> exact Nat.le_refl _

/-! ## Recovering -/

variable (cfg) in
/-- A call on a closed breaker when everything answers. -/
theorem guarded_closed (call : Call) {s : Session} (hstate : s.breaker.state = .closed)
    (hbuilds : (env s.tick).builds = true) (hreplies : ∀ c, ((env s.tick).reply c).isSome) :
    (guarded cfg env call s).2.breaker.state = .closed ∧
      (guarded cfg env call s).2.refusals = s.refusals ∧
      (guarded cfg env call s).2.tick = s.tick + 1 := by
  have hallow := allow_of_closed cfg hstate (env s.tick).now
  have hasked : (s.asked cfg (env s.tick)).breaker.state = .closed := by
    simp only [Session.asked, hallow, hstate]
  cases call with
  | getClient =>
    simp only [guarded, hallow, hbuilds, Bool.true_eq_false, if_false, if_true]
    split <;> exact ⟨hasked, rfl, rfl⟩
  | command c =>
    obtain ⟨reply, hreply⟩ := Option.isSome_iff_exists.mp (hreplies c)
    simp only [guarded, hallow, hreply, Bool.true_eq_false, if_false]
    exact ⟨rfl, rfl, rfl⟩

theorem recovers_of_closed {s : Session} (hstate : s.breaker.state = .closed)
    (hgate : s.breaker.halfOpenInFlight = false) : Recovers cfg V ns s := by
  refine ⟨hgate, fun env calm op _ => ?_⟩
  have hinv := perform_inv ns env
    (I := fun s' => s'.breaker.state = .closed ∧ s'.refusals = s.refusals ∧ s.tick ≤ s'.tick)
    (fun call s' hs' => by
      obtain ⟨hclosed, hrefusals, htick⟩ := guarded_closed cfg call hs'.1
        (calm.builds _ hs'.2.2) (calm.replies _ hs'.2.2)
      exact ⟨hclosed, hrefusals.trans hs'.2.1, by omega⟩)
    ⟨hstate, rfl, Nat.le_refl _⟩ op
  exact ⟨hinv.2.1, hinv.1⟩

variable (cfg) in
/-- On a breaker that is not closed, the getter or the command after it is refused. -/
theorem refused_of_ne {s : Session} (hstate : s.breaker.state ≠ .closed)
    (hbuilds : (env s.tick).builds = true) (c : Command) :
    s.refusals < (guarded cfg env .getClient s).2.refusals ∨
      (guarded cfg env .getClient s).1 = .ok () ∧
      s.refusals < (guarded cfg env (.command c) (guarded cfg env .getClient s).2).2.refusals := by
  cases hallow : (s.breaker.allow cfg (env s.tick).now).1 with
  | false =>
    left
    simp only [guarded, hallow, if_true]
    omega
  | true =>
    right
    obtain ⟨hhalf, hgate⟩ := (allow_of_ne cfg hstate (env s.tick).now).2 hallow
    -- the getter holds the probe, so the proxy finds the gate taken
    have hnext : ∀ now, ((s.breaker.allow cfg (env s.tick).now).2.allow cfg now).1 = false :=
      allow_of_gate cfg hhalf hgate
    simp only [guarded, hallow, hbuilds, Bool.true_eq_false, if_false, if_true]
    split
    · exact ⟨rfl, by simp only [Session.asked, hnext, if_true]; omega⟩
    · exact ⟨rfl, by simp only [Session.asked, hnext, if_true]; omega⟩

variable (cfg) in
/-- `count_documents` on a breaker that is not closed. -/
theorem count_refused {s : Session} (hstate : s.breaker.state ≠ .closed)
    (hbuilds : (env s.tick).builds = true) (collection : String) (filter : Filter V) :
    s.refusals < (perform cfg env ns s (.countDocuments collection filter)).refusals := by
  have hmono : ∀ {α : Type} (p : Program α) (t : Session), s.refusals < t.refusals →
      s.refusals < (p.run (guarded cfg env) t).2.refusals := fun p t ht =>
    Prog.run_inv _ (I := fun t => s.refusals < t.refusals)
      (fun call t' ht' => Nat.lt_of_lt_of_le ht' (guarded_refusals call t')) p ht
  show s.refusals < (Prog.run (guarded cfg env) (.call .getClient _) s).2.refusals
  rw [Prog.run]
  rcases refused_of_ne cfg hstate hbuilds (.hgetall (collKey ns collection)) with
    h | ⟨hok, h⟩
  · exact hmono _ _ h
  · rw [hok]
    show s.refusals < (Prog.run (guarded cfg env) (.call (.command _) _) _).2.refusals
    rw [Prog.run]
    exact hmono _ _ h

theorem not_recovers_of_ne {s : Session} (hstate : s.breaker.state ≠ .closed) :
    ¬ Recovers cfg V ns s := by
  intro h
  let t := max s.clock (s.breaker.openedAt + cfg.cooldownS)
  let env : Nat → Moment := fun _ => ⟨t, t, true, fun c =>
    match c with
    | .sadd _ _ | .hset _ _ _ | .hdel _ _ => some ()
    | .smembers _ => some ([] : List String)
    | .incr _ => some (0 : Nat)
    | .hget _ _ => some (none : Option String)
    | .hsetnx _ _ _ => some true
    | .hgetall _ => some ([] : List (String × String))⟩
  have hcooled : s.breaker.CooledDown cfg t := by
    have : s.breaker.openedAt + cfg.cooldownS ≤ t := le_max_right _ _
    exact le_sub_iff_add_le'.mpr this
  have calm : Calm cfg env s := by
    refine ⟨fun n _ => ⟨le_max_left _ _, le_refl _, le_refl _⟩, fun n _ => hcooled,
      fun n _ => rfl, fun n _ c => ?_⟩
    cases c <;> rfl
  have hrefused : s.refusals <
      (perform (V := V) cfg env ns s (.countDocuments "" ⟨none, fun _ => .ok true⟩)).refusals :=
    count_refused cfg ns hstate rfl "" ⟨none, fun _ => .ok true⟩
  have := (h.heals env calm (.countDocuments "" ⟨none, fun _ => .ok true⟩) trivial).1
  omega

theorem Counted.recovers_iff_few {s : Session} (hs : Counted cfg s) :
    Recovers cfg V ns s ↔ s.streak < cfg.failureThreshold := by
  cases hs with
  | closed state gate count few =>
    exact ⟨fun _ => few, fun _ => recovers_of_closed ns state gate⟩
  | tripped state many =>
    exact ⟨fun h => absurd h (not_recovers_of_ne ns state), fun h => by omega⟩

theorem counted_new : Counted cfg .new :=
  .closed rfl rfl rfl cfg.threshold_pos

theorem perform_counted (s : Session) (op : Operation V) (hs : Counted cfg s) :
    Counted cfg (perform cfg env ns s op) :=
  perform_inv ns env guarded_counted hs op

/-- The store can recover throughout a run exactly if no operation of it ends on
`failure_threshold` failed commands in a row. -/
theorem recovers_iff (cfg : Config) (env : Nat → Moment) (ns : String)
    (ops : List (Operation V)) :
    Always (perform cfg env ns) (Recovers cfg V ns) .new ops ↔
      Always (perform cfg env ns) (fun s => s.streak < cfg.failureThreshold) .new ops := by
  have hcounted := always_inv (perform cfg env ns) (I := Counted cfg)
    (fun s op => perform_counted ns s op) counted_new ops
  rw [always_iff] at hcounted ⊢
  rw [always_iff]
  exact forall_congr' fun n => (hcounted n).recovers_iff_few ns

/-- `CircuitBreaker(name=…)`, with its defaults. -/
def defaultConfig : Config := Config.ofArgs 5 30

/-- Redis is down. -/
def outage : Nat → Moment := fun _ => ⟨0, 0, true, fun _ => none⟩

/-- A listing in an outage, as long as the circuit is closed. -/
theorem listing_fails {s : Session} (hstate : s.breaker.state = .closed) :
    (perform (V := V) cfg outage ns s .listCollections).streak = s.streak + 1 := by
  have hallow := allow_of_closed cfg hstate 0
  obtain ⟨s', hconnect, hstate', hstreak⟩ : ∃ s' : Session,
      guarded cfg outage .getClient s = (.ok (), s') ∧ s'.breaker.state = .closed ∧
        s'.streak = s.streak := by
    simp only [guarded, outage, Session.asked, hallow, Bool.true_eq_false, if_false, if_true]
    split
    · exact ⟨_, rfl, hstate, rfl⟩
    · exact ⟨_, rfl, hstate, rfl⟩
  have hallow' := allow_of_closed cfg hstate' 0
  have hcommand : guarded cfg outage (.command (.smembers (collectionsKey ns))) s' =
      (.error .redis, (s'.asked cfg (outage s'.tick)).failed cfg (outage s'.tick)) := by
    simp only [guarded, outage, hallow', Bool.true_eq_false, if_false]
  show (Prog.run (guarded cfg outage) (.call .getClient _) s).2.streak = _
  rw [Prog.run, hconnect]
  show (Prog.run (guarded cfg outage) (.call (.command (.smembers _)) _) s').2.streak = _
  rw [Prog.run, hcommand]
  show (Session.failed _ _ _).streak = _
  rw [streak_failed, ← hstreak]
  rfl

/-- As many failures in a row as listings, until the circuit opens. -/
theorem outage_streak (n : Nat) (hn : n ≤ cfg.failureThreshold) :
    (run (perform (V := V) cfg outage ns) .new (List.replicate n .listCollections)).streak
      = n := by
  induction n with
  | zero => rfl
  | succ n ih =>
    have hcounted := run_inv (perform (V := V) cfg outage ns)
      (fun s op => perform_counted ns s op) counted_new (List.replicate n .listCollections)
    have hstreak := ih (by omega)
    rw [List.replicate_succ', run_append, run_cons, run_nil]
    cases hcounted with
    | closed state gate count few => rw [listing_fails ns state, hstreak]
    | tripped state many => omega

/-- Five listings in an outage, and the store never comes back. -/
theorem outage_never_ends : ¬ ∃ (V : Type) (_ : PyValue V) (_ : Codec V), ∀ ops : List (Operation V),
    Always (perform defaultConfig outage "campaign") (Recovers defaultConfig V "campaign") .new
      ops := by
  rintro ⟨V, _, _, h⟩
  have hrun := (h (List.replicate 5 .listCollections)).last
  have hcounted := run_inv (perform (V := V) defaultConfig outage "campaign")
    (fun s op => perform_counted "campaign" s op) counted_new (List.replicate 5 .listCollections)
  have hfew := (hcounted.recovers_iff_few "campaign").mp hrun
  have hthreshold : defaultConfig.failureThreshold = 5 := rfl
  rw [outage_streak "campaign" 5 (by omega)] at hfew
  omega

end OSimFlow.Documents
