import Mathlib.Algebra.Order.Floor.Ring
import Mathlib.Data.Rat.Floor
import OSimFlow.Lib.Bucket
import OSimFlow.Lib.Run

/-!
# The submit rate limiter

Every `submit` passes `acquire` of a token bucket that the executors of one effective rate
share. `acquire` refills and takes under a lock, and sleeps outside of it for as long as the
missing part of a token takes to flow in; threads that wake for the same token race for it.

> `submitRate_bounded`: in every stretch of time of length `T` at most the capacity and
> `rate * T` calls return, whatever the interleaving; and a thread that is told to wait
> sleeps until the very instant from which a call would return, if nobody is served before.
>
> `burst_zero_serves`: the capacity is at least one, also where the burst is not.

The clock is what `time.monotonic()` shows in the critical section; one turn of the loop
holds the lock throughout and is one step.
-/

namespace OSimFlow.Executors.RateLimiter

open OSimFlow.Lib

/-! ## The limiter -/

section

variable {K : Type} [Field K] [LinearOrder K] [FloorRing K]

/-- `_default_burst`, for a rate that is a number. -/
def defaultBurst (rps : K) : Int :=
  if rps ≤ 0 then 1 else max 1 ⌊rps⌋

structure TokenBucketRateLimiter (K : Type) where
  rate : K
  disabled : Bool
  capacity : Int
  tokens : K
  lastRefill : K

/-- `__init__`. -/
def TokenBucketRateLimiter.init (ratePerSec : K) (burst : Option Int) (now : K) :
    TokenBucketRateLimiter K :=
  let rate := max 0 ratePerSec
  let disabled := decide (rate ≤ 0)
  let capacity := if disabled then 1 else max 1 (burst.getD (defaultBurst rate))
  { rate, disabled, capacity
    tokens := if disabled then 1 else capacity
    lastRefill := now }

end

section

variable {K : Type} [Field K] [LinearOrder K]

/-- The critical section of `acquire`: `none` returns, `some wait_s` goes on to sleep. -/
def TokenBucketRateLimiter.turn (l : TokenBucketRateLimiter K) (now : K) :
    TokenBucketRateLimiter K × Option K :=
  let elapsed := now - l.lastRefill
  let tokens := min (l.capacity : K) (l.tokens + elapsed * l.rate)
  if 1 ≤ tokens then ({ l with tokens := tokens - 1, lastRefill := now }, none)
  else
    let deficit := 1 - tokens
    ({ l with tokens, lastRefill := now }, some (deficit / l.rate))

/-! ## Threads -/

/-- Where a thread is: outside of `acquire`, before the lock, or in `time.sleep`. -/
inductive Phase (K : Type) where
  | idle
  | ready
  | asleep (until_ : K)

structure World (Thread K : Type) where
  limiter : TokenBucketRateLimiter K
  clock : K
  phase : Thread → Phase K
  /-- The calls of `acquire` that returned, the last one first. -/
  returned : List (Thread × K)

inductive Event (Thread K : Type) [Zero K] [LE K] where
  | tick (elapsed : {d : K // 0 ≤ d})
  | call (t : Thread)
  | turn (t : Thread)
  | wake (t : Thread)

variable {Thread : Type} [DecidableEq Thread]

/-- `acquire` returns. -/
def World.serve (w : World Thread K) (t : Thread) : World Thread K :=
  { w with
    phase := fun t' => if t' = t then .idle else w.phase t'
    returned := (t, w.clock) :: w.returned }

def World.setPhase (w : World Thread K) (t : Thread) (p : Phase K) : World Thread K :=
  { w with phase := fun t' => if t' = t then p else w.phase t' }

/-- A turn of the loop, by a thread that has the lock. -/
def World.takeTurn (w : World Thread K) (t : Thread) : World Thread K :=
  let r := w.limiter.turn w.clock
  match r.2 with
  | none => { w with limiter := r.1 }.serve t
  | some wait => { w with limiter := r.1 }.setPhase t (.asleep (w.clock + wait))

/-- An event that the thread's phase does not allow changes nothing. -/
def step (w : World Thread K) : Event Thread K → World Thread K
  | .tick elapsed => { w with clock := w.clock + elapsed.val }
  | .call t =>
    match w.phase t with
    | .idle => if w.limiter.disabled then w.serve t else w.setPhase t .ready
    | .ready | .asleep _ => w
  | .turn t =>
    match w.phase t with
    | .ready => w.takeTurn t
    | .idle | .asleep _ => w
  | .wake t =>
    match w.phase t with
    -- `sleep` lasts at least as long as it was asked to
    | .asleep until_ => if until_ ≤ w.clock then w.setPhase t .ready else w
    | .idle | .ready => w

/-- A limiter that was created at `now`, and no call of it. -/
def World.start [FloorRing K] (ratePerSec : K) (burst : Option Int) (now : K) :
    World Thread K :=
  ⟨.init ratePerSec burst now, now, fun _ => .idle, []⟩

/-- How many calls returned in a stretch of time. -/
def World.returnsWithin (w : World Thread K) (first last : K) : Nat :=
  w.returned.countP fun r => decide (first ≤ r.2 ∧ r.2 ≤ last)

/-- A call that has the lock now would return. -/
def World.Serves (w : World Thread K) : Prop :=
  (w.limiter.turn w.clock).2 = none

instance (w : World Thread K) : Decidable w.Serves :=
  inferInstanceAs (Decidable (_ = none))

end

/-! ## The bucket of a limiter -/

section

variable {K : Type} [Field K] [LinearOrder K]

/-- The limiter as a bucket. -/
def TokenBucketRateLimiter.bucket (l : TokenBucketRateLimiter K) : Bucket K :=
  ⟨l.tokens, l.lastRefill⟩

/-- The tokens that a turn at `now` finds. -/
def TokenBucketRateLimiter.tokensAt (l : TokenBucketRateLimiter K) (now : K) : K :=
  l.bucket.levelAt (l.capacity : K) l.rate now

/-- A turn finds a token and takes it, or it finds too little and says how long the rest
takes. -/
theorem turn_cases (l : TokenBucketRateLimiter K) (now : K) :
    (1 ≤ l.tokensAt now ∧
      l.turn now = ({ l with tokens := l.tokensAt now - 1, lastRefill := now }, none)) ∨
    (l.tokensAt now < 1 ∧
      l.turn now = ({ l with tokens := l.tokensAt now, lastRefill := now },
        some ((1 - l.tokensAt now) / l.rate))) := by
  rcases le_or_gt 1 (l.tokensAt now) with hfull | hlow
  · exact .inl ⟨hfull, if_pos hfull⟩
  · exact .inr ⟨hlow, if_neg (not_le.mpr hlow)⟩

theorem turn_served_iff (l : TokenBucketRateLimiter K) (now : K) :
    (l.turn now).2 = none ↔ 1 ≤ l.tokensAt now := by
  rcases turn_cases l now with ⟨hfull, heq⟩ | ⟨hlow, heq⟩
  · rw [heq]
    exact ⟨fun _ => hfull, fun _ => rfl⟩
  · rw [heq]
    constructor
    · intro h
      exact nomatch h
    · intro h
      exact absurd h (not_le.mpr hlow)

end

/-! ## What every run keeps -/

section

variable {K : Type} [Field K] [LinearOrder K] [IsStrictOrderedRing K] {Thread : Type}

/-- The settings stay, the last refill is past, and what was served is paid for. -/
structure Sound (capacity : Int) (rate : K) (w : World Thread K) : Prop where
  rate_eq : w.limiter.rate = rate
  enabled : w.limiter.disabled = false
  capacity_eq : w.limiter.capacity = capacity
  asOf : w.limiter.lastRefill ≤ w.clock
  paid : w.limiter.bucket.Paid (capacity : K) rate (w.returned.map Prod.snd)

variable [DecidableEq Thread] {capacity : Int} {rate : K}

theorem takeTurn_sound (hrate : 0 < rate) {w : World Thread K} (h : Sound capacity rate w)
    (t : Thread) : Sound capacity rate (w.takeTurn t) := by
  have hlevel : w.limiter.tokensAt w.clock =
      w.limiter.bucket.levelAt (capacity : K) rate w.clock := by
    unfold TokenBucketRateLimiter.tokensAt
    rw [h.capacity_eq, h.rate_eq]
  have hpaid := h.paid.refill (le_of_lt hrate) h.asOf
  unfold World.takeTurn
  rcases turn_cases w.limiter w.clock with ⟨hfull, heq⟩ | ⟨hlow, heq⟩
  · rw [heq]
    rw [hlevel] at hfull ⊢
    exact ⟨h.rate_eq, h.enabled, h.capacity_eq, le_refl _, hpaid.take (le_of_lt hrate) hfull⟩
  · rw [heq]
    rw [hlevel] at hlow ⊢
    exact ⟨h.rate_eq, h.enabled, h.capacity_eq, le_refl _, hpaid⟩

theorem step_sound (hrate : 0 < rate) (w : World Thread K) (e : Event Thread K)
    (h : Sound capacity rate w) : Sound capacity rate (step w e) := by
  cases e with
  | tick elapsed =>
    have hlater : w.limiter.lastRefill ≤ w.clock + elapsed.val := by
      linarith [h.asOf, elapsed.property]
    exact ⟨h.rate_eq, h.enabled, h.capacity_eq, hlater, h.paid⟩
  | call t =>
    rw [step]
    split
    · rw [h.enabled]
      exact ⟨h.rate_eq, h.enabled, h.capacity_eq, h.asOf, h.paid⟩
    · exact h
    · exact h
  | turn t =>
    rw [step]
    split
    · exact takeTurn_sound hrate h t
    · exact h
    · exact h
  | wake t =>
    rw [step]
    split
    · split
      · exact ⟨h.rate_eq, h.enabled, h.capacity_eq, h.asOf, h.paid⟩
      · exact h
    · exact h
    · exact h

/-- `_capacity`, of a limiter with a positive rate. -/
def effectiveBurst [FloorRing K] (ratePerSec : K) (burst : Option Int) : Int :=
  max 1 (burst.getD (defaultBurst ratePerSec))

omit [DecidableEq Thread] in
theorem start_sound [FloorRing K] (hrate : 0 < rate) (burst : Option Int) (now : K) :
    Sound (effectiveBurst rate burst) rate (World.start rate burst now : World Thread K) := by
  have hmax : max 0 rate = rate := max_eq_right (le_of_lt hrate)
  have hon : decide (max 0 rate ≤ 0) = false := by
    rw [hmax]
    exact decide_eq_false (not_le.mpr hrate)
  have hcap : (0 : K) ≤ ((effectiveBurst rate burst : Int) : K) := by
    have hone : (1 : Int) ≤ effectiveBurst rate burst := le_max_left _ _
    exact Int.cast_nonneg (by omega)
  have hcapacity : (TokenBucketRateLimiter.init rate burst now).capacity =
      effectiveBurst rate burst := by
    show (if decide (max 0 rate ≤ 0) = true then _ else _) = _
    rw [hon, hmax]
    rfl
  have htokens : (TokenBucketRateLimiter.init rate burst now).tokens =
      ((TokenBucketRateLimiter.init rate burst now).capacity : K) := by
    show (if decide (max 0 rate ≤ 0) = true then (1 : K) else _) = _
    exact if_neg (by rw [hon]; exact Bool.false_ne_true)
  have hbucket : (TokenBucketRateLimiter.init rate burst now).bucket =
      ⟨((effectiveBurst rate burst : Int) : K), now⟩ := by
    rw [← hcapacity, ← htokens]
    rfl
  refine ⟨hmax, hon, hcapacity, le_refl _, ?_⟩
  show (TokenBucketRateLimiter.init rate burst now).bucket.Paid _ _ []
  rw [hbucket]
  exact Bucket.Paid.start hcap (le_of_lt hrate) now

theorem run_sound [FloorRing K] (hrate : 0 < rate) (burst : Option Int) (now : K)
    (es : List (Event Thread K)) :
    Sound (effectiveBurst rate burst) rate (run step (World.start rate burst now) es) :=
  run_inv step (step_sound hrate) (start_sound hrate burst now) es

/-! ## While nobody is served -/

/-- Time has passed since `v`, nobody was served, and the tokens are what they would be. -/
structure Unserved (v w : World Thread K) : Prop where
  returned_eq : w.returned = v.returned
  clock_le : v.clock ≤ w.clock
  tokens_eq : ∀ later, w.clock ≤ later → w.limiter.tokensAt later = v.limiter.tokensAt later

omit [IsStrictOrderedRing K] [DecidableEq Thread] in
theorem Unserved.refl (v : World Thread K) : Unserved v v :=
  ⟨rfl, le_refl _, fun _ _ => rfl⟩

omit [IsStrictOrderedRing K] in
theorem length_le_step (w : World Thread K) (e : Event Thread K) :
    w.returned.length ≤ (step w e).returned.length := by
  cases e with
  | tick elapsed => exact le_refl _
  | call t =>
    rw [step]
    split
    · split
      · exact Nat.le_succ _
      · exact le_refl _
    · exact le_refl _
    · exact le_refl _
  | turn t =>
    rw [step]
    split
    · unfold World.takeTurn
      dsimp only
      split
      · exact Nat.le_succ _
      · exact le_refl _
    · exact le_refl _
    · exact le_refl _
  | wake t =>
    rw [step]
    split
    · split <;> exact le_refl _
    · exact le_refl _
    · exact le_refl _

omit [IsStrictOrderedRing K] in
theorem length_le_run (w : World Thread K) (es : List (Event Thread K)) :
    w.returned.length ≤ (run step w es).returned.length :=
  run_inv (I := fun w' : World Thread K => w.returned.length ≤ w'.returned.length) step
    (fun w' e h => le_trans h (length_le_step w' e)) (le_refl w.returned.length) es

theorem step_unserved (hrate : 0 < rate) {v w : World Thread K} (hw : Sound capacity rate w)
    (h : Unserved v w) (e : Event Thread K)
    (hsame : (step w e).returned.length = w.returned.length) : Unserved v (step w e) := by
  cases e with
  | tick elapsed =>
    have hle : w.clock ≤ w.clock + elapsed.val := by linarith [elapsed.property]
    exact ⟨h.returned_eq, h.clock_le.trans hle, fun later hlater =>
      h.tokens_eq later (hle.trans hlater)⟩
  | call t =>
    rw [step] at hsame ⊢
    split
    · rw [hw.enabled]
      exact ⟨h.returned_eq, h.clock_le, h.tokens_eq⟩
    · exact h
    · exact h
  | turn t =>
    cases hphase : w.phase t with
    | idle => simpa only [step, hphase] using h
    | asleep u => simpa only [step, hphase] using h
    | ready =>
      simp only [step, hphase] at hsame ⊢
      unfold World.takeTurn at hsame ⊢
      rcases turn_cases w.limiter w.clock with ⟨_, heq⟩ | ⟨_, heq⟩
      · -- somebody is served here
        rw [heq] at hsame
        exact absurd hsame (Nat.succ_ne_self _)
      · rw [heq]
        refine ⟨h.returned_eq, h.clock_le, fun later hlater => ?_⟩
        have hpos : 0 ≤ w.limiter.rate := by
          rw [hw.rate_eq]
          exact le_of_lt hrate
        exact (Bucket.levelAt_refill hpos w.limiter.bucket hlater).trans (h.tokens_eq later hlater)
  | wake t =>
    rw [step]
    split
    · split
      · exact ⟨h.returned_eq, h.clock_le, h.tokens_eq⟩
      · exact h
    · exact h
    · exact h

theorem run_unserved (hrate : 0 < rate) {v : World Thread K} (fs : List (Event Thread K)) :
    ∀ {w : World Thread K}, Sound capacity rate w → Unserved v w →
      (run step w fs).returned = w.returned → Unserved v (run step w fs) := by
  induction fs with
  | nil =>
    intro w _ h _
    exact h
  | cons e fs ih =>
    intro w hw h hsame
    rw [run_cons] at hsame ⊢
    have hlen : (step w e).returned.length = w.returned.length := by
      have hup := length_le_step w e
      have hrest := length_le_run (step w e) fs
      rw [hsame] at hrest
      exact le_antisymm hrest hup
    have hnext := step_unserved hrate hw h e hlen
    exact ih (step_sound hrate w e hw) hnext
      (hsame.trans (h.returned_eq.trans hnext.returned_eq.symm))

/-! ## The limit -/

/-- At most `b` calls return in an instant, and `r` more in each unit of time. -/
def World.RateBounded (b r : K) (w : World Thread K) : Prop :=
  ∀ s T, 0 ≤ T → (w.returnsWithin s (s + T) : K) ≤ b + r * T

/-- A thread that a turn sends to sleep wakes at the first instant at which a call could
return, as long as no call returns in between. -/
def World.WaitsNoLonger (w : World Thread K) : Prop :=
  ∀ t until_, w.phase t = .ready → (step w (.turn t)).phase t = .asleep until_ →
    ∀ fs, (run step (step w (.turn t)) fs).returned = w.returned →
      ((run step (step w (.turn t)) fs).Serves ↔
        until_ ≤ (run step (step w (.turn t)) fs).clock)

omit [IsStrictOrderedRing K] [DecidableEq Thread] in
theorem Sound.rateBounded {w : World Thread K} (h : Sound capacity rate w) :
    w.RateBounded (capacity : K) rate := by
  intro s T hT
  have hbound := h.paid.bound s T hT
  rw [List.countP_map] at hbound
  exact hbound

theorem Sound.waitsNoLonger (hrate : 0 < rate) (hcap : 1 ≤ capacity) {w : World Thread K}
    (h : Sound capacity rate w) : w.WaitsNoLonger := by
  intro t until_ hready hasleep fs hsame
  have hstep : step w (.turn t) = w.takeTurn t := by
    simp only [step, hready]
  rw [hstep] at hasleep hsame ⊢
  have hsound := takeTurn_sound hrate h t
  rcases turn_cases w.limiter w.clock with ⟨_, heq⟩ | ⟨hlow, heq⟩
  · -- a thread that is served does not sleep
    unfold World.takeTurn at hasleep
    rw [heq] at hasleep
    simp [World.serve] at hasleep
  · have hafter : w.takeTurn t = { w with
        limiter := { w.limiter with
          tokens := w.limiter.tokensAt w.clock, lastRefill := w.clock }
        phase := fun t' => if t' = t then
            .asleep (w.clock + (1 - w.limiter.tokensAt w.clock) / w.limiter.rate)
          else w.phase t' } := by
      unfold World.takeTurn
      rw [heq]
      rfl
    have huntil : w.clock + (1 - w.limiter.tokensAt w.clock) / w.limiter.rate = until_ := by
      rw [hafter] at hasleep
      simpa using hasleep
    have hreturned : (w.takeTurn t).returned = w.returned := by rw [hafter]
    have hun := run_unserved hrate fs hsound (Unserved.refl _) (hsame.trans hreturned.symm)
    have hlater : w.clock ≤ (run step (w.takeTurn t) fs).clock := by
      have hclock : (w.takeTurn t).clock = w.clock := by rw [hafter]
      exact hclock ▸ hun.clock_le
    -- the tokens are what they would be without the turn
    have htokens : (run step (w.takeTurn t) fs).limiter.tokensAt
        (run step (w.takeTurn t) fs).clock =
          w.limiter.tokensAt (run step (w.takeTurn t) fs).clock := by
      rw [hun.tokens_eq _ (le_refl _)]
      have hlimiter : (w.takeTurn t).limiter = { w.limiter with
          tokens := w.limiter.tokensAt w.clock, lastRefill := w.clock } := by rw [hafter]
      rw [hlimiter]
      exact Bucket.levelAt_refill (by rw [h.rate_eq]; exact le_of_lt hrate)
        w.limiter.bucket hlater
    have hone : (1 : K) ≤ (w.limiter.capacity : K) := by
      rw [h.capacity_eq]
      exact_mod_cast hcap
    unfold World.Serves
    rw [turn_served_iff, htokens, ← huntil]
    exact Bucket.le_levelAt_iff (by rw [h.rate_eq]; exact hrate) hone hlow

theorem submitRate_bounded [FloorRing K] (r : K) (hr : 0 < r) (burst : Option Int) (now : K)
    (es : List (Event Thread K)) :
    (run step (World.start r burst now : World Thread K) es).RateBounded
        (effectiveBurst r burst : K) r ∧
      (run step (World.start r burst now : World Thread K) es).WaitsNoLonger :=
  have hsound := run_sound hr burst now es
  ⟨hsound.rateBounded, hsound.waitsNoLonger hr (le_max_left _ _)⟩

end

/-- Two threads call a limiter of rate 2 with one token; the second wakes for the next one. -/
def twoCalls : World Bool ℚ :=
  run step (World.start 2 (some 1) 0) [.call true, .call false, .turn true, .turn false,
    .tick ⟨1 / 2, by norm_num⟩, .wake false, .turn false]

theorem submitRate_twoCalls :
    twoCalls.RateBounded (effectiveBurst (2 : ℚ) (some 1) : ℚ) 2 ∧ twoCalls.WaitsNoLonger :=
  submitRate_bounded 2 (by norm_num) (some 1) 0 _

/-- A limiter with a burst of 0, and one call. -/
def oneCall : World Unit ℚ :=
  run step (World.start 1 (some 0) 0) [.call (), .turn ()]

/-- The call returns at once. -/
theorem burst_zero_serves : ¬ oneCall.RateBounded 0 1 := by
  intro h
  have hbound := h 0 0 (le_refl _)
  have hcount : oneCall.returnsWithin 0 (0 + 0) = 1 := by
    decide +kernel
  rw [hcount] at hbound
  norm_num at hbound

end OSimFlow.Executors.RateLimiter
