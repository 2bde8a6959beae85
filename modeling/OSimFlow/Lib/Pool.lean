import Mathlib.Logic.Function.Basic
import Mathlib.Data.List.Basic
import OSimFlow.Lib.Prog

/-!
# A thread pool: programs taking turns on a shared state

A pool holds one program per task. It starts the queued ones in submission
order, as long as fewer than its maximum are running, and its running ones
advance one call at a time, in any order — so a run of a pool is one of the
interleavings of its programs. A finished thread keeps its result, the way
a future does; a queued one can be cancelled, a running one cannot.

Tasks that keep to a protocol each have a phase, which their calls move
(`Follows`). The theorem of this file is about tasks that keep to themselves.
If a task's calls only read and write its own component of the shared state, then
whatever the schedule, each finished task ended exactly as it would have
alone (`OnTrack`, kept by every step): its result and its component are those
of `Prog.run`. This is what makes "for every completion order" one run.
-/

namespace OSimFlow.Lib

variable {ι Op : Type} {Ans : Op → Type} {ε α σ τ : Type}

/-- A task of the pool. -/
inductive Thread (Op : Type) (Ans : Op → Type) (ε α : Type) where
  | queued (p : Prog Op Ans ε α)
  | running (p : Prog Op Ans ε α)
  | finished (r : Except ε α)
  | cancelled

namespace Thread

def isQueued : Thread Op Ans ε α → Bool
  | queued _ => true
  | _ => false

def isRunning : Thread Op Ans ε α → Bool
  | running _ => true
  | _ => false

/-- `future.done()`: finished, or cancelled before it started. -/
def isDone : Thread Op Ans ε α → Bool
  | finished _ | cancelled => true
  | _ => false

/-- `future.cancel()`. -/
def cancel : Thread Op Ans ε α → Thread Op Ans ε α
  | queued _ => cancelled
  | t => t

/-- The task is somewhere on the run its program `p₀` makes alone from `s₀`,
and its component has the value this run has given it by now. -/
def OnTrack (h : Prog.Handler Op Ans τ) (p₀ : Prog Op Ans ε α) (s₀ : τ) :
    Thread Op Ans ε α → τ → Prop
  | queued p, s => p = p₀ ∧ s = s₀
  | running p, s => Prog.run h p s = Prog.run h p₀ s₀
  | finished r, s => Prog.run h p₀ s₀ = (r, s)
  | cancelled, s => s = s₀

end Thread

/-- The pool: what its tasks share, the order of submission, the tasks. -/
structure Pool (ι Op : Type) (Ans : Op → Type) (ε α σ : Type) where
  shared : σ
  order : List ι
  threads : ι → Thread Op Ans ε α

namespace Pool

/-- Everything submitted, nothing started. -/
def submit (order : List ι) (progs : ι → Prog Op Ans ε α) (s : σ) :
    Pool ι Op Ans ε α σ :=
  ⟨s, order, fun i => .queued (progs i)⟩

variable [DecidableEq ι]

/-- The pool picks up the next queued task, if it has a free worker. -/
def start (maxWorkers : Nat) (pool : Pool ι Op Ans ε α σ) : Pool ι Op Ans ε α σ :=
  if pool.order.countP (fun i => (pool.threads i).isRunning) < maxWorkers then
    match pool.order.find? (fun i => (pool.threads i).isQueued) with
    | none => pool
    | some i =>
      match pool.threads i with
      | .queued p => { pool with threads := Function.update pool.threads i (.running p) }
      | _ => pool
  else pool

/-- Task `i` makes its next call, or delivers its result. -/
def advance (h : ι → Prog.Handler Op Ans σ) (i : ι) (pool : Pool ι Op Ans ε α σ) :
    Pool ι Op Ans ε α σ :=
  match pool.threads i with
  | .running (.ret r) =>
    { pool with threads := Function.update pool.threads i (.finished r) }
  | .running (.call op k) =>
    { pool with
      shared := (h i op pool.shared).2
      threads := Function.update pool.threads i
        (.running (k (h i op pool.shared).1)) }
  | _ => pool

/-- `future.cancel()` on every task. -/
def cancelQueued (pool : Pool ι Op Ans ε α σ) : Pool ι Op Ans ε α σ :=
  { pool with threads := fun i => (pool.threads i).cancel }

/-- Every submitted task is finished or cancelled. -/
def allDone (pool : Pool ι Op Ans ε α σ) : Bool :=
  pool.order.all fun i => (pool.threads i).isDone

@[simp] theorem start_shared (maxWorkers : Nat) (pool : Pool ι Op Ans ε α σ) :
    (pool.start maxWorkers).shared = pool.shared := by
  unfold start
  split
  · split
    · rfl
    · split <;> rfl
  · rfl

@[simp] theorem start_order (maxWorkers : Nat) (pool : Pool ι Op Ans ε α σ) :
    (pool.start maxWorkers).order = pool.order := by
  unfold start
  split
  · split
    · rfl
    · split <;> rfl
  · rfl

@[simp] theorem advance_order (h : ι → Prog.Handler Op Ans σ) (i : ι)
    (pool : Pool ι Op Ans ε α σ) : (pool.advance h i).order = pool.order := by
  unfold advance
  split <;> rfl

/-- What starting does: nothing, or one queued task runs. -/
theorem start_cases (maxWorkers : Nat) (pool : Pool ι Op Ans ε α σ) :
    pool.start maxWorkers = pool ∨
      ∃ i p, i ∈ pool.order ∧ pool.threads i = .queued p ∧
        pool.start maxWorkers =
          { pool with threads := Function.update pool.threads i (.running p) } := by
  unfold start
  split
  · split
    · exact Or.inl rfl
    next i hfind =>
      cases hi : pool.threads i with
      | queued p => exact Or.inr ⟨i, p, List.mem_of_find?_eq_some hfind, hi, rfl⟩
      | running p => exact Or.inl rfl
      | finished r => exact Or.inl rfl
      | cancelled => exact Or.inl rfl
  · exact Or.inl rfl

/-- What advancing does: nothing, a result, or one call. -/
theorem advance_cases (h : ι → Prog.Handler Op Ans σ) (i : ι)
    (pool : Pool ι Op Ans ε α σ) :
    pool.advance h i = pool ∨
      (∃ r, pool.threads i = .running (.ret r) ∧ pool.advance h i =
        { pool with threads := Function.update pool.threads i (.finished r) }) ∨
      (∃ op k, pool.threads i = .running (.call op k) ∧ pool.advance h i =
        { pool with
          shared := (h i op pool.shared).2
          threads := Function.update pool.threads i
            (.running (k (h i op pool.shared).1)) }) := by
  unfold advance
  split
  next r hr => exact Or.inr (Or.inl ⟨r, hr, rfl⟩)
  next op k hk => exact Or.inr (Or.inr ⟨op, k, hk, rfl⟩)
  · exact Or.inl rfl

/-! ## Done is done -/

theorem start_done {maxWorkers : Nat} {pool : Pool ι Op Ans ε α σ} {i : ι}
    (h : (pool.threads i).isDone = true) :
    (pool.start maxWorkers).threads i = pool.threads i := by
  rcases start_cases maxWorkers pool with hs | ⟨j, p, -, hj, hs⟩
  · rw [hs]
  · have hij : i ≠ j := by
      rintro rfl
      rw [hj] at h
      exact nomatch h
    rw [hs]
    exact Function.update_of_ne hij _ _

theorem advance_done {h : ι → Prog.Handler Op Ans σ} {pool : Pool ι Op Ans ε α σ}
    {i j : ι} (hi : (pool.threads i).isDone = true) :
    (pool.advance h j).threads i = pool.threads i := by
  rcases advance_cases h j pool with hs | ⟨r, hj, hs⟩ | ⟨op, k, hj, hs⟩
  · rw [hs]
  all_goals
    have hij : i ≠ j := by
      rintro rfl
      rw [hj] at hi
      exact nomatch hi
    rw [hs]
    exact Function.update_of_ne hij _ _

theorem start_allDone {maxWorkers : Nat} {pool : Pool ι Op Ans ε α σ}
    (h : pool.allDone = true) : (pool.start maxWorkers).allDone = true := by
  rw [allDone, List.all_eq_true] at h ⊢
  intro i hi
  rw [start_order] at hi
  rw [start_done (h i hi)]
  exact h i hi

theorem advance_allDone {h : ι → Prog.Handler Op Ans σ} {pool : Pool ι Op Ans ε α σ}
    {j : ι} (hd : pool.allDone = true) : (pool.advance h j).allDone = true := by
  rw [allDone, List.all_eq_true] at hd ⊢
  intro i hi
  rw [advance_order] at hi
  rw [advance_done (hd i hi)]
  exact hd i hi

/-! ## Tasks that keep to a protocol -/

section Follows

variable {Ph : Type} {A : (op : Op) → Ans op → Prop} {P : Prog.Protocol Ph Op Ans ε}

/-- Every task is in its phase of the protocol. -/
def Follows (A : (op : Op) → Ans op → Prop) (P : Prog.Protocol Ph Op Ans ε)
    (phase : ι → Ph) (pool : Pool ι Op Ans ε α σ) : Prop :=
  ∀ i, match pool.threads i with
    | .queued p | .running p => Prog.Follows A P (phase i) p
    | .finished r => P.ends (phase i) (Prog.raised r)
    | .cancelled => True

variable {phase : ι → Ph} {pool : Pool ι Op Ans ε α σ}

theorem Follows.start (hf : Follows A P phase pool) (maxWorkers : Nat) :
    Follows A P phase (pool.start maxWorkers) := by
  rcases start_cases maxWorkers pool with hs | ⟨i, p, -, hi, hs⟩
  · rwa [hs]
  · intro j
    have hj := hf j
    by_cases hji : j = i
    · subst hji
      rw [hi] at hj
      simpa only [hs, Function.update_self] using hj
    · simpa only [hs, Function.update_of_ne hji] using hj

omit [DecidableEq ι] in
theorem Follows.cancelQueued (hf : Follows A P phase pool) :
    Follows A P phase pool.cancelQueued := by
  intro j
  have hj := hf j
  show match (pool.threads j).cancel with
    | .queued p | .running p => Prog.Follows A P (phase j) p
    | .finished r => P.ends (phase j) (Prog.raised r)
    | .cancelled => True
  cases ht : pool.threads j with
  | queued p => trivial
  | cancelled => trivial
  | running p =>
    rw [ht] at hj
    exact hj
  | finished r =>
    rw [ht] at hj
    exact hj

theorem Follows.deliver (hf : Follows A P phase pool) {i : ι} {r : Except ε α}
    (hi : pool.threads i = .running (.ret r)) :
    Follows A P phase
      { pool with threads := Function.update pool.threads i (.finished r) } := by
  intro j
  have hj := hf j
  by_cases hji : j = i
  · subst hji
    rw [hi] at hj
    have hend : P.ends (phase j) (Prog.raised r) := hj
    simpa only [Function.update_self] using hend
  · simpa only [Function.update_of_ne hji] using hj

/-- A call moves the caller to the next phase. -/
theorem Follows.call (hf : Follows A P phase pool) {i : ι} {op : Op}
    {k : Ans op → Prog Op Ans ε α} (hi : pool.threads i = .running (.call op k))
    {x : Ans op} (hx : A op x) :
    ∃ phase', P.next (phase i) op x = some phase' ∧ ∀ s : σ,
      Follows A P (Function.update phase i phase')
        { pool with
          shared := s
          threads := Function.update pool.threads i (.running (k x)) } := by
  have hfi := hf i
  rw [hi] at hfi
  obtain ⟨phase', hnext, hk⟩ := hfi x hx
  refine ⟨phase', hnext, fun s j => ?_⟩
  by_cases hji : j = i
  · subst hji
    simpa only [Function.update_self] using hk
  · simpa only [Function.update_of_ne hji] using hf j

end Follows

/-! ## Tasks that keep to themselves -/

/-- The handler of a pool whose tasks each have a component of their own. -/
def localHandler (h : ι → Prog.Handler Op Ans τ) : ι → Prog.Handler Op Ans (ι → τ) :=
  fun i op s => ((h i op (s i)).1, Function.update s i (h i op (s i)).2)

/-- A task run to its end touches its own component only. -/
theorem run_localHandler (h : ι → Prog.Handler Op Ans τ) (i : ι) (p : Prog Op Ans ε α)
    (s : ι → τ) :
    Prog.run (localHandler h i) p s =
      ((Prog.run (h i) p (s i)).1, Function.update s i (Prog.run (h i) p (s i)).2) := by
  induction p generalizing s with
  | ret r => simp
  | call op k ih => simp only [Prog.run, ih, localHandler, Function.update_self,
      Function.update_idem]

/-- Every task is somewhere on its own, undisturbed run. -/
def OnTrack (h : ι → Prog.Handler Op Ans τ) (progs : ι → Prog Op Ans ε α) (s₀ : ι → τ)
    (pool : Pool ι Op Ans ε α (ι → τ)) : Prop :=
  ∀ i, (pool.threads i).OnTrack (h i) (progs i) (s₀ i) (pool.shared i)

variable {h : ι → Prog.Handler Op Ans τ} {progs : ι → Prog Op Ans ε α} {s₀ : ι → τ}
  {pool : Pool ι Op Ans ε α (ι → τ)}

omit [DecidableEq ι] in
theorem submit_onTrack (order : List ι) : OnTrack h progs s₀ (submit order progs s₀) :=
  fun _ => ⟨rfl, rfl⟩

/-- Changing one task and its component keeps the others on track. -/
theorem update_onTrack (ht : OnTrack h progs s₀ pool) {i : ι} {t : Thread Op Ans ε α}
    {s : τ} (hi : t.OnTrack (h i) (progs i) (s₀ i) s) :
    OnTrack h progs s₀ { pool with
      shared := Function.update pool.shared i s
      threads := Function.update pool.threads i t } := by
  intro j
  by_cases hj : j = i
  · subst hj
    simpa only [Function.update_self] using hi
  · simpa only [Function.update_of_ne hj] using ht j

theorem start_onTrack (maxWorkers : Nat) (ht : OnTrack h progs s₀ pool) :
    OnTrack h progs s₀ (pool.start maxWorkers) := by
  rcases start_cases maxWorkers pool with hs | ⟨i, p, -, hi, hs⟩
  · rwa [hs]
  · have hti := ht i
    rw [hi] at hti
    obtain ⟨rfl, hsi⟩ := hti
    rw [hs, ← Function.update_eq_self i pool.shared]
    refine update_onTrack ht ?_
    rw [hsi]
    rfl

theorem advance_onTrack (i : ι) (ht : OnTrack h progs s₀ pool) :
    OnTrack h progs s₀ (pool.advance (localHandler h) i) := by
  have hti := ht i
  rcases advance_cases (localHandler h) i pool with hs | ⟨r, hi, hs⟩ | ⟨op, k, hi, hs⟩
  · rwa [hs]
  · rw [hi] at hti
    rw [hs, ← Function.update_eq_self i pool.shared]
    exact update_onTrack ht hti.symm
  · rw [hi] at hti
    rw [hs]
    exact update_onTrack ht hti

omit [DecidableEq ι] in
/-- A finished task ended as it would have alone. -/
theorem OnTrack.finished (ht : OnTrack h progs s₀ pool) {i : ι} {r : Except ε α}
    (hi : pool.threads i = .finished r) :
    Prog.run (h i) (progs i) (s₀ i) = (r, pool.shared i) := by
  have hti := ht i
  rw [hi] at hti
  exact hti

end Pool

end OSimFlow.Lib
