import Mathlib.Data.List.Basic

/-!
# Runs: a state machine taking one event after another

A machine is a function `step : σ → ε → σ`; a run is a list of events
folded through it. Two ways to speak about a run are set up here:

> `Always D s es`: the state property `D` holds in every state the run
> passes through, the first and the last included.
>
> `Along G s es`: the step property `G` holds of every event at the state
> it finds.

`always_inv` is the invariant rule. `always_iff_along` is the exact-guard
rule behind the "this is precisely when it goes wrong" results: if, under
an invariant, one step keeps `D` exactly when its guard `G` holds, then a
whole run stays inside `D` exactly when every one of its steps meets the
guard. `along_congr` is the same exchange for two step properties.
-/

namespace OSimFlow.Lib

variable {σ ε : Type} (step : σ → ε → σ)

/-- The state after the events `es`. -/
def run (s : σ) (es : List ε) : σ :=
  es.foldl step s

/-- `D` holds in every state of the run. -/
def Always (D : σ → Prop) : σ → List ε → Prop
  | s, [] => D s
  | s, e :: es => D s ∧ Always D (step s e) es

/-- `G` holds of every event of the run, at the state it is taken in. -/
def Along (G : σ → ε → Prop) : σ → List ε → Prop
  | _, [] => True
  | s, e :: es => G s e ∧ Along G (step s e) es

instance decidableAlong {G : σ → ε → Prop} [∀ s e, Decidable (G s e)] :
    (s : σ) → (es : List ε) → Decidable (Along step G s es)
  | _, [] => inferInstanceAs (Decidable True)
  | s, e :: es =>
    have := decidableAlong (G := G) (step s e) es
    inferInstanceAs (Decidable (G s e ∧ Along step G (step s e) es))

instance decidableAlways {D : σ → Prop} [DecidablePred D] :
    (s : σ) → (es : List ε) → Decidable (Always step D s es)
  | s, [] => inferInstanceAs (Decidable (D s))
  | s, e :: es =>
    have := decidableAlways (D := D) (step s e) es
    inferInstanceAs (Decidable (D s ∧ Always step D (step s e) es))

@[simp] theorem run_nil (s : σ) : run step s [] = s := rfl

@[simp] theorem run_cons (s : σ) (e : ε) (es : List ε) :
    run step s (e :: es) = run step (step s e) es := rfl

theorem run_append (s : σ) (es fs : List ε) :
    run step s (es ++ fs) = run step (run step s es) fs :=
  List.foldl_append

/-- `Always` is what it says: `D` at every prefix of the run. -/
theorem always_iff {D : σ → Prop} {s : σ} {es : List ε} :
    Always step D s es ↔ ∀ n, D (run step s (es.take n)) := by
  induction es generalizing s with
  | nil => simp [Always]
  | cons e es ih =>
    constructor
    · rintro ⟨hd, hr⟩ n
      cases n with
      | zero => exact hd
      | succ n => exact ih.mp hr n
    · intro h
      exact ⟨h 0, ih.mpr fun n => h (n + 1)⟩

theorem Always.last {D : σ → Prop} {s : σ} {es : List ε}
    (h : Always step D s es) : D (run step s es) := by
  have := (always_iff step).mp h es.length
  rwa [List.take_length] at this

/-- The invariant rule: what the first state has and every step keeps holds
throughout. -/
theorem always_inv {I : σ → Prop} (hstep : ∀ s e, I s → I (step s e)) {s : σ}
    (h : I s) (es : List ε) : Always step I s es := by
  induction es generalizing s with
  | nil => exact h
  | cons e es ih => exact ⟨h, ih (hstep s e h)⟩

theorem run_inv {I : σ → Prop} (hstep : ∀ s e, I s → I (step s e)) {s : σ}
    (h : I s) (es : List ε) : I (run step s es) :=
  (always_inv step hstep h es).last

/-- The invariant rule for runs over events of one kind. -/
theorem run_inv_of {I : σ → Prop} {K : ε → Prop}
    (hstep : ∀ s e, K e → I s → I (step s e)) {s : σ} (h : I s) {es : List ε}
    (hes : ∀ e ∈ es, K e) : I (run step s es) := by
  induction es generalizing s with
  | nil => exact h
  | cons e es ih =>
    exact ih (hstep s e (hes e List.mem_cons_self) h)
      fun e' he => hes e' (List.mem_cons_of_mem _ he)

theorem Always.mono {D E : σ → Prop} (hDE : ∀ s, D s → E s) {s : σ} {es : List ε}
    (h : Always step D s es) : Always step E s es := by
  induction es generalizing s with
  | nil => exact hDE s h
  | cons e es ih => exact ⟨hDE s h.1, ih h.2⟩

/-- Two state properties that agree under an invariant agree along runs. -/
theorem Always.congr {I D E : σ → Prop} (h : ∀ s, I s → (D s ↔ E s)) {s : σ} {es : List ε}
    (hi : Always step I s es) : Always step D s es ↔ Always step E s es := by
  rw [always_iff] at hi ⊢
  rw [always_iff]
  exact forall_congr' fun n => h _ (hi n)

/-- The guard rule: what every guarded step keeps, a guarded run keeps. -/
theorem Along.always {I : σ → Prop} {G : σ → ε → Prop}
    (hstep : ∀ s e, I s → G s e → I (step s e)) {s : σ} (hi : I s) {es : List ε}
    (h : Along step G s es) : Always step I s es := by
  induction es generalizing s with
  | nil => exact hi
  | cons e es ih => exact ⟨hi, ih (hstep s e hi h.1) h.2⟩

/-- The same for a step property that the guard and the invariant give. -/
theorem Along.imp {I : σ → Prop} {G H : σ → ε → Prop}
    (hstep : ∀ s e, I s → G s e → I (step s e)) (hGH : ∀ s e, I s → G s e → H s e) {s : σ}
    (hi : I s) {es : List ε} (h : Along step G s es) : Along step H s es := by
  induction es generalizing s with
  | nil => trivial
  | cons e es ih => exact ⟨hGH s e hi h.1, ih (hstep s e hi h.1) h.2⟩

/-- What every step meets, every run does. -/
theorem along_of_forall {G : σ → ε → Prop} (h : ∀ s e, G s e) (s : σ) (es : List ε) :
    Along step G s es := by
  induction es generalizing s with
  | nil => trivial
  | cons e es ih => exact ⟨h s e, ih (step s e)⟩

/-- The exact-guard rule: under an invariant `I`, if a step keeps `D`
exactly when it meets `G`, a run keeps `D` exactly when all its steps do. `I` has to be
kept in `D` only. -/
theorem always_iff_along_within {I D : σ → Prop} {G : σ → ε → Prop}
    (hI : ∀ s e, I s → D s → I (step s e))
    (hG : ∀ s e, I s → D s → (D (step s e) ↔ G s e))
    {s : σ} (hi : I s) (hd : D s) (es : List ε) :
    Always step D s es ↔ Along step G s es := by
  induction es generalizing s with
  | nil => exact ⟨fun _ => trivial, fun _ => hd⟩
  | cons e es ih =>
    have hstep := hG s e hi hd
    constructor
    · rintro ⟨-, hr⟩
      have hd' : D (step s e) := by
        cases es with
        | nil => exact hr
        | cons e' es => exact hr.1
      exact ⟨hstep.mp hd', (ih (hI s e hi hd) hd').mp hr⟩
    · rintro ⟨hg, hr⟩
      have hd' := hstep.mpr hg
      exact ⟨hd, (ih (hI s e hi hd) hd').mpr hr⟩

theorem always_iff_along {I D : σ → Prop} {G : σ → ε → Prop}
    (hI : ∀ s e, I s → I (step s e))
    (hG : ∀ s e, I s → D s → (D (step s e) ↔ G s e))
    {s : σ} (hi : I s) (hd : D s) (es : List ε) :
    Always step D s es ↔ Along step G s es :=
  always_iff_along_within step (fun s e hi _ => hI s e hi) hG hi hd es

/-- The exact-guard rule for runs whose events are known to meet `K`. -/
theorem always_iff_along_given {I D : σ → Prop} {G K : σ → ε → Prop}
    (hI : ∀ s e, I s → K s e → I (step s e))
    (hG : ∀ s e, I s → K s e → D s → (D (step s e) ↔ G s e))
    {s : σ} (hi : I s) (hd : D s) {es : List ε} (hk : Along step K s es) :
    Always step D s es ↔ Along step G s es := by
  induction es generalizing s with
  | nil => exact ⟨fun _ => trivial, fun _ => hd⟩
  | cons e es ih =>
    have hstep := hG s e hi hk.1 hd
    have hi' := hI s e hi hk.1
    constructor
    · rintro ⟨-, hr⟩
      have hd' : D (step s e) := ((always_iff step).mp hr) 0
      exact ⟨hstep.mp hd', (ih hi' hd' hk.2).mp hr⟩
    · rintro ⟨hg, hr⟩
      have hd' := hstep.mpr hg
      exact ⟨hd, (ih hi' hd' hk.2).mpr hr⟩

/-- Two step properties that agree under an invariant agree along runs. -/
theorem along_congr {I : σ → Prop} {G H : σ → ε → Prop}
    (hI : ∀ s e, I s → I (step s e)) (h : ∀ s e, I s → (G s e ↔ H s e))
    {s : σ} (hi : I s) (es : List ε) :
    Along step G s es ↔ Along step H s es := by
  induction es generalizing s with
  | nil => exact Iff.rfl
  | cons e es ih => exact and_congr (h s e hi) (ih (hI s e hi))

theorem along_append {G : σ → ε → Prop} (s : σ) (es fs : List ε) :
    Along step G s (es ++ fs) ↔ Along step G s es ∧ Along step G (run step s es) fs := by
  induction es generalizing s with
  | nil => exact ⟨fun h => ⟨trivial, h⟩, fun h => h.2⟩
  | cons e es ih =>
    rw [List.cons_append, Along, Along, ih (step s e), and_assoc]
    rfl

/-- A run seen through a map that the steps commute with. -/
theorem along_map {τ : Type} {step' : τ → ε → τ} (f : τ → σ)
    (hf : ∀ t e, step (f t) e = f (step' t e)) (G : σ → ε → Prop) (t : τ) (es : List ε) :
    Along step G (f t) es ↔ Along step' (fun t e => G (f t) e) t es := by
  induction es generalizing t with
  | nil => exact Iff.rfl
  | cons e es ih =>
    rw [Along, Along, hf]
    exact and_congr Iff.rfl (ih (step' t e))

theorem along_and {G H : σ → ε → Prop} (s : σ) (es : List ε) :
    Along step (fun s e => G s e ∧ H s e) s es ↔ Along step G s es ∧ Along step H s es := by
  induction es generalizing s with
  | nil => exact ⟨fun _ => ⟨trivial, trivial⟩, fun _ => trivial⟩
  | cons e es ih =>
    simp only [Along]
    rw [ih (step s e)]
    exact and_and_and_comm

theorem along_forall {ι : Sort*} {G : ι → σ → ε → Prop} (s : σ) (es : List ε) :
    (∀ i, Along step (G i) s es) ↔ Along step (fun s e => ∀ i, G i s e) s es := by
  induction es generalizing s with
  | nil => exact ⟨fun _ => trivial, fun _ _ => trivial⟩
  | cons e es ih =>
    simp only [Along]
    rw [← ih (step s e)]
    exact forall_and

end OSimFlow.Lib
