import OSimFlow.Lib.Prog

/-!
# Pre- and postconditions for programs

> `Triple h G P p Q E`: run by `h` from a state with `P`, and as long as every call
> meets `G` at the state it finds, `p` returns a value with `Q` or raises an exception
> with `E`.

One rule for each way to put a program together: `pure`, `throw`, `ask`, `bind`,
`tryCatch`, `if` and the loop `forM`, whose invariant speaks of the elements done so far.
-/

namespace OSimFlow.Lib.Prog

variable {Op : Type} {Ans : Op → Type} {ε α β σ : Type} {h : Handler Op Ans σ}
  {G : Op → σ → Prop}

theorem alongRun_bind {p : Prog Op Ans ε α} {f : α → Prog Op Ans ε β} {s : σ} :
    AlongRun h G (p >>= f) s ↔ AlongRun h G p s ∧
      ∀ a s', run h p s = (.ok a, s') → AlongRun h G (f a) s' := by
  show AlongRun h G (bind p f) s ↔ _
  induction p generalizing s with
  | ret r =>
    cases r with
    | ok a =>
      constructor
      · intro hf
        refine ⟨trivial, ?_⟩
        intro a' s' hr
        cases hr
        exact hf
      · intro hf
        exact hf.2 a s rfl
    | error e =>
      constructor
      · intro _
        exact ⟨trivial, fun _ _ hr => nomatch hr⟩
      · intro _
        trivial
  | call op k ih =>
    constructor
    · intro hb
      obtain ⟨hp, hf⟩ := ih _ |>.mp hb.2
      exact ⟨⟨hb.1, hp⟩, hf⟩
    · intro hb
      exact ⟨hb.1.1, (ih _).mpr ⟨hb.1.2, hb.2⟩⟩

theorem alongRun_tryCatch {p : Prog Op Ans ε α} {handler : ε → Prog Op Ans ε α} {s : σ} :
    AlongRun h G (tryCatch p handler) s ↔ AlongRun h G p s ∧
      ∀ e s', run h p s = (.error e, s') → AlongRun h G (handler e) s' := by
  show AlongRun h G (catching p handler) s ↔ _
  induction p generalizing s with
  | ret r =>
    cases r with
    | ok a =>
      constructor
      · intro _
        exact ⟨trivial, fun _ _ hr => nomatch hr⟩
      · intro _
        trivial
    | error e =>
      constructor
      · intro hf
        refine ⟨trivial, ?_⟩
        intro e' s' hr
        cases hr
        exact hf
      · intro hf
        exact hf.2 e s rfl
  | call op k ih =>
    constructor
    · intro hb
      obtain ⟨hp, hf⟩ := ih _ |>.mp hb.2
      exact ⟨⟨hb.1, hp⟩, hf⟩
    · intro hb
      exact ⟨hb.1.1, (ih _).mpr ⟨hb.1.2, hb.2⟩⟩

theorem AlongRun.mono {G' : Op → σ → Prop} (hG : ∀ op s, G' op s → G op s)
    {p : Prog Op Ans ε α} {s : σ} (hrun : AlongRun h G' p s) : AlongRun h G p s := by
  induction p generalizing s with
  | ret r => trivial
  | call op k ih => exact ⟨hG op s hrun.1, ih _ hrun.2⟩

/-- What holds when a run ends. -/
def Post (Q : α → σ → Prop) (E : ε → σ → Prop) : Except ε α × σ → Prop
  | (.ok a, s) => Q a s
  | (.error e, s) => E e s

theorem Post.mono {Q Q' : α → σ → Prop} {E : ε → σ → Prop} {out : Except ε α × σ}
    (hout : Post Q E out) (hQ : ∀ a s, Q a s → Q' a s) : Post Q' E out := by
  rcases out with ⟨r, s⟩
  cases r with
  | ok a => exact hQ a s hout
  | error e => exact hout

variable (h G) in
def Triple (P : σ → Prop) (p : Prog Op Ans ε α) (Q : α → σ → Prop) (E : ε → σ → Prop) : Prop :=
  ∀ s, P s → AlongRun h G p s → Post Q E (run h p s)

namespace Triple

variable {P A : σ → Prop} {p : Prog Op Ans ε α} {Q B : α → σ → Prop} {E F : ε → σ → Prop}

theorem conseq (hp : Triple h G P p Q E) (hP : ∀ s, A s → P s) (hQ : ∀ a s, Q a s → B a s)
    (hE : ∀ e s, E e s → F e s) : Triple h G A p B F := by
  intro s hs hG
  have hpost := hp s (hP s hs) hG
  rcases hr : run h p s with ⟨r, s'⟩
  rw [hr] at hpost
  cases r with
  | ok a => exact hQ a s' hpost
  | error e => exact hE e s' hpost

theorem strengthen (hp : Triple h G P p Q E) (hP : ∀ s, A s → P s) : Triple h G A p Q E :=
  hp.conseq hP (fun _ _ hq => hq) (fun _ _ he => he)

/-- A guard that says more. -/
theorem guard {G' : Op → σ → Prop} (hp : Triple h G P p Q E) (hG : ∀ op s, G' op s → G op s) :
    Triple h G' P p Q E :=
  fun s hs hrun => hp s hs (AlongRun.mono hG hrun)

theorem ret_ok {a : α} (ha : ∀ s, P s → Q a s) :
    Triple h G P (pure a : Prog Op Ans ε α) Q E :=
  fun s hs _ => ha s hs

theorem throw {e : ε} (he : ∀ s, P s → E e s) :
    Triple h G P (MonadExcept.throw e : Prog Op Ans ε α) Q E :=
  fun s hs _ => he s hs

theorem ask {op : Op} {Q : Ans op → σ → Prop}
    (hop : ∀ s, P s → G op s → Q (h op s).1 (h op s).2) :
    Triple h G P (Prog.ask op : Prog Op Ans ε (Ans op)) Q E :=
  fun s hs hG => hop s hs hG.1

theorem bind {R : β → σ → Prop} {f : α → Prog Op Ans ε β}
    (hp : Triple h G P p Q E) (hf : ∀ a, Triple h G (Q a) (f a) R E) :
    Triple h G P (p >>= f) R E := by
  intro s hs hG
  obtain ⟨hGp, hGf⟩ := alongRun_bind.mp hG
  have hpost := hp s hs hGp
  rw [run_bind]
  rcases hr : run h p s with ⟨r, s'⟩
  rw [hr] at hpost
  cases r with
  | ok a => exact hf a s' hpost (hGf a s' hr)
  | error e => exact hpost

theorem tryCatch {handler : ε → Prog Op Ans ε α}
    (hp : Triple h G P p Q F) (hf : ∀ e, Triple h G (F e) (handler e) Q E) :
    Triple h G P (MonadExcept.tryCatch p handler) Q E := by
  intro s hs hG
  obtain ⟨hGp, hGf⟩ := alongRun_tryCatch.mp hG
  have hpost := hp s hs hGp
  rw [run_tryCatch]
  rcases hr : run h p s with ⟨r, s'⟩
  rw [hr] at hpost
  cases r with
  | ok a => exact hpost
  | error e => exact hf e s' hpost (hGf e s' hr)

theorem ite {c : Prop} [Decidable c] {q : Prog Op Ans ε α} (hp : c → Triple h G P p Q E)
    (hq : ¬ c → Triple h G P q Q E) : Triple h G P (if c then p else q) Q E := by
  by_cases hc : c
  · rw [if_pos hc]
    exact hp hc
  · rw [if_neg hc]
    exact hq hc

/-- A loop with an invariant about the elements done. -/
theorem forM {l : List α} {f : α → Prog Op Ans ε PUnit} {I : List α → σ → Prop}
    (hf : ∀ done x rest, l = done ++ x :: rest →
      Triple h G (I done) (f x) (fun _ => I (done ++ [x])) E) :
    Triple h G (I []) (l.forM f) (fun _ => I l) E := by
  suffices hgen : ∀ rest done, l = done ++ rest →
      Triple h G (I done) (rest.forM f) (fun _ => I l) E from hgen l [] rfl
  intro rest
  induction rest with
  | nil =>
    intro done hl
    rw [List.append_nil] at hl
    subst hl
    exact ret_ok fun _ hs => hs
  | cons x rest ih =>
    intro done hl
    have hnext : l = (done ++ [x]) ++ rest := by rw [hl, List.append_assoc]; rfl
    exact bind (hf done x rest hl) fun _ => ih (done ++ [x]) hnext

/-- A postcondition at the end of a run without a guard. -/
theorem post (hp : Triple h (fun _ _ => True) P p Q E) {s : σ} (hs : P s) :
    Post Q E (run h p s) :=
  hp s hs (alongRun_of (fun _ _ => trivial) p s)

end Triple

end OSimFlow.Lib.Prog
