import Mathlib.Logic.Basic

/-!
# Programs that call their surroundings and may raise

A `Prog` is what a function with callbacks does, before anything is said
about the callbacks: it finishes with a value or an exception, or it makes a
call and goes on with the answer. Written with `do`, `throw` and `tryCatch`
it reads like the source; being a tree, it can be run to the end by a
handler (`run`) or one call at a time between those of other programs
(`Pool.lean`) — and both are about the same program.

`run_bind` and `run_tryCatch` evaluate a program block by block.
`Follows A P phase p` says that `p` keeps to a protocol `P` — which calls may
come in which phase, and with what the program may end there — as long as its
calls are answered in `A`. It is proved along the text of the program
(`Follows.bind`, `Follows.tryCatch`) and used where the program runs
(`Follows.run_inv`).
-/

namespace OSimFlow.Lib

/-- A program over the operations `Op`, answered in `Ans`, raising `ε`. -/
inductive Prog (Op : Type) (Ans : Op → Type) (ε α : Type) : Type where
  | ret (r : Except ε α)
  | call (op : Op) (k : Ans op → Prog Op Ans ε α)

namespace Prog

variable {Op : Type} {Ans : Op → Type} {ε α β σ : Type}

/-- Go on with `f` after a normal end. -/
def bind : Prog Op Ans ε α → (α → Prog Op Ans ε β) → Prog Op Ans ε β
  | ret (.ok a), f => f a
  | ret (.error e), _ => ret (.error e)
  | call op k, f => call op fun x => bind (k x) f

/-- Go on with `handler` after an exception. -/
def catching : Prog Op Ans ε α → (ε → Prog Op Ans ε α) → Prog Op Ans ε α
  | ret (.ok a), _ => ret (.ok a)
  | ret (.error e), handler => handler e
  | call op k, handler => call op fun x => catching (k x) handler

instance : Monad (Prog Op Ans ε) where
  pure a := ret (.ok a)
  bind := bind

instance : MonadExceptOf ε (Prog Op Ans ε) where
  throw e := ret (.error e)
  tryCatch := catching

/-- One call, and its answer. -/
def ask (op : Op) : Prog Op Ans ε (Ans op) :=
  call op fun x => ret (.ok x)

/-! ## Running to the end -/

/-- What a call does: the answer, and the state it leaves. -/
abbrev Handler (Op : Type) (Ans : Op → Type) (σ : Type) :=
  (op : Op) → σ → Ans op × σ

/-- Run with every call answered by `h`. -/
def run (h : Handler Op Ans σ) : Prog Op Ans ε α → σ → Except ε α × σ
  | ret r, s => (r, s)
  | call op k, s => run h (k (h op s).1) (h op s).2

variable (h : Handler Op Ans σ)

@[simp] theorem run_pure (a : α) (s : σ) :
    run h (pure a : Prog Op Ans ε α) s = (.ok a, s) := rfl

@[simp] theorem run_ret (r : Except ε α) (s : σ) :
    run h (ret r : Prog Op Ans ε α) s = (r, s) := rfl

@[simp] theorem run_throw (e : ε) (s : σ) :
    run h (throw e : Prog Op Ans ε α) s = (.error e, s) := rfl

@[simp] theorem run_ask (op : Op) (s : σ) :
    run h (ask op : Prog Op Ans ε (Ans op)) s = (.ok (h op s).1, (h op s).2) := rfl

theorem run_bind (p : Prog Op Ans ε α) (f : α → Prog Op Ans ε β) (s : σ) :
    run h (p >>= f) s =
      match run h p s with
      | (.ok a, s') => run h (f a) s'
      | (.error e, s') => (.error e, s') := by
  show run h (bind p f) s = _
  induction p generalizing s with
  | ret r => cases r <;> rfl
  | call op k ih => exact ih _ _

theorem run_tryCatch (p : Prog Op Ans ε α) (handler : ε → Prog Op Ans ε α) (s : σ) :
    run h (tryCatch p handler) s =
      match run h p s with
      | (.ok a, s') => (.ok a, s')
      | (.error e, s') => run h (handler e) s' := by
  show run h (catching p handler) s = _
  induction p generalizing s with
  | ret r => cases r <;> rfl
  | call op k ih => exact ih _ _

theorem bind_assoc {γ : Type} (p : Prog Op Ans ε α) (f : α → Prog Op Ans ε β)
    (g : β → Prog Op Ans ε γ) : (p >>= f) >>= g = p >>= fun a => f a >>= g := by
  show bind (bind p f) g = bind p fun a => bind (f a) g
  induction p with
  | ret r => cases r <;> rfl
  | call op k ih => exact congrArg (call op) (funext ih)

/-- What every call preserves, a run preserves. -/
theorem run_inv {I : σ → Prop} (hI : ∀ op s, I s → I (h op s).2)
    (p : Prog Op Ans ε α) {s : σ} (hs : I s) : I (run h p s).2 := by
  induction p generalizing s with
  | ret r => exact hs
  | call op k ih => exact ih _ (hI op s hs)

/-- The calls of a run, with their answers. -/
def calls : Prog Op Ans ε α → σ → List (Sigma Ans)
  | ret _, _ => []
  | call op k, s => ⟨op, (h op s).1⟩ :: calls (k (h op s).1) (h op s).2

/-- A view of the state on which a call acts by itself and its answer: a run acts on it
by its calls. -/
theorem view_run {τ : Type} (view : σ → τ) (act : (op : Op) → Ans op → τ → τ)
    (hact : ∀ op s, view (h op s).2 = act op (h op s).1 (view s)) (p : Prog Op Ans ε α) (s : σ) :
    view (run h p s).2 = (calls h p s).foldl (fun t c => act c.1 c.2 t) (view s) := by
  induction p generalizing s with
  | ret r => rfl
  | call op k ih =>
    rw [run, calls, List.foldl_cons, ih, hact]

/-! ## Call protocols -/

/-- The exception a result carries, if any. -/
def raised : Except ε α → Option ε
  | .ok _ => none
  | .error e => some e

/-- A protocol: which calls each phase allows and where an answer leads, and
how a program may end in a phase. -/
structure Protocol (Ph Op : Type) (Ans : Op → Type) (ε : Type) where
  next : Ph → (op : Op) → Ans op → Option Ph
  ends : Ph → Option ε → Prop

variable {Ph : Type} {A : (op : Op) → Ans op → Prop} {P Q : Protocol Ph Op Ans ε}

/-- From `phase` on the program keeps to the protocol, as long as its calls
are answered in `A`. -/
def Follows (A : (op : Op) → Ans op → Prop) (P : Protocol Ph Op Ans ε) :
    Ph → Prog Op Ans ε α → Prop
  | phase, ret r => P.ends phase (raised r)
  | phase, call op k => ∀ x, A op x → ∃ phase', P.next phase op x = some phase' ∧
      Follows A P phase' (k x)

theorem Follows.pure {phase : Ph} (h : P.ends phase none) (a : α) :
    Follows A P phase (Pure.pure a : Prog Op Ans ε α) := h

theorem Follows.throw {phase : Ph} {e : ε} (h : P.ends phase (some e)) :
    Follows A P phase (MonadExcept.throw e : Prog Op Ans ε α) := h

theorem Follows.ask {phase : Ph} {op : Op}
    (h : ∀ x, A op x → ∃ phase', P.next phase op x = some phase' ∧ P.ends phase' none) :
    Follows A P phase (ask op : Prog Op Ans ε (Ans op)) := h

/-- In sequence: the first part may end where the second can start. -/
theorem Follows.bind {phase : Ph} {p : Prog Op Ans ε α} {f : α → Prog Op Ans ε β}
    (hp : Follows A Q phase p) (hnext : Q.next = P.next)
    (herr : ∀ phase e, Q.ends phase (some e) → P.ends phase (some e))
    (hf : ∀ phase a, Q.ends phase none → Follows A P phase (f a)) :
    Follows A P phase (p >>= f) := by
  show Follows A P phase (Prog.bind p f)
  induction p generalizing phase with
  | ret r =>
    cases r with
    | ok a => exact hf phase a hp
    | error e => exact herr phase e hp
  | call op k ih =>
    intro x hx
    obtain ⟨phase', hphase, hk⟩ := hp x hx
    exact ⟨phase', hnext ▸ hphase, ih x hk⟩

/-- In a `try`: the body may raise where the handler can start. -/
theorem Follows.tryCatch {phase : Ph} {p : Prog Op Ans ε α} {handler : ε → Prog Op Ans ε α}
    (hp : Follows A Q phase p) (hnext : Q.next = P.next)
    (hok : ∀ phase, Q.ends phase none → P.ends phase none)
    (hf : ∀ phase e, Q.ends phase (some e) → Follows A P phase (handler e)) :
    Follows A P phase (MonadExcept.tryCatch p handler) := by
  show Follows A P phase (catching p handler)
  induction p generalizing phase with
  | ret r =>
    cases r with
    | ok a => exact hok phase hp
    | error e => exact hf phase e hp
  | call op k ih =>
    intro x hx
    obtain ⟨phase', hphase, hk⟩ := hp x hx
    exact ⟨phase', hnext ▸ hphase, ih x hk⟩

/-- Every call made by a run meets `G` at the state it finds. -/
def AlongRun (h : Handler Op Ans σ) (G : Op → σ → Prop) : Prog Op Ans ε α → σ → Prop
  | ret _, _ => True
  | call op k, s => G op s ∧ AlongRun h G (k (h op s).1) (h op s).2

instance decidableAlongRun {h : Handler Op Ans σ} {G : Op → σ → Prop}
    [∀ op s, Decidable (G op s)] :
    (p : Prog Op Ans ε α) → (s : σ) → Decidable (AlongRun h G p s)
  | ret _, _ => inferInstanceAs (Decidable True)
  | call op k, s =>
    have := decidableAlongRun (h := h) (G := G) (k (h op s).1) (h op s).2
    inferInstanceAs (Decidable (G op s ∧ AlongRun h G (k (h op s).1) (h op s).2))

/-- The rule for protocols: what relates a phase to the state and is kept by
every call that the protocol allows and `G` admits, relates the last phase to
the last state. -/
theorem Follows.run_inv {G : Op → σ → Prop} {I : Ph → σ → Prop}
    (hA : ∀ op s, A op (h op s).1)
    (hI : ∀ phase phase' op s, I phase s → P.next phase op (h op s).1 = some phase' →
      G op s → I phase' (h op s).2)
    {phase : Ph} {p : Prog Op Ans ε α} (hp : Follows A P phase p) {s : σ}
    (hs : I phase s) (hG : AlongRun h G p s) :
    ∃ phase', P.ends phase' (raised (run h p s).1) ∧ I phase' (run h p s).2 := by
  induction p generalizing phase s with
  | ret r => exact ⟨phase, hp, hs⟩
  | call op k ih =>
    obtain ⟨phase', hphase, hk⟩ := hp _ (hA op s)
    exact ih _ hk (hI phase phase' op s hs hphase hG.1) hG.2

/-- The same rule for what holds of the calls themselves, where `C` holds of them. -/
theorem Follows.alongRun {C G : Op → σ → Prop} {I : Ph → σ → Prop}
    (hA : ∀ op s, A op (h op s).1)
    (hI : ∀ phase phase' op s, I phase s → P.next phase op (h op s).1 = some phase' →
      C op s → G op s ∧ I phase' (h op s).2)
    {phase : Ph} {p : Prog Op Ans ε α} (hp : Follows A P phase p) {s : σ}
    (hs : I phase s) (hC : AlongRun h C p s) : AlongRun h G p s := by
  induction p generalizing phase s with
  | ret r => trivial
  | call op k ih =>
    obtain ⟨phase', hphase, hk⟩ := hp _ (hA op s)
    obtain ⟨hG, hs'⟩ := hI phase phase' op s hs hphase hC.1
    exact ⟨hG, ih _ hk hs' hC.2⟩

theorem alongRun_of {h : Handler Op Ans σ} {G : Op → σ → Prop} (hG : ∀ op s, G op s)
    (p : Prog Op Ans ε α) (s : σ) : AlongRun h G p s := by
  induction p generalizing s with
  | ret r => trivial
  | call op k ih => exact ⟨hG op s, ih _ _⟩

/-- How a program that keeps to a protocol can end. -/
theorem Follows.run {phase : Ph} {p : Prog Op Ans ε α} (hp : Follows A P phase p)
    {h : Handler Op Ans σ} (hA : ∀ op s, A op (h op s).1) (s : σ) :
    ∃ phase', P.ends phase' (raised (Prog.run h p s).1) := by
  obtain ⟨phase', hend, -⟩ := hp.run_inv h (G := fun _ _ => True) (I := fun _ _ => True) hA
    (fun _ _ _ _ _ _ _ => trivial) trivial (alongRun_of (fun _ _ => trivial) p s)
  exact ⟨phase', hend⟩

end Prog

end OSimFlow.Lib
