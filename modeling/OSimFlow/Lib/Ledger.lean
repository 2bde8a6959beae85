import Mathlib.Data.List.Basic

/-!
# The ledger of a shared cell

Writers replace the content of one cell. The ledger has an entry for each write,
with the content it found and the content it left. The ledger is `Chained` when each
entry found what the one before it left, so that no write is missing between them.

> `Chained.read_last`: what a reader sees is what the last entry left that
> concerns it.
>
> `Chained.replay`: the content is that of the writers taken one at a time, in the
> order of their entries.
-/

namespace OSimFlow.Lib

/-- A write: by whom, what was there, what is there after it. -/
structure Entry (α σ : Type) where
  label : α
  before : σ
  after : σ

variable {α σ : Type}

/-- From `s` to `t`, each entry starting where the last one ended. -/
def Chained : σ → List (Entry α σ) → σ → Prop
  | s, [], t => s = t
  | s, e :: es, t => e.before = s ∧ Chained e.after es t

theorem chained_append {s t : σ} {es fs : List (Entry α σ)} :
    Chained s (es ++ fs) t ↔ ∃ u, Chained s es u ∧ Chained u fs t := by
  induction es generalizing s with
  | nil => simp [Chained]
  | cons e es ih =>
    rw [List.cons_append, Chained, ih]
    constructor
    · rintro ⟨hb, u, he, hf⟩
      exact ⟨u, ⟨hb, he⟩, hf⟩
    · rintro ⟨u, ⟨hb, he⟩, hf⟩
      exact ⟨hb, u, he, hf⟩

/-- One more write, of what is there now. -/
theorem Chained.snoc {s t : σ} {es : List (Entry α σ)} (h : Chained s es t) (a : α) (t' : σ) :
    Chained s (es ++ [⟨a, t, t'⟩]) t' :=
  chained_append.mpr ⟨t, h, rfl, rfl⟩

/-- Entries that leave a reading alone leave it as it was at the start. -/
theorem Chained.read_same {β : Type} {F : σ → β} {s t : σ} {es : List (Entry α σ)}
    (h : Chained s es t) (hes : ∀ e ∈ es, F e.after = F e.before) :
    F t = F s := by
  induction es generalizing s with
  | nil => exact congrArg F h.symm
  | cons e es ih =>
    obtain ⟨hb, hr⟩ := h
    have hhead := hes e List.mem_cons_self
    have htail := ih hr fun e' he => hes e' (List.mem_cons_of_mem e he)
    rw [htail, hhead, hb]

/-- The reading is what the last entry that concerns it left. -/
theorem Chained.read_last {β : Type} {F : σ → β} {s t : σ} {es fs : List (Entry α σ)}
    {e : Entry α σ} (h : Chained s (es ++ e :: fs) t)
    (hfs : ∀ e' ∈ fs, F e'.after = F e'.before) : F t = F e.after := by
  obtain ⟨u, -, hrest⟩ := chained_append.mp h
  exact hrest.2.read_same hfs

/-- Taken one at a time, the writers give the same content. -/
theorem Chained.replay {ε : Type} {act : σ → α → Except ε σ} {s t : σ}
    {es : List (Entry α σ)} (h : Chained s es t)
    (hes : ∀ e ∈ es, act e.before e.label = .ok e.after) :
    (es.map Entry.label).foldlM act s = .ok t := by
  induction es generalizing s with
  | nil => exact congrArg Except.ok h
  | cons e es ih =>
    obtain ⟨hb, hr⟩ := h
    rw [List.map_cons, List.foldlM_cons, ← hb, hes e List.mem_cons_self]
    exact ih hr fun e' he => hes e' (List.mem_cons_of_mem e he)

end OSimFlow.Lib
