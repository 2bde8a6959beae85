import Mathlib.Logic.Function.Basic
import Mathlib.Data.List.Basic
import Mathlib.Data.Fintype.EquivFin
import Mathlib.Data.Finset.Basic

/-!
# Work that is done in place

A directory into which the same kind of work is done again and again, on
whatever inputs: first a fixed part (`prepare`), then the work itself, which is
any function of the inputs. An attempt may stop anywhere, and between two
attempts nothing is removed but what they remove themselves.

> `Settled`: the last attempt that touched anything completed on the inputs `i`,
> and every attempt before it either worked on `i` too or left nothing on a path
> that preparing `i` does not touch.

`forall_work_iff`: this is exactly when the directory holds what a run on `i`
leaves in an empty one, whatever the work is. Any other history shows for some
work: one that leaves a file, or one that was still to write another.
-/

namespace OSimFlow.Lib.InPlace

variable {I P B : Type}

/-- The files of a directory. -/
abbrev Tree (P B : Type) := P → Option B

/-- A file is written, or removed (`none`). -/
abbrev FileOp (P B : Type) := P × Option B

/-- How far an attempt came, in operations of the fixed part or of the work. -/
inductive Stage where
  | preparing (n : Nat)
  | working (n : Nat)
  | completed
deriving DecidableEq

namespace Stage

variable {α : Type}

/-- It came to the work. -/
def Works : Stage → Prop
  | preparing _ => False
  | working n => 0 < n
  | completed => True

/-- How much of the fixed part was done. -/
def prepared : Stage → List α → List α
  | preparing n, ops => ops.take n
  | working _, ops => ops
  | completed, ops => ops

/-- How much of the work was done. -/
def worked : Stage → List α → List α
  | preparing _, _ => []
  | working n, ops => ops.take n
  | completed, ops => ops

theorem prepared_subset (s : Stage) (ops : List α) : s.prepared ops ⊆ ops := by
  cases s with
  | preparing n => exact List.take_subset n ops
  | working n => exact List.Subset.refl ops
  | completed => exact List.Subset.refl ops

theorem worked_subset (s : Stage) (ops : List α) : s.worked ops ⊆ ops := by
  cases s with
  | preparing n => exact List.nil_subset ops
  | working n => exact List.take_subset n ops
  | completed => exact List.Subset.refl ops

@[simp] theorem worked_nil (s : Stage) : s.worked ([] : List α) = [] :=
  List.subset_nil.mp (s.worked_subset [])

theorem worked_of_not_works {s : Stage} (h : ¬ s.Works) (ops : List α) : s.worked ops = [] := by
  cases s with
  | preparing n => rfl
  | working n =>
    have hn : n = 0 := Nat.eq_zero_of_not_pos h
    rw [hn]
    rfl
  | completed => exact absurd trivial h

theorem worked_singleton {s : Stage} (h : s.Works) (x : α) : s.worked [x] = [x] := by
  cases s with
  | preparing n => exact absurd h id
  | working n => exact List.take_of_length_le h
  | completed => rfl

end Stage

/-- One attempt at the work. -/
structure Attempt (I : Type) where
  input : I
  stage : Stage

/-- What an attempt does. -/
def Attempt.ops (prepare work : I → List (FileOp P B)) (a : Attempt I) : List (FileOp P B) :=
  a.stage.prepared (prepare a.input) ++ a.stage.worked (work a.input)

/-- It touches nothing, whatever the work is. -/
def Attempt.Idle (prepare : I → List (FileOp P B)) (a : Attempt I) : Prop :=
  ¬ a.stage.Works ∧ a.stage.prepared (prepare a.input) = []

/-- The paths of some operations. -/
def touched (ops : List (FileOp P B)) : List P :=
  ops.map Prod.fst

theorem touched_append (ops ops' : List (FileOp P B)) :
    touched (ops ++ ops') = touched ops ++ touched ops' :=
  List.map_append

theorem touched_mono {ops ops' : List (FileOp P B)} (h : ops ⊆ ops') :
    touched ops ⊆ touched ops' :=
  List.map_subset Prod.fst h

section

variable {prepare work : I → List (FileOp P B)} {a : Attempt I}

theorem Attempt.Idle.ops_eq (h : a.Idle prepare) : a.ops prepare work = [] := by
  rw [Attempt.ops, h.2, Stage.worked_of_not_works h.1]
  rfl

/-- The last attempt that is not idle. -/
theorem last_not_idle (prepare : I → List (FileOp P B)) (log : List (Attempt I)) :
    (∀ a ∈ log, a.Idle prepare) ∨
      ∃ before a rest, log = before ++ a :: rest ∧ ¬ a.Idle prepare ∧
        ∀ b ∈ rest, b.Idle prepare := by
  induction log with
  | nil => exact Or.inl fun a ha => absurd ha List.not_mem_nil
  | cons a log ih =>
    rcases ih with hall | ⟨before, b, rest, hlog, hb, hrest⟩
    · by_cases ha : a.Idle prepare
      · exact Or.inl (List.forall_mem_cons.mpr ⟨ha, hall⟩)
      · exact Or.inr ⟨[], a, log, rfl, ha, hall⟩
    · exact Or.inr ⟨a :: before, b, rest, by rw [hlog]; rfl, hb, hrest⟩

end

section

variable [DecidableEq P]

/-- The directory after some operations. -/
def Tree.after (t : Tree P B) (ops : List (FileOp P B)) : Tree P B :=
  ops.foldl (fun t op => Function.update t op.1 op.2) t

/-- What the attempts leave in an empty directory. -/
def replay (prepare work : I → List (FileOp P B)) (log : List (Attempt I)) : Tree P B :=
  Tree.after (fun _ => none) (log.flatMap (Attempt.ops prepare work))

/-- What one run leaves in an empty directory. -/
def cold (prepare work : I → List (FileOp P B)) (i : I) : Tree P B :=
  Tree.after (fun _ => none) (prepare i ++ work i)

/-- The directory is that of a run on `i`, whatever the work is. -/
def Settled (prepare : I → List (FileOp P B)) (i : I) (log : List (Attempt I)) : Prop :=
  ∃ before rest, log = before ++ ⟨i, .completed⟩ :: rest ∧
    (∀ a ∈ rest, a.Idle prepare) ∧
    (∀ a ∈ before, a.stage.Works → a.input = i) ∧
    ∀ p, p ∉ touched (prepare i) → replay prepare (fun _ => []) before p = none

/-! ## Files -/

variable {t t' : Tree P B} {ops : List (FileOp P B)} {p : P} {v : Option B}

theorem after_append (t : Tree P B) (ops ops' : List (FileOp P B)) :
    t.after (ops ++ ops') = (t.after ops).after ops' :=
  List.foldl_append

/-- A path no operation touches keeps its file. -/
theorem after_untouched (h : p ∉ touched ops) : t.after ops p = t p := by
  induction ops generalizing t with
  | nil => rfl
  | cons op ops ih =>
    have hne : p ≠ op.1 := fun he => h (he ▸ List.mem_cons_self)
    have hrest : p ∉ touched ops := fun hm => h (List.mem_cons_of_mem _ hm)
    calc t.after (op :: ops) p = (Function.update t op.1 op.2) p := ih hrest
      _ = t p := Function.update_of_ne hne op.2 t

/-- The last operation on a path leaves its file. -/
theorem after_last {op : FileOp P B} (hp : p = op.1) (h : p ∉ touched ops) (t : Tree P B) :
    t.after (op :: ops) p = op.2 := by
  have hkeep : t.after (op :: ops) p = Function.update t op.1 op.2 p := after_untouched h
  rw [hkeep, hp, Function.update_self]

theorem after_snoc (t : Tree P B) (ops : List (FileOp P B)) (p : P) (v : Option B) :
    t.after (ops ++ [(p, v)]) p = v := by
  rw [after_append]
  exact after_last rfl List.not_mem_nil _

/-- The file on a touched path is what the operations left there. -/
theorem after_touched (h : p ∈ touched ops) : t.after ops p = t'.after ops p := by
  induction ops generalizing t t' with
  | nil => exact absurd h List.not_mem_nil
  | cons op ops ih =>
    by_cases hrest : p ∈ touched ops
    · exact ih hrest
    · have hp : p = op.1 := (List.mem_cons.mp h).resolve_right hrest
      rw [after_last hp hrest, after_last hp hrest]

/-- Where two directories agree, they agree after the same operations. -/
theorem after_congr (h : t p = t' p) (ops : List (FileOp P B)) :
    t.after ops p = t'.after ops p := by
  by_cases hp : p ∈ touched ops
  · exact after_touched hp
  · rw [after_untouched hp, after_untouched hp]
    exact h

/-- What is on a touched path was left by one of the operations. -/
theorem exists_left (hp : p ∈ touched ops) (t : Tree P B) :
    ∃ op ∈ ops, op.1 = p ∧ t.after ops p = op.2 := by
  induction ops generalizing t with
  | nil => exact absurd hp List.not_mem_nil
  | cons op ops ih =>
    by_cases hrest : p ∈ touched ops
    · obtain ⟨op', hop', hpath, hleft⟩ := ih hrest (Function.update t op.1 op.2)
      exact ⟨op', List.mem_cons_of_mem _ hop', hpath, hleft⟩
    · have hop : p = op.1 := (List.mem_cons.mp hp).resolve_right hrest
      exact ⟨op, List.mem_cons_self, hop.symm, after_last hop hrest t⟩

/-- Operations that all write the same file. -/
theorem after_same (h : ∀ op ∈ ops, op.1 = p → op.2 = v) (hp : p ∈ touched ops) :
    t.after ops p = v := by
  obtain ⟨op, hop, hpath, hleft⟩ := exists_left hp t
  rw [hleft]
  exact h op hop hpath

/-! ## Attempts -/

variable {prepare work : I → List (FileOp P B)} {i : I} {a : Attempt I} {log : List (Attempt I)}

theorem replay_append (prepare work : I → List (FileOp P B)) (log log' : List (Attempt I)) :
    replay prepare work (log ++ log') =
      (replay prepare work log).after (log'.flatMap (Attempt.ops prepare work)) := by
  rw [replay, List.flatMap_append, after_append]
  rfl

theorem replay_snoc (prepare work : I → List (FileOp P B)) (log : List (Attempt I))
    (a : Attempt I) :
    replay prepare work (log ++ [a]) = (replay prepare work log).after (a.ops prepare work) := by
  rw [replay_append, List.flatMap_singleton]

theorem replay_idle {rest : List (Attempt I)} (h : ∀ a ∈ rest, a.Idle prepare)
    (log : List (Attempt I)) :
    replay prepare work (log ++ rest) = replay prepare work log := by
  have hnone : rest.flatMap (Attempt.ops prepare work) = [] :=
    List.flatMap_eq_nil_iff.mpr fun a ha => (h a ha).ops_eq
  rw [replay_append, hnone]
  rfl

/-- Off the paths of the work on `i`, attempts that worked on nothing else leave what the
fixed parts leave. -/
theorem replay_off_work (hin : ∀ a ∈ log, a.stage.Works → a.input = i)
    (hp : p ∉ touched (prepare i)) (hw : p ∉ touched (work i)) :
    replay prepare work log p = replay prepare (fun _ => []) log p := by
  induction log using List.reverseRecOn with
  | nil => rfl
  | append_singleton log a ih =>
    have hlog := ih fun b hb => hin b (List.mem_append_left _ hb)
    rw [replay_snoc, replay_snoc]
    by_cases ha : a.stage.Works
    · -- it touches this path neither way
      have hi : a.input = i := hin a (List.mem_append_right _ List.mem_cons_self) ha
      have hnot : ∀ work' : I → List (FileOp P B), p ∉ touched (work' i) →
          p ∉ touched (a.ops prepare work') := by
        intro work' hw' hm
        rw [Attempt.ops, hi, touched_append] at hm
        rcases List.mem_append.mp hm with hm | hm
        · exact hp (touched_mono (a.stage.prepared_subset _) hm)
        · exact hw' (touched_mono (a.stage.worked_subset _) hm)
      rw [after_untouched (hnot work hw), after_untouched (hnot _ List.not_mem_nil)]
      exact hlog
    · rw [Attempt.ops, Attempt.ops, Stage.worked_of_not_works ha, Stage.worked_nil]
      exact after_congr hlog _

/-- A settled directory holds what a run on `i` leaves. -/
theorem Settled.replay_eq (h : Settled prepare i log) (work : I → List (FileOp P B)) :
    replay prepare work log = cold prepare work i := by
  obtain ⟨before, rest, rfl, hrest, hin, hbefore⟩ := h
  rw [List.append_cons, replay_idle hrest, replay_snoc]
  funext p
  show (replay prepare work before).after (prepare i ++ work i) p = cold prepare work i p
  by_cases hp : p ∈ touched (prepare i ++ work i)
  · exact after_touched hp
  · rw [cold, after_untouched hp, after_untouched hp]
    rw [touched_append, List.mem_append, not_or] at hp
    rw [replay_off_work hin hp.1 hp.2]
    exact hbefore p hp.1

/-! ## A work that shows it -/

theorem exists_ne_content [Nontrivial B] (v : Option B) : ∃ b : B, some b ≠ v := by
  cases v with
  | none =>
    obtain ⟨b, -, -⟩ := exists_pair_ne B
    exact ⟨b, nofun⟩
  | some b =>
    obtain ⟨b', hb'⟩ := exists_ne b
    exact ⟨b', fun h => hb' (Option.some.inj h)⟩

/-- A path that none of the fixed parts touches. -/
theorem exists_untouched [Infinite P] (prepare : I → List (FileOp P B)) (inputs : List I) :
    ∃ p : P, ∀ j ∈ inputs, p ∉ touched (prepare j) := by
  obtain ⟨p, hp⟩ := Infinite.exists_notMem_finset
    (inputs.flatMap fun j => touched (prepare j)).toFinset
  refine ⟨p, fun j hj hm => hp ?_⟩
  exact List.mem_toFinset.mpr (List.mem_flatMap.mpr ⟨j, hj, hm⟩)

/-- A run can leave anything in the end. -/
theorem cold_snoc (prepare : I → List (FileOp P B)) (i : I) (ops : List (FileOp P B)) (p : P)
    (v : Option B) : cold prepare (fun _ => ops ++ [(p, v)]) i p = v := by
  rw [cold, ← List.append_assoc, after_snoc]

section Shown

variable (hall : ∀ work, replay prepare work log = cold prepare work i)

include hall

/-- Who worked, worked on `i`: work on anything else leaves a file of its own. -/
theorem worked_input [Infinite P] [Nontrivial B] (ha : a ∈ log) (hw : a.stage.Works) :
    a.input = i := by
  classical
  by_contra hne
  obtain ⟨p, hp⟩ := exists_untouched prepare (i :: log.map Attempt.input)
  obtain ⟨b, -⟩ := exists_ne_content (none : Option B)
  -- only the work on other inputs writes, and always the same file
  let leave : I → List (FileOp P B) := fun j => if j = i then [] else [(p, some b)]
  have hclean : cold prepare leave i p = none := by
    have hi : leave i = [] := if_pos rfl
    rw [cold, hi, List.append_nil]
    exact after_untouched (hp i List.mem_cons_self)
  have hleft : replay prepare leave log p = some b := by
    refine after_same (fun op hop hpath => ?_) ?_
    · obtain ⟨a', ha', hop⟩ := List.mem_flatMap.mp hop
      rcases List.mem_append.mp hop with hop | hop
      · have hmem : p ∈ touched (prepare a'.input) :=
          List.mem_map.mpr ⟨op, a'.stage.prepared_subset _ hop, hpath⟩
        exact absurd hmem (hp a'.input (List.mem_cons_of_mem _ (List.mem_map_of_mem ha')))
      · have hop' : op ∈ leave a'.input := a'.stage.worked_subset _ hop
        by_cases hj : a'.input = i
        · rw [show leave a'.input = [] from if_pos hj] at hop'
          exact absurd hop' List.not_mem_nil
        · rw [show leave a'.input = [(p, some b)] from if_neg hj] at hop'
          rw [List.mem_singleton.mp hop']
    · have hmem : (p, some b) ∈ a.ops prepare leave := by
        rw [Attempt.ops, show leave a.input = [(p, some b)] from if_neg hne,
          Stage.worked_singleton hw]
        exact List.mem_append_right _ List.mem_cons_self
      exact List.mem_map.mpr ⟨_, List.mem_flatMap.mpr ⟨a, ha, hmem⟩, rfl⟩
  have heq := congrFun (hall leave) p
  rw [hleft, hclean] at heq
  exact nomatch heq

/-- The last attempt that touched anything completed: work that had not come to its end was
still to write another file. -/
theorem last_completed [Infinite P] [Nontrivial B] {before rest : List (Attempt I)}
    (hlog : log = before ++ a :: rest) (ha : ¬ a.Idle prepare)
    (hrest : ∀ b ∈ rest, b.Idle prepare) : a.stage = .completed := by
  -- a path the attempt touched last, and what it left there, however the work goes on
  have hshow : ∀ (p : P) (v : Option B) (ops : List (FileOp P B)),
      (∀ b, (replay prepare (fun _ => ops ++ [(p, some b)]) before).after
        (a.ops prepare fun _ => ops ++ [(p, some b)]) p = v) → False := by
    intro p v ops hleft
    obtain ⟨b, hb⟩ := exists_ne_content v
    have heq := congrFun (hall fun _ => ops ++ [(p, some b)]) p
    rw [hlog, List.append_cons before a rest, replay_idle hrest, replay_snoc, hleft,
      cold_snoc] at heq
    exact hb heq.symm
  have hprepared : ¬ a.stage.Works → False := by
    intro hw
    have hne : a.stage.prepared (prepare a.input) ≠ [] := fun h => ha ⟨hw, h⟩
    refine hshow ((a.stage.prepared (prepare a.input)).getLast hne).1
      ((a.stage.prepared (prepare a.input)).getLast hne).2 [] fun b => ?_
    rw [Attempt.ops, Stage.worked_of_not_works hw, List.append_nil]
    conv => lhs; arg 2; rw [← List.dropLast_append_getLast hne]
    exact after_snoc _ _ _ _
  cases hs : a.stage with
  | completed => rfl
  | preparing n =>
    refine absurd (hprepared ?_) id
    rw [hs]
    exact id
  | working n =>
    rcases n with _ | n
    · refine absurd (hprepared ?_) id
      rw [hs]
      exact Nat.lt_irrefl 0
    · -- the work writes one file once more than the attempt did
      exfalso
      obtain ⟨p, -⟩ := exists_untouched prepare []
      obtain ⟨b₀, -⟩ := exists_ne_content (none : Option B)
      refine hshow p (some b₀) (List.replicate (n + 1) (p, some b₀)) fun b => ?_
      have htake : (List.replicate (n + 1) (p, some b₀) ++ [(p, some b)]).take (n + 1) =
          List.replicate n (p, some b₀) ++ [(p, some b₀)] := by
        rw [List.take_left' (List.length_replicate), List.replicate_succ']
      rw [Attempt.ops, hs]
      show Tree.after _
        (_ ++ (List.replicate (n + 1) (p, some b₀) ++ [(p, some b)]).take (n + 1)) p = _
      rw [htake, ← List.append_assoc]
      exact after_snoc _ _ _ _

end Shown

/-- When the directory is that of a run on `i`, whatever the work is. -/
theorem forall_work_iff [Infinite P] [Nontrivial B] :
    (∀ work, replay prepare work log = cold prepare work i) ↔ Settled prepare i log := by
  refine ⟨fun hall => ?_, fun h work => h.replay_eq work⟩
  rcases last_not_idle prepare log with hidle | ⟨before, a, rest, hlog, ha, hrest⟩
  · -- nothing was ever touched, and the work on `i` may leave something
    exfalso
    obtain ⟨p, -⟩ := exists_untouched prepare []
    obtain ⟨b, hb⟩ := exists_ne_content (none : Option B)
    have heq := congrFun (hall fun _ => [] ++ [(p, some b)]) p
    rw [← List.nil_append log, replay_idle hidle, cold_snoc] at heq
    exact hb heq.symm
  · have hstage := last_completed hall hlog ha hrest
    have hinput : a.input = i := by
      refine worked_input hall (a := a) (hlog ▸ List.mem_append_right _ List.mem_cons_self) ?_
      rw [hstage]
      trivial
    have heta : a = ⟨i, .completed⟩ := by
      rw [← hstage, ← hinput]
    refine ⟨before, rest, by rw [hlog, heta], hrest, fun b hb => ?_, fun p hp => ?_⟩
    · exact worked_input hall (hlog ▸ List.mem_append_left _ hb)
    · -- without any work, what was left before is still there
      have heq := congrFun (hall fun _ => []) p
      rw [hlog, List.append_cons before a rest, replay_idle hrest, replay_snoc, Attempt.ops,
        Stage.worked_nil, List.append_nil, cold, List.append_nil] at heq
      have hnot : p ∉ touched (a.stage.prepared (prepare a.input)) := fun h =>
        hp (hinput ▸ touched_mono (a.stage.prepared_subset _) h)
      rw [after_untouched hnot, after_untouched hp] at heq
      exact heq

end

end OSimFlow.Lib.InPlace
