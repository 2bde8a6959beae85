import Mathlib.Algebra.BigOperators.Group.Finset.Basic
import Mathlib.Algebra.Order.BigOperators.Group.Finset
import Mathlib.Data.Fintype.Pigeonhole
import Mathlib.Logic.Relation
import Mathlib.Tactic.Push
import Mathlib.Tactic.Tauto

/-!
# Sorting a graph by its in-degrees

The nodes without an edge from another wait in a queue; a node that leaves it takes its edges
with it. The invariant (`Inv`) is that the degree of a node counts the edges from the nodes that
have not left yet, and that the nodes of degree 0 are those in the queue or behind it.

> `drain_spec`: all nodes come out, every one behind those it has an edge from, but for those
> on a cycle or below one (`Stuck`).
-/

namespace OSimFlow.Lib.Kahn

open Relation

/-! ## The loop -/

section

variable {α : Type} [DecidableEq α]

/-- The degrees of the nodes, those that wait, and those that have left. -/
structure Work (α : Type) where
  inDegree : α → Int
  queue : List α
  ordered : List α

/-- One edge to `child` goes. -/
def release (w : Work α) (child : α) : Work α where
  inDegree := Function.update w.inDegree child (w.inDegree child - 1)
  queue := if w.inDegree child - 1 = 0 then w.queue ++ [child] else w.queue
  ordered := w.ordered

/-- The loop on the queue; `none` is for a loop that is not done yet. -/
def drain (children : α → List α) : Nat → Work α → Option (List α)
  | 0, w => if w.queue = [] then some w.ordered else none
  | fuel + 1, w =>
    match w.queue with
    | [] => some w.ordered
    | name :: queue =>
      drain children fuel ((children name).foldl release
        { w with queue := queue, ordered := w.ordered ++ [name] })

end

/-! ## Cycles -/

section

variable {α : Type}

/-- An edge between two of the nodes. -/
def Edge (children : α → List α) (nodes : Finset α) (p c : α) : Prop := p ∈ nodes ∧ c ∈ children p

/-- The node is on a cycle or below one. -/
def Stuck (r : α → α → Prop) (x : α) : Prop := ∃ c, TransGen r c c ∧ ReflTransGen r c x

/-- If every node of a finite set has an edge from another, going back along the edges leads
into a cycle. -/
theorem stuck_of_entered {r : α → α → Prop} {left : Finset α}
    (hentered : ∀ x ∈ left, ∃ p ∈ left, r p x) {x : α} (hx : x ∈ left) : Stuck r x := by
  choose! parent hmem hedge using hentered
  have hin : ∀ i, parent^[i] x ∈ left := by
    intro i
    induction i with
    | zero => exact hx
    | succ i ih =>
      rw [Function.iterate_succ_apply']
      exact hmem _ ih
  have hback : ∀ i k, ReflTransGen r (parent^[i + k] x) (parent^[i] x) := by
    intro i k
    induction k with
    | zero => exact ReflTransGen.refl
    | succ k ih =>
      rw [← Nat.add_assoc, Function.iterate_succ_apply']
      exact ReflTransGen.head (hedge _ (hin _)) ih
  obtain ⟨i, j, hne, hsame⟩ := Finite.exists_ne_map_eq_of_infinite
    fun i : Nat => (⟨parent^[i] x, hin i⟩ : left)
  have hpoint : parent^[i] x = parent^[j] x := congrArg Subtype.val hsame
  -- the later of the two turns leads back to the earlier
  have hcycle : ∀ i j, i < j → parent^[i] x = parent^[j] x →
      TransGen r (parent^[i] x) (parent^[i] x) := by
    intro i j hlt heq
    obtain ⟨k, rfl⟩ : ∃ k, j = i + k + 1 := ⟨j - i - 1, by omega⟩
    have hfirst : r (parent^[i + k + 1] x) (parent^[i + k] x) := by
      rw [Function.iterate_succ_apply']
      exact hedge _ (hin _)
    rw [← heq] at hfirst
    exact TransGen.head' hfirst (hback i k)
  rcases Nat.lt_or_gt_of_ne hne with hlt | hlt
  · refine ⟨parent^[i] x, hcycle i j hlt hpoint, ?_⟩
    have hroot := hback 0 i
    rwa [Nat.zero_add] at hroot
  · refine ⟨parent^[j] x, hcycle j i hlt hpoint.symm, ?_⟩
    have hroot := hback 0 j
    rwa [Nat.zero_add] at hroot

/-- Every node of the list stands behind those it has an edge from. -/
def Sorted (r : α → α → Prop) (l : List α) : Prop :=
  ∀ (i : Nat) x, l[i]? = some x → ∀ p, r p x → ∃ j < i, l[j]? = some p

theorem Sorted.nil (r : α → α → Prop) : Sorted r [] := by
  intro i x hx
  simp at hx

theorem Sorted.snoc {r : α → α → Prop} {l : List α} (h : Sorted r l) {x : α}
    (hx : ∀ p, r p x → p ∈ l) : Sorted r (l ++ [x]) := by
  intro i y hy p hp
  have hold : ∀ (j : Nat) q, l[j]? = some q → (l ++ [x])[j]? = some q := by
    intro j q hq
    rw [List.getElem?_append_left (List.getElem?_eq_some_iff.mp hq).1]
    exact hq
  by_cases hi : i < l.length
  · rw [List.getElem?_append_left hi] at hy
    obtain ⟨j, hj, hq⟩ := h i y hy p hp
    exact ⟨j, hj, hold j p hq⟩
  · have hlen := (List.getElem?_eq_some_iff.mp hy).1
    rw [List.length_append, List.length_singleton] at hlen
    obtain rfl : i = l.length := by omega
    rw [List.getElem?_concat_length] at hy
    cases hy
    obtain ⟨j, hq⟩ := List.getElem?_of_mem (hx p hp)
    exact ⟨j, (List.getElem?_eq_some_iff.mp hq).1, hold j p hq⟩

theorem Sorted.transGen {r : α → α → Prop} {l : List α} (h : Sorted r l) {p x : α}
    (hp : TransGen r p x) : ∀ i : Nat, l[i]? = some x → ∃ j < i, l[j]? = some p := by
  induction hp with
  | single hedge => exact fun i hx => h i _ hx _ hedge
  | tail _ hedge ih =>
    intro i hx
    obtain ⟨j, hj, hy⟩ := h i _ hx _ hedge
    obtain ⟨k, hk, hq⟩ := ih j hy
    exact ⟨k, by omega, hq⟩

/-- No node of a sorted list is stuck: the way back would lead to ever earlier places. -/
theorem Sorted.not_stuck {r : α → α → Prop} {l : List α} (h : Sorted r l) {x : α}
    (hx : x ∈ l) : ¬ Stuck r x := by
  rintro ⟨c, hcycle, hbelow⟩
  have hnone : ∀ i : Nat, l[i]? ≠ some c := by
    intro i
    induction i using Nat.strong_induction_on with
    | _ i ih =>
      intro hc
      obtain ⟨j, hj, hc'⟩ := h.transGen hcycle i hc
      exact ih j hj hc'
  obtain ⟨i, hi⟩ := List.getElem?_of_mem hx
  rcases reflTransGen_iff_eq_or_transGen.mp hbelow with heq | hlong
  · exact hnone i (heq ▸ hi)
  · obtain ⟨j, -, hj⟩ := h.transGen hlong i hi
    exact hnone j hj

end

/-! ## The invariant -/

section

variable {α : Type} [DecidableEq α]

/-- `rest` are the edges that the last node has yet to take with it. -/
structure Inv (children : α → List α) (nodes : Finset α) (rest : List α) (w : Work α) : Prop where
  nodup : (w.ordered ++ w.queue).Nodup
  known : ∀ x ∈ w.ordered ++ w.queue, x ∈ nodes
  degree : ∀ x ∈ nodes, w.inDegree x =
    (∑ p ∈ nodes \ w.ordered.toFinset, (children p).count x : Nat) + rest.count x
  waiting : ∀ x ∈ nodes, (x ∈ w.ordered ++ w.queue ↔ w.inDegree x = 0)
  sorted : Sorted (Edge children nodes) w.ordered

variable {children : α → List α} {nodes : Finset α}

theorem Inv.release {c : α} {rest : List α} {w : Work α} (h : Inv children nodes (c :: rest) w)
    (hc : c ∈ nodes) : Inv children nodes rest (release w c) := by
  have hpos : 0 < w.inDegree c := by
    rw [h.degree c hc, List.count_cons_self]
    omega
  have hnew : c ∉ w.ordered ++ w.queue := fun hmem => by
    have hzero := (h.waiting c hc).mp hmem
    omega
  have hkeep : ∀ x, x ≠ c → (Kahn.release w c).inDegree x = w.inDegree x := fun x hx =>
    Function.update_of_ne hx _ _
  have hself : (Kahn.release w c).inDegree c = w.inDegree c - 1 := Function.update_self _ _ _
  have hdegree : ∀ x ∈ nodes, (Kahn.release w c).inDegree x =
      (∑ p ∈ nodes \ w.ordered.toFinset, (children p).count x : Nat) + rest.count x := by
    intro x hx
    have hold := h.degree x hx
    by_cases hxc : x = c
    · subst hxc
      rw [List.count_cons_self] at hold
      rw [hself]
      omega
    · rw [List.count_cons_of_ne (Ne.symm hxc)] at hold
      rw [hkeep x hxc]
      exact hold
  by_cases hzero : w.inDegree c - 1 = 0
  · have hqueue : w.ordered ++ (Kahn.release w c).queue = w.ordered ++ w.queue ++ [c] := by
      rw [Kahn.release, if_pos hzero, List.append_assoc]
    refine ⟨?_, ?_, hdegree, ?_, h.sorted⟩
    · show (w.ordered ++ (Kahn.release w c).queue).Nodup
      rw [hqueue, ← List.concat_eq_append]
      exact h.nodup.concat hnew
    · show ∀ x ∈ w.ordered ++ (Kahn.release w c).queue, x ∈ nodes
      rw [hqueue]
      intro x hx
      rcases List.mem_append.mp hx with hx | hx
      · exact h.known x hx
      · exact List.mem_singleton.mp hx ▸ hc
    · intro x hx
      show x ∈ w.ordered ++ (Kahn.release w c).queue ↔ _
      rw [hqueue, List.mem_append, List.mem_singleton]
      by_cases hxc : x = c
      · subst hxc
        exact ⟨fun _ => hself.trans hzero, fun _ => Or.inr rfl⟩
      · rw [hkeep x hxc, h.waiting x hx]
        exact ⟨fun hor => hor.resolve_right hxc, Or.inl⟩
  · have hqueue : (Kahn.release w c).queue = w.queue := by
      rw [Kahn.release, if_neg hzero]
    refine ⟨?_, ?_, hdegree, ?_, h.sorted⟩
    · show (w.ordered ++ (Kahn.release w c).queue).Nodup
      rw [hqueue]
      exact h.nodup
    · show ∀ x ∈ w.ordered ++ (Kahn.release w c).queue, x ∈ nodes
      rw [hqueue]
      exact h.known
    · intro x hx
      show x ∈ w.ordered ++ (Kahn.release w c).queue ↔ _
      rw [hqueue]
      by_cases hxc : x = c
      · subst hxc
        rw [hself]
        exact ⟨fun hmem => (hnew hmem).elim, fun h0 => (hzero h0).elim⟩
      · rw [hkeep x hxc, h.waiting x hx]

theorem Inv.foldl_release {cs : List α} {w : Work α} (h : Inv children nodes cs w)
    (hcs : ∀ c ∈ cs, c ∈ nodes) :
    Inv children nodes [] (cs.foldl Kahn.release w) ∧
      (cs.foldl Kahn.release w).ordered = w.ordered := by
  induction cs generalizing w with
  | nil => exact ⟨h, rfl⟩
  | cons c cs ih =>
    have hstep := ih (h.release (hcs c (List.mem_cons_self ..)))
      fun x hx => hcs x (List.mem_cons_of_mem _ hx)
    exact ⟨hstep.1, hstep.2⟩

/-- A node of degree 0 has no edge from a node that has not left. -/
theorem Inv.entered_iff {w : Work α} (h : Inv children nodes [] w) {x : α} (hx : x ∈ nodes) :
    w.inDegree x = 0 ↔ ∀ p, Edge children nodes p x → p ∈ w.ordered := by
  have hdegree := h.degree x hx
  rw [List.count_nil] at hdegree
  have hsum : w.inDegree x = 0 ↔
      ∑ p ∈ nodes \ w.ordered.toFinset, (children p).count x = 0 := by omega
  rw [hsum, Finset.sum_eq_zero_iff]
  constructor
  · rintro hzero p ⟨hp, hedge⟩
    by_contra hout
    have hin : p ∈ nodes \ w.ordered.toFinset :=
      Finset.mem_sdiff.mpr ⟨hp, fun hmem => hout (List.mem_toFinset.mp hmem)⟩
    exact List.count_eq_zero.mp (hzero p hin) hedge
  · intro hall p hp
    obtain ⟨hp, hout⟩ := Finset.mem_sdiff.mp hp
    exact List.count_eq_zero.mpr fun hedge =>
      hout (List.mem_toFinset.mpr (hall p ⟨hp, hedge⟩))

/-- The first node of the queue leaves. -/
theorem Inv.visit {w : Work α} (h : Inv children nodes [] w) {name : α} {queue : List α}
    (hqueue : w.queue = name :: queue) :
    Inv children nodes (children name)
      { w with queue := queue, ordered := w.ordered ++ [name] } := by
  have hsame : w.ordered ++ [name] ++ queue = w.ordered ++ w.queue := by
    rw [hqueue, List.append_assoc, List.singleton_append]
  have hin : name ∈ w.ordered ++ w.queue := by
    rw [hqueue]
    exact List.mem_append_right _ (List.mem_cons_self ..)
  have hnode := h.known name hin
  have hout : name ∉ w.ordered := by
    have hnodup := h.nodup
    rw [hqueue] at hnodup
    exact fun hmem => (List.nodup_append.mp hnodup).2.2 name hmem name (List.mem_cons_self ..) rfl
  refine ⟨?_, ?_, ?_, ?_, ?_⟩
  · show (w.ordered ++ [name] ++ queue).Nodup
    rw [hsame]
    exact h.nodup
  · show ∀ x ∈ w.ordered ++ [name] ++ queue, x ∈ nodes
    rw [hsame]
    exact h.known
  · intro x hx
    have hleft : nodes \ (w.ordered ++ [name]).toFinset =
        (nodes \ w.ordered.toFinset).erase name := by
      ext p
      simp only [Finset.mem_sdiff, List.mem_toFinset, List.mem_append, List.mem_singleton,
        Finset.mem_erase]
      tauto
    have hmem : name ∈ nodes \ w.ordered.toFinset :=
      Finset.mem_sdiff.mpr ⟨hnode, fun hmem => hout (List.mem_toFinset.mp hmem)⟩
    have hsplit := Finset.add_sum_erase _ (fun p => (children p).count x) hmem
    have hdegree := h.degree x hx
    rw [List.count_nil, ← hsplit] at hdegree
    show w.inDegree x = _
    rw [hleft]
    omega
  · intro x hx
    show x ∈ w.ordered ++ [name] ++ queue ↔ _
    rw [hsame]
    exact h.waiting x hx
  · exact h.sorted.snoc ((h.entered_iff hnode).mp ((h.waiting name hnode).mp hin))

/-! ## The whole loop -/

theorem drain_inv (hclosed : ∀ p ∈ nodes, ∀ c ∈ children p, c ∈ nodes) (fuel : Nat) {w : Work α}
    (h : Inv children nodes [] w) (hfuel : nodes.card ≤ fuel + w.ordered.length) :
    ∃ w', Inv children nodes [] w' ∧ w'.queue = [] ∧
      drain children fuel w = some w'.ordered := by
  have hroom : ∀ w : Work α, Inv children nodes [] w →
      w.ordered.length + w.queue.length ≤ nodes.card := by
    intro w h
    rw [← List.length_append, ← List.toFinset_card_of_nodup h.nodup]
    exact Finset.card_le_card fun x hx => h.known x (List.mem_toFinset.mp hx)
  induction fuel generalizing w with
  | zero =>
    have hempty : w.queue = [] := List.eq_nil_of_length_eq_zero (by
      have hle := hroom w h
      omega)
    exact ⟨w, h, hempty, by rw [drain, if_pos hempty]⟩
  | succ fuel ih =>
    rw [drain]
    cases hqueue : w.queue with
    | nil => exact ⟨w, h, hqueue, rfl⟩
    | cons name queue =>
      have hname : name ∈ nodes := h.known name (by
        rw [hqueue]
        exact List.mem_append_right _ (List.mem_cons_self ..))
      obtain ⟨hinv, hordered⟩ := (h.visit hqueue).foldl_release (hclosed name hname)
      refine ih hinv ?_
      rw [hordered, List.length_append, List.length_singleton]
      omega

/-- The degrees before the loop count all edges, and the queue holds the nodes of degree 0. -/
theorem inv_start {w : Work α} (hordered : w.ordered = []) (hnodup : w.queue.Nodup)
    (hqueue : ∀ x, x ∈ w.queue ↔ x ∈ nodes ∧ w.inDegree x = 0)
    (hdegree : ∀ x ∈ nodes, w.inDegree x = (∑ p ∈ nodes, (children p).count x : Nat)) :
    Inv children nodes [] w := by
  refine ⟨?_, ?_, ?_, ?_, ?_⟩
  · rw [hordered]
    exact hnodup
  · rw [hordered]
    exact fun x hx => ((hqueue x).mp hx).1
  · intro x hx
    rw [hordered, hdegree x hx]
    simp
  · intro x hx
    rw [hordered, List.nil_append, hqueue]
    exact ⟨And.right, fun h => ⟨hx, h⟩⟩
  · rw [hordered]
    exact Sorted.nil _

theorem drain_spec (hclosed : ∀ p ∈ nodes, ∀ c ∈ children p, c ∈ nodes) (fuel : Nat) {w : Work α}
    (h : Inv children nodes [] w) (hfuel : nodes.card ≤ fuel + w.ordered.length) :
    ∃ ordered, drain children fuel w = some ordered ∧ ordered.Nodup ∧
      Sorted (Edge children nodes) ordered ∧
      ∀ x, x ∈ ordered ↔ x ∈ nodes ∧ ¬ Stuck (Edge children nodes) x := by
  obtain ⟨w', hinv, hqueue, hdrain⟩ := drain_inv hclosed fuel h hfuel
  have hall : w'.ordered ++ w'.queue = w'.ordered := by rw [hqueue, List.append_nil]
  refine ⟨w'.ordered, hdrain, hall ▸ hinv.nodup, hinv.sorted, fun x => ⟨fun hx => ?_, ?_⟩⟩
  · exact ⟨hinv.known x (List.mem_append_left _ hx), hinv.sorted.not_stuck hx⟩
  · rintro ⟨hx, hfree⟩
    by_contra hout
    have hentered : ∀ y ∈ nodes \ w'.ordered.toFinset,
        ∃ p ∈ nodes \ w'.ordered.toFinset, Edge children nodes p y := by
      intro y hy
      obtain ⟨hy, hleft⟩ := Finset.mem_sdiff.mp hy
      have hdegree : w'.inDegree y ≠ 0 := fun hzero =>
        hleft (List.mem_toFinset.mpr (hall ▸ (hinv.waiting y hy).mpr hzero))
      rw [Ne, hinv.entered_iff hy] at hdegree
      push Not at hdegree
      obtain ⟨p, hedge, hp⟩ := hdegree
      exact ⟨p, Finset.mem_sdiff.mpr ⟨hedge.1, fun hmem => hp (List.mem_toFinset.mp hmem)⟩, hedge⟩
    exact hfree (stuck_of_entered hentered
      (Finset.mem_sdiff.mpr ⟨hx, fun hmem => hout (List.mem_toFinset.mp hmem)⟩))

end

end OSimFlow.Lib.Kahn
