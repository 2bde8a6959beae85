import Mathlib.Data.List.Basic

/-!
# Requests that are sent again

A bounded retry loop sends a request, looks at the failure, and sends the request again
while the failure is of the kind it retries and attempts are left. What the other side did
with a request is not what the answer says: a request that failed may have been executed.

> `lt_sent_iff`: which requests are sent, as a condition on the answers.
>
> `length_executed_le_one_iff`: of the requests sent at most one was executed.
-/

namespace OSimFlow.Lib.Retry

variable {ε α β : Type} (retryOn : ε → Bool) (answers : Nat → Except ε α)

/-- The loop at request `k` with `left` attempts behind this one: what it returns, and the
number of requests sent. -/
def loop : (left k : Nat) → Except ε α × Nat
  | 0, k => (answers k, k + 1)
  | left + 1, k =>
    match answers k with
    | .ok a => (.ok a, k + 1)
    | .error e => if retryOn e then loop left (k + 1) else (.error e, k + 1)

/-- At most `maxAttempts` requests, and one at least. -/
def retry (maxAttempts : Nat) : Except ε α × Nat :=
  loop retryOn answers (maxAttempts - 1) 0

/-- Request `k` fails in a way that is retried. -/
def Again (k : Nat) : Prop := ∃ e, answers k = .error e ∧ retryOn e

/-- Request `j` is within the attempts, and all before it are retried. -/
def Sent (maxAttempts j : Nat) : Prop :=
  j < maxAttempts ∧ ∀ i < j, Again retryOn answers i

variable {retryOn answers}

theorem lt_loop : ∀ (left k : Nat), k < (loop retryOn answers left k).2
  | 0, k => Nat.lt_succ_self k
  | left + 1, k => by
    rw [loop]
    split
    · exact Nat.lt_succ_self k
    · split
      · exact Nat.lt_trans (Nat.lt_succ_self k) (lt_loop left (k + 1))
      · exact Nat.lt_succ_self k

/-- What is returned is the answer to the last request. -/
theorem loop_fst : ∀ (left k : Nat),
    (loop retryOn answers left k).1 = answers ((loop retryOn answers left k).2 - 1)
  | 0, k => rfl
  | left + 1, k => by
    rw [loop]
    cases h : answers k with
    | ok a => exact h.symm
    | error e =>
      dsimp only
      split
      · exact loop_fst left (k + 1)
      · exact h.symm

theorem lt_loop_iff : ∀ (left k j : Nat), k ≤ j →
    (j < (loop retryOn answers left k).2 ↔
      j ≤ k + left ∧ ∀ i, k ≤ i → i < j → Again retryOn answers i)
  | 0, k, j, hkj => by
    show j < k + 1 ↔ _
    constructor
    · intro h
      exact ⟨by omega, fun i _ _ => by omega⟩
    · rintro ⟨h, -⟩
      omega
  | left + 1, k, j, hkj => by
    -- the first request is sent; the later ones if it is retried
    have hfirst : ¬ Again retryOn answers k →
        (j < k + 1 ↔ j ≤ k + (left + 1) ∧ ∀ i, k ≤ i → i < j → Again retryOn answers i) := by
      intro hnot
      constructor
      · intro h
        exact ⟨by omega, fun i _ _ => by omega⟩
      · rintro ⟨-, h⟩
        by_contra hlt
        exact hnot (h k (Nat.le_refl k) (by omega))
    rw [loop]
    cases h : answers k with
    | ok a =>
      refine hfirst ?_
      rintro ⟨e, he, -⟩
      rw [h] at he
      exact nomatch he
    | error e =>
      dsimp only
      by_cases hr : retryOn e = true
      · rw [if_pos hr]
        have hagain : Again retryOn answers k := ⟨e, h, hr⟩
        by_cases hj : j = k
        · have : k + 1 < (loop retryOn answers left (k + 1)).2 := lt_loop left (k + 1)
          constructor
          · intro _
            exact ⟨by omega, fun i _ _ => by omega⟩
          · intro _
            omega
        · rw [lt_loop_iff left (k + 1) j (by omega)]
          constructor
          · rintro ⟨hle, hall⟩
            refine ⟨by omega, fun i hki hij => ?_⟩
            by_cases hik : i = k
            · rw [hik]
              exact hagain
            · exact hall i (by omega) hij
          · rintro ⟨hle, hall⟩
            exact ⟨by omega, fun i hki hij => hall i (by omega) hij⟩
      · rw [if_neg hr]
        refine hfirst ?_
        rintro ⟨e', he', hr'⟩
        rw [h] at he'
        cases he'
        exact hr hr'

theorem sent_pos (maxAttempts : Nat) : 0 < (retry retryOn answers maxAttempts).2 :=
  lt_loop _ _

theorem retry_fst (maxAttempts : Nat) : (retry retryOn answers maxAttempts).1 =
    answers ((retry retryOn answers maxAttempts).2 - 1) :=
  loop_fst _ _

/-- The requests that are sent. -/
theorem lt_sent_iff {maxAttempts : Nat} (hpos : 0 < maxAttempts) (j : Nat) :
    j < (retry retryOn answers maxAttempts).2 ↔ Sent retryOn answers maxAttempts j := by
  rw [retry, lt_loop_iff _ _ _ (Nat.zero_le j), Sent]
  constructor
  · rintro ⟨hle, hall⟩
    exact ⟨by omega, fun i hi => hall i (Nat.zero_le i) hi⟩
  · rintro ⟨hlt, hall⟩
    exact ⟨by omega, fun i _ hi => hall i hi⟩

/-- The last request is sent, and decides. -/
theorem sent_last {maxAttempts : Nat} (hpos : 0 < maxAttempts) :
    Sent retryOn answers maxAttempts ((retry retryOn answers maxAttempts).2 - 1) := by
  have h : 0 < (retry retryOn answers maxAttempts).2 := sent_pos maxAttempts
  exact (lt_sent_iff hpos _).mp (by omega)

/-- A request that is answered is the last. -/
theorem eq_last_of_ok {maxAttempts : Nat} (hpos : 0 < maxAttempts) {j : Nat} {a : α}
    (hsent : Sent retryOn answers maxAttempts j) (hok : answers j = .ok a) :
    j = (retry retryOn answers maxAttempts).2 - 1 := by
  have hlt := (lt_sent_iff hpos j).mpr hsent
  by_contra hne
  have hnext : Sent retryOn answers maxAttempts (j + 1) :=
    (lt_sent_iff hpos (j + 1)).mp (by omega)
  obtain ⟨e, he, -⟩ := hnext.2 j (Nat.lt_succ_self j)
  rw [hok] at he
  exact nomatch he

/-! ## What was executed -/

/-- What the first `n` requests have left behind. -/
def executed (effect : Nat → Option β) (n : Nat) : List β :=
  (List.range n).filterMap effect

theorem executed_succ (effect : Nat → Option β) (n : Nat) :
    executed effect (n + 1) = executed effect n ++ (effect n).toList := by
  unfold executed
  rw [List.range_succ, List.filterMap_append]
  cases h : effect n with
  | none => simp [h]
  | some b => simp [h]

theorem executed_eq_nil_iff {effect : Nat → Option β} {n : Nat} :
    executed effect n = [] ↔ ∀ i < n, effect i = none := by
  unfold executed
  rw [List.filterMap_eq_nil_iff]
  exact ⟨fun h i hi => h i (List.mem_range.mpr hi), fun h i hi => h i (List.mem_range.mp hi)⟩

theorem length_executed_le_one_iff {effect : Nat → Option β} {n : Nat} :
    (executed effect n).length ≤ 1 ↔
      ∀ i j, i < j → j < n → effect i = none ∨ effect j = none := by
  induction n with
  | zero => exact ⟨fun _ i j _ hj => absurd hj (Nat.not_lt_zero j), fun _ => Nat.zero_le 1⟩
  | succ n ih =>
    rw [executed_succ, List.length_append]
    cases h : effect n with
    | none =>
      have hlen : (executed effect n).length + (none : Option β).toList.length =
          (executed effect n).length := rfl
      rw [hlen, ih]
      constructor
      · intro hall i j hij hj
        by_cases hjn : j = n
        · rw [hjn]
          exact .inr h
        · exact hall i j hij (by omega)
      · exact fun hall i j hij hj => hall i j hij (by omega)
    | some b =>
      have hlen : (executed effect n).length + (some b).toList.length =
          (executed effect n).length + 1 := rfl
      rw [hlen]
      constructor
      · intro hle i j hij hj
        have hnil : executed effect n = [] := List.eq_nil_of_length_eq_zero (by omega)
        exact .inl (executed_eq_nil_iff.mp hnil i (by omega))
      · intro hall
        have hnil : executed effect n = [] := by
          refine executed_eq_nil_iff.mpr fun i hi => ?_
          refine (hall i n hi (Nat.lt_succ_self n)).resolve_right ?_
          rw [h]
          exact nofun
        rw [hnil]
        exact Nat.le_refl 1

/-- Where at most one was executed and the last one was, it is that one. -/
theorem executed_eq_singleton {effect : Nat → Option β} {n : Nat} {b : β}
    (hlast : effect n = some b) (hle : (executed effect (n + 1)).length ≤ 1) :
    executed effect (n + 1) = [b] := by
  rw [executed_succ, hlast] at hle ⊢
  rw [List.length_append] at hle
  have hone : (some b).toList.length = 1 := rfl
  have hnil : executed effect n = [] := List.eq_nil_of_length_eq_zero (by omega)
  rw [hnil]
  rfl

end OSimFlow.Lib.Retry
