import OSimFlow.Lib.Strip

/-!
# Runs that become one element

What `re.sub("[...]+", r, text)` does: every run of elements for which `p`
holds becomes one `r`. Stripped afterwards of the elements for which `q` holds,
`r` among them, a list loses at its ends what `p` or `q` holds of, and only
then are its runs squeezed.

> `strip_squeeze`: stripping after squeezing is squeezing what is stripped of
> both.
>
> `strip_squeeze_eq_iff`: which lists are stripped to a given list.
-/

namespace OSimFlow.Lib

variable {α : Type}

/-- Replace every run by one `r`; `inRun` while the run goes on. -/
def squeeze (p : α → Bool) (r : α) : Bool → List α → List α
  | _, [] => []
  | inRun, c :: cs =>
    if p c then
      if inRun then squeeze p r true cs else r :: squeeze p r true cs
    else c :: squeeze p r false cs

variable {p q : α → Bool} {r : α}

theorem squeeze_run {c : α} (hp : p c = true) (l : List α) :
    squeeze p r true (c :: l) = squeeze p r true l := by
  conv_lhs => unfold squeeze
  rw [if_pos hp, if_pos rfl]

theorem squeeze_start {c : α} (hp : p c = true) (l : List α) :
    squeeze p r false (c :: l) = r :: squeeze p r true l := by
  conv_lhs => unfold squeeze
  rw [if_pos hp, if_neg Bool.false_ne_true]

theorem squeeze_keep {c : α} (hp : ¬ p c = true) (inRun : Bool) (l : List α) :
    squeeze p r inRun (c :: l) = c :: squeeze p r false l := by
  conv_lhs => unfold squeeze
  rw [if_neg hp]

theorem mem_squeeze {inRun : Bool} {l : List α} {c : α} (h : c ∈ squeeze p r inRun l) :
    c = r ∨ p c = false := by
  induction l generalizing inRun with
  | nil => exact nomatch h
  | cons d l ih =>
    by_cases hd : p d = true
    · cases inRun with
      | true =>
        rw [squeeze_run hd] at h
        exact ih h
      | false =>
        rw [squeeze_start hd] at h
        rcases List.mem_cons.mp h with rfl | h
        · exact .inl rfl
        · exact ih h
    · rw [squeeze_keep hd] at h
      rcases List.mem_cons.mp h with rfl | h
      · exact .inr (Bool.eq_false_iff.mpr hd)
      · exact ih h

/-- Without runs nothing changes. -/
theorem squeeze_eq_self {inRun : Bool} {l : List α} (h : ∀ c ∈ l, p c = false) :
    squeeze p r inRun l = l := by
  induction l generalizing inRun with
  | nil => rfl
  | cons c l ih =>
    rw [squeeze_keep (Bool.eq_false_iff.mp (h c List.mem_cons_self)),
      ih fun d hd => h d (List.mem_cons_of_mem _ hd)]

/-- A run leaves its mark. -/
theorem mem_squeeze_of_run {l : List α} (h : ∃ c ∈ l, p c = true) : r ∈ squeeze p r false l := by
  induction l with
  | nil =>
    obtain ⟨_, hc, _⟩ := h
    exact nomatch hc
  | cons d l ih =>
    by_cases hd : p d = true
    · rw [squeeze_start hd]
      exact List.mem_cons_self
    · rw [squeeze_keep hd]
      obtain ⟨c, hc, hpc⟩ := h
      rcases List.mem_cons.mp hc with rfl | hc
      · exact absurd hpc hd
      · exact List.mem_cons_of_mem _ (ih ⟨c, hc, hpc⟩)

/-- What `p` or `q` holds of. -/
def either (p q : α → Bool) (c : α) : Bool := p c || q c

theorem either_of_left {c : α} (h : p c = true) : either p q c = true := by
  unfold either
  rw [h, Bool.true_or]

theorem either_of_not_left {c : α} (h : ¬ p c = true) : either p q c = q c := by
  unfold either
  rw [Bool.eq_false_iff.mpr h, Bool.false_or]

theorem dropWhile_squeeze (hr : q r = true) (inRun : Bool) (l : List α) :
    (squeeze p r inRun l).dropWhile q = squeeze p r false (l.dropWhile (either p q)) := by
  induction l generalizing inRun with
  | nil => rfl
  | cons c l ih =>
    by_cases hp : p c = true
    · rw [List.dropWhile_cons_of_pos (either_of_left hp)]
      cases inRun with
      | true => rw [squeeze_run hp, ih]
      | false => rw [squeeze_start hp, List.dropWhile_cons_of_pos hr, ih]
    · rw [squeeze_keep hp]
      by_cases hq : q c = true
      · rw [List.dropWhile_cons_of_pos hq,
          List.dropWhile_cons_of_pos (by rw [either_of_not_left hp]; exact hq), ih]
      · rw [List.dropWhile_cons_of_neg hq,
          List.dropWhile_cons_of_neg (by rw [either_of_not_left hp]; exact hq), squeeze_keep hp]

/-- Of two parts, the second may go on with the run of the first. -/
theorem squeeze_append (inRun : Bool) (a b : List α) :
    ∃ inRun', squeeze p r inRun (a ++ b) = squeeze p r inRun a ++ squeeze p r inRun' b := by
  induction a generalizing inRun with
  | nil => exact ⟨inRun, rfl⟩
  | cons c a ih =>
    rw [List.cons_append]
    by_cases hp : p c = true
    · obtain ⟨inRun', h⟩ := ih true
      cases inRun with
      | true => exact ⟨inRun', by rw [squeeze_run hp, squeeze_run hp, h]⟩
      | false => exact ⟨inRun', by rw [squeeze_start hp, squeeze_start hp, h, List.cons_append]⟩
    · obtain ⟨inRun', h⟩ := ih false
      exact ⟨inRun', by rw [squeeze_keep hp, squeeze_keep hp, h, List.cons_append]⟩

theorem rdropWhile_append_of_all {a b : List α} (h : ∀ c ∈ b, q c = true) :
    (a ++ b).rdropWhile q = a.rdropWhile q := by
  induction b using List.reverseRecOn with
  | nil => rw [List.append_nil]
  | append_singleton b c ih =>
    rw [← List.append_assoc, List.rdropWhile_concat_pos _ _ _
      (h c (List.mem_append_right _ List.mem_cons_self))]
    exact ih fun d hd => h d (List.mem_append_left _ hd)

theorem rdropWhile_squeeze (hr : q r = true) (l : List α) :
    (squeeze p r false l).rdropWhile q = squeeze p r false (l.rdropWhile (either p q)) := by
  induction l using List.reverseRecOn with
  | nil => rfl
  | append_singleton l c ih =>
    obtain ⟨inRun, happend⟩ := squeeze_append (p := p) (r := r) false l [c]
    rw [happend]
    by_cases hp : p c = true
    · have hall : ∀ d ∈ squeeze p r inRun [c], q d = true := by
        intro d hd
        rcases mem_squeeze hd with rfl | hpd
        · exact hr
        · cases inRun with
          | true =>
            rw [squeeze_run hp] at hd
            exact nomatch hd
          | false =>
            rw [squeeze_start hp] at hd
            rw [List.mem_singleton.mp hd]
            exact hr
      rw [rdropWhile_append_of_all hall, List.rdropWhile_concat_pos _ _ _ (either_of_left hp), ih]
    · have hone : squeeze p r inRun [c] = [c] := squeeze_keep hp inRun []
      rw [hone]
      by_cases hq : q c = true
      · rw [List.rdropWhile_concat_pos _ _ _ hq,
          List.rdropWhile_concat_pos _ _ _ (by rw [either_of_not_left hp]; exact hq), ih]
      · rw [List.rdropWhile_concat_neg _ _ _ hq,
          List.rdropWhile_concat_neg _ _ _ (by rw [either_of_not_left hp]; exact hq), happend,
          hone]

theorem strip_squeeze (hr : q r = true) (l : List α) :
    strip q (squeeze p r false l) = squeeze p r false (strip (either p q) l) := by
  unfold strip
  rw [dropWhile_squeeze hr, rdropWhile_squeeze hr]

/-- What is cut off at the ends. -/
theorem strip_decomposition (p : α → Bool) (l : List α) :
    ∃ a b, l = a ++ strip p l ++ b ∧ (∀ c ∈ a, p c = true) ∧ ∀ c ∈ b, p c = true := by
  refine ⟨l.takeWhile p, (l.dropWhile p).rtakeWhile p, ?_, fun c hc => ?_, fun c hc => ?_⟩
  · unfold strip
    rw [List.append_assoc, List.rdropWhile_append_rtakeWhile, List.takeWhile_append_dropWhile]
  · exact List.mem_takeWhile_imp hc
  · exact List.mem_rtakeWhile_imp hc

theorem strip_append_of_all {a m b : List α} (ha : ∀ c ∈ a, p c = true)
    (hb : ∀ c ∈ b, p c = true) : strip p (a ++ m ++ b) = strip p m := by
  unfold strip
  rw [List.append_assoc, List.dropWhile_append_of_pos ha]
  by_cases hm : ∀ c ∈ m, p c = true
  · have hboth : ∀ c ∈ m ++ b, p c = true := fun c hc =>
      (List.mem_append.mp hc).elim (hm c) (hb c)
    rw [List.dropWhile_eq_nil_iff.mpr hboth, List.dropWhile_eq_nil_iff.mpr hm]
  · have hfront : (m ++ b).dropWhile p = m.dropWhile p ++ b := by
      rw [List.dropWhile_append, if_neg]
      intro hempty
      rw [List.isEmpty_iff, List.dropWhile_eq_nil_iff] at hempty
      exact hm hempty
    rw [hfront, rdropWhile_append_of_all hb]

/-- The lists that are squeezed and stripped to a list without `r`. -/
theorem strip_squeeze_eq_iff (hr : q r = true) {target l : List α} (hclean : r ∉ target)
    (hp : ∀ c ∈ target, p c = false) (htarget : strip (either p q) target = target) :
    strip q (squeeze p r false l) = target ↔
      ∃ a b, l = a ++ target ++ b ∧ (∀ c ∈ a, either p q c = true) ∧
        ∀ c ∈ b, either p q c = true := by
  rw [strip_squeeze hr]
  constructor
  · intro h
    have hnone : ∀ c ∈ strip (either p q) l, p c = false := by
      intro c hc
      by_contra hne
      apply hclean
      rw [← h]
      exact mem_squeeze_of_run ⟨c, hc, by simpa using hne⟩
    rw [squeeze_eq_self hnone] at h
    obtain ⟨a, b, hl, ha, hb⟩ := strip_decomposition (either p q) l
    rw [h] at hl
    exact ⟨a, b, hl, ha, hb⟩
  · intro ⟨a, b, hl, ha, hb⟩
    rw [hl, strip_append_of_all ha hb, htarget, squeeze_eq_self hp]

end OSimFlow.Lib
