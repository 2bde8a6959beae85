import OSimFlow.Executors.ResultTransport

/-!
# Storage keys of a campaign's paths

A key is made of the names that follow the prefix in a path. If the prefix is a name of the
campaign's directory, what follows it begins for all paths with the same names, and the rest of the
path can be read off the key. If not, what is left of a path can be its last name alone.

> `keysDistinct_iff`: the keys of a campaign's paths are distinct exactly if it is one.
>
> `of_key_eq`: a key that goes on after the key of a directory is that of a path in it.
-/

namespace OSimFlow.Executors.ResultTransport

open OSimFlow.Lib
open OSimFlow.Lib.PosixPath (Above joined)

variable {F C : Type}

namespace Transfer

variable (t : Transfer F C)

/-- The prefix as it is looked for. -/
def marker : List Char := strip (fun c => decide (c = '/')) t.rootMarker

/-- The names of the campaign's directory that are part of every key. -/
def anchor : List (List Char) :=
  (t.outdir.parts.dropWhile fun part => decide (part ≠ t.marker)).drop 1

/-- The names below the campaign's directory. -/
def rel (p : PosixPath) : List (List Char) := p.names.drop t.outdir.names.length

variable {t}

theorem names_eq {p : PosixPath} (h : Above t.outdir p) :
    p.names = t.outdir.names ++ t.rel p ∧ t.rel p ≠ [] := by
  obtain ⟨_, rest, hne, hp⟩ := h
  have hrel : t.rel p = rest := by
    unfold rel
    rw [hp, List.drop_left]
  rw [hrel]
  exact ⟨hp, hne⟩

theorem isName_rel (p : PosixPath) : ∀ s ∈ t.rel p, IsName s :=
  fun s hs => p.isName s (List.mem_of_mem_drop hs)

theorem isName_anchor : ∀ s ∈ t.anchor, IsName s := by
  intro s hs
  refine t.outdir.isName s ?_
  unfold anchor PosixPath.parts at hs
  split at hs
  next => exact (List.dropWhile_sublist _).subset (List.mem_of_mem_drop hs)
  next =>
    by_cases htext : PosixPath.rootText t.outdir.root = t.marker
    · rw [List.singleton_append, List.dropWhile_cons_of_neg (by simp [htext])] at hs
      exact hs
    · rw [List.singleton_append, List.dropWhile_cons_of_pos (by simp [htext])] at hs
      exact (List.dropWhile_sublist _).subset (List.mem_of_mem_drop hs)

/-- Up to an element that is there, nothing behind it matters. -/
theorem dropWhile_append_of_mem {α : Type} [DecidableEq α] {m : α} {a : List α} (h : m ∈ a)
    (b : List α) :
    ((a ++ b).dropWhile fun x => decide (x ≠ m)).drop 1 =
      (a.dropWhile fun x => decide (x ≠ m)).drop 1 ++ b := by
  induction a with
  | nil => exact nomatch h
  | cons x a ih =>
    by_cases hx : x = m
    · rw [List.cons_append, List.dropWhile_cons_of_neg (by simp [hx]),
        List.dropWhile_cons_of_neg (by simp [hx])]
      rfl
    · rw [List.cons_append, List.dropWhile_cons_of_pos (by simp [hx]),
        List.dropWhile_cons_of_pos (by simp [hx])]
      exact ih ((List.mem_cons.mp h).resolve_left fun heq => hx heq.symm)

theorem parts_eq {p : PosixPath} (h : Above t.outdir p) :
    p.parts = t.outdir.parts ++ t.rel p := by
  unfold PosixPath.parts
  rw [← h.1, (names_eq h).1, List.append_assoc]

theorem key_eq (ha : t.Anchored) {p : PosixPath} (h : Above t.outdir p) :
    t.key p = joined (t.anchor ++ t.rel p) := by
  have hmem : t.marker ∈ t.outdir.parts := List.mem_append_right _ ha
  have hne : t.marker ≠ [] := (t.outdir.isName _ ha).1
  have hrest : (p.parts.dropWhile fun part => decide (part ≠ t.marker)).drop 1 =
      t.anchor ++ t.rel p := by
    rw [parts_eq h, dropWhile_append_of_mem hmem]
    rfl
  unfold key localPathToStorageKey
  refine (if_neg hne).trans ?_
  unfold marker at hrest
  rw [hrest]
  split
  next hnil => exact absurd (List.append_eq_nil_iff.mp hnil).2 (names_eq h).2
  next => rfl

theorem isName_anchor_rel (p : PosixPath) : ∀ s ∈ t.anchor ++ t.rel p, IsName s :=
  fun s hs => (List.mem_append.mp hs).elim (isName_anchor s) (isName_rel p s)

theorem key_ne_nil (ha : t.Anchored) {p : PosixPath} (h : Above t.outdir p) : t.key p ≠ [] := by
  intro hnil
  rw [key_eq ha h] at hnil
  have hnames : t.anchor ++ t.rel p = [] :=
    PosixPath.joined_inj (isName_anchor_rel p) (fun _ hs => absurd hs List.not_mem_nil) hnil
  exact (names_eq h).2 (List.append_eq_nil_iff.mp hnames).2

theorem keysDistinct_of_anchored (ha : t.Anchored) : t.KeysDistinct := by
  intro p q hp hq hkey
  rw [key_eq ha hp, key_eq ha hq] at hkey
  have hnames := PosixPath.joined_inj (isName_anchor_rel p) (isName_anchor_rel q) hkey
  have hrel : t.rel p = t.rel q := List.append_cancel_left hnames
  refine PosixPath.ext_iff_fields.mpr ⟨hp.1.symm.trans hq.1, ?_⟩
  rw [(names_eq hp).1, (names_eq hq).1, hrel]

theorem rel_below {p q : PosixPath} (hp : Above t.outdir p) (hpq : Above p q) :
    t.rel q = t.rel p ++ q.names.drop p.names.length := by
  obtain ⟨_, rest, _, hq⟩ := hpq
  have hlen : t.outdir.names.length ≤ p.names.length := Nat.le_of_lt hp.length_lt
  unfold rel
  rw [hq, List.drop_left, List.drop_append_of_le_length hlen]

/-- What is in a directory is stored under the directory's key. -/
theorem key_below (ha : t.Anchored) {p q : PosixPath} (hp : Above t.outdir p) (hpq : Above p q) :
    t.key q = t.key p ++ '/' :: relativeTo q p := by
  have hne : q.names.drop p.names.length ≠ [] := by
    intro hnil
    have := List.drop_eq_nil_iff.mp hnil
    have := hpq.length_lt
    omega
  have hne' : t.anchor ++ t.rel p ≠ [] :=
    fun hnil => (names_eq hp).2 (List.append_eq_nil_iff.mp hnil).2
  rw [key_eq ha (hp.trans hpq), key_eq ha hp, rel_below hp hpq, ← List.append_assoc,
    PosixPath.joined_append hne' hne]
  rfl

/-- And only that is. -/
theorem of_key_eq (ha : t.Anchored) {p q : PosixPath} (hp : Above t.outdir p)
    (hq : Above t.outdir q) {text : List Char} (h : t.key q = t.key p ++ '/' :: text) :
    Above p q ∧ p.div text = q := by
  have hne : t.anchor ++ t.rel p ≠ [] :=
    fun hnil => (names_eq hp).2 (List.append_eq_nil_iff.mp hnil).2
  rw [key_eq ha hp, key_eq ha hq] at h
  obtain ⟨rest, hrest, hnames, rfl⟩ :=
    PosixPath.of_joined_eq_append (isName_anchor_rel q) (isName_anchor_rel p) hne h
  rw [List.append_assoc] at hnames
  have hrel : t.rel q = t.rel p ++ rest := List.append_cancel_left hnames
  have hqp : q.names = p.names ++ rest := by
    rw [(names_eq hq).1, (names_eq hp).1, hrel, List.append_assoc]
  have hname : ∀ s ∈ rest, IsName s := by
    intro s hs
    exact q.isName s (by rw [hqp]; exact List.mem_append_right _ hs)
  obtain ⟨hroot, hdiv⟩ := PosixPath.div_joined p hname
  refine ⟨⟨hp.1.symm.trans hq.1, rest, hrest, hqp⟩, ?_⟩
  refine PosixPath.ext_iff_fields.mpr ⟨?_, by rw [hdiv, hqp]⟩
  rw [hroot, ← hp.1, hq.1]

/-! ## Without an anchor -/

theorem isName_replicate {c : Char} (hslash : c ≠ '/') (hdot : c ≠ '.') (n : Nat) :
    IsName (List.replicate (n + 1) c) := by
  refine ⟨List.cons_ne_nil _ _, ?_, ?_⟩
  · intro h
    exact hdot (List.cons.inj h).1
  · intro h
    exact hslash (List.eq_of_mem_replicate h).symm

/-- Where the prefix does not occur, the key is the name. -/
theorem key_eq_name {p : PosixPath} (h : t.marker ∉ p.parts) : t.key p = p.name := by
  have hall : ∀ part ∈ p.parts, decide (part ≠ t.marker) = true := by
    intro part hpart
    refine decide_eq_true ?_
    rintro rfl
    exact h hpart
  unfold key localPathToStorageKey
  have hnil := List.dropWhile_eq_nil_iff.mpr hall
  unfold marker at hnil
  dsimp only
  rw [hnil]
  exact ite_self _

/-- The root is no prefix: the slashes at a prefix's ends are not part of it. -/
theorem marker_notMem_parts (h : t.marker ∉ t.outdir.names) : t.marker ∉ t.outdir.parts := by
  intro hmem
  rcases List.mem_append.mp hmem with hroot | hnames
  · have hlast : t.marker.getLast? ≠ some '/' :=
      fun heq => absurd (last_strip heq) (by decide)
    cases hr : t.outdir.root with
    | relative =>
      rw [hr] at hroot
      exact nomatch hroot
    | slash =>
      rw [hr] at hroot
      exact hlast (by rw [List.mem_singleton.mp hroot]; rfl)
    | slashes =>
      rw [hr] at hroot
      exact hlast (by rw [List.mem_singleton.mp hroot]; rfl)
  · exact h hnames

/-- Two files of one name in two directories, none of the names being the prefix. -/
theorem anchored_of_keysDistinct (h : t.KeysDistinct) : t.Anchored := by
  by_contra ha
  have hlong : ∀ c : Char, List.replicate (t.marker.length + 1) c ≠ t.marker := by
    intro c heq
    have := congrArg List.length heq
    rw [List.length_replicate] at this
    omega
  have hname := fun c h1 h2 => isName_replicate (c := c) h1 h2 t.marker.length
  have hall : ∀ c, c ≠ '/' → c ≠ '.' →
      ∀ s ∈ [List.replicate (t.marker.length + 1) c, List.replicate (t.marker.length + 1) 'x'],
        IsName s := by
    intro c h1 h2 s hs
    rcases List.mem_cons.mp hs with rfl | hs
    · exact hname c h1 h2
    · rw [List.mem_singleton.mp hs]
      exact hname 'x' (by decide) (by decide)
  have hkey : ∀ c h1 h2, t.key (t.outdir.join _ (hall c h1 h2)) =
      List.replicate (t.marker.length + 1) 'x' := by
    intro c h1 h2
    have habove := t.outdir.above_join (hall c h1 h2) (List.cons_ne_nil _ _)
    have hrel : t.rel (t.outdir.join _ (hall c h1 h2)) =
        [List.replicate (t.marker.length + 1) c, List.replicate (t.marker.length + 1) 'x'] :=
      List.drop_left
    rw [key_eq_name]
    · show (t.outdir.names ++ [_, _]).getLast?.getD [] = _
      rw [List.getLast?_append]
      rfl
    · rw [parts_eq habove, hrel]
      intro hmem
      rcases List.mem_append.mp hmem with hold | hnew
      · exact marker_notMem_parts ha hold
      · rcases List.mem_cons.mp hnew with heq | hnew
        · exact hlong c heq.symm
        · exact hlong 'x' (List.mem_singleton.mp hnew).symm
  have heq := h _ _ (t.outdir.above_join (hall 'a' (by decide) (by decide)) (List.cons_ne_nil _ _))
    (t.outdir.above_join (hall 'b' (by decide) (by decide)) (List.cons_ne_nil _ _))
    ((hkey 'a' (by decide) (by decide)).trans (hkey 'b' (by decide) (by decide)).symm)
  have hnames := List.append_cancel_left (PosixPath.ext_iff_fields.mp heq).2
  exact absurd (List.cons.inj (List.cons.inj hnames).1).1 (by decide)

theorem keysDistinct_iff : t.KeysDistinct ↔ t.Anchored :=
  ⟨anchored_of_keysDistinct, keysDistinct_of_anchored⟩

end Transfer

end OSimFlow.Executors.ResultTransport
