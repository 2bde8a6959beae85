import OSimFlow.Lib.PosixTree

/-!
# Copying a tree to another place

What is at or below a path, moved with its path, and what a disk holds after the operations
that make a copy of it (`Copies`). The copy is exact where nothing was before (`Mirrors`).

> `Copies.perform`: the operations all go through.
>
> `Copies.mirrors`: what they leave is the tree, file by file and directory by directory.
-/

namespace OSimFlow.Lib

namespace PosixPath

/-- `path == root or root in path.parents` -/
def Within (p root : PosixPath) : Prop := p = root ∨ Above root p

instance (p root : PosixPath) : Decidable (Within p root) := by
  unfold Within
  infer_instance

/-- `dst / p.relative_to(src)` -/
def moved (p src dst : PosixPath) : PosixPath :=
  dst.join (p.names.drop src.names.length) fun s hs => p.isName s (List.mem_of_mem_drop hs)

theorem within_append_iff {p root : PosixPath} :
    Within p root ↔ p.root = root.root ∧ ∃ rest, p.names = root.names ++ rest := by
  constructor
  · rintro (rfl | ⟨hroot, rest, -, h⟩)
    · exact ⟨rfl, [], (List.append_nil _).symm⟩
    · exact ⟨hroot.symm, rest, h⟩
  · rintro ⟨hroot, rest, h⟩
    by_cases hnil : rest = []
    · exact .inl (ext_iff_fields.mpr ⟨hroot, by rw [h, hnil, List.append_nil]⟩)
    · exact .inr ⟨hroot.symm, rest, hnil, h⟩

theorem within_self (p : PosixPath) : Within p p := .inl rfl

theorem within_trans {p q r : PosixPath} (hpq : Within p q) (hqr : Within q r) : Within p r := by
  grind [Within, Above.trans]

theorem above_of_within {p q r : PosixPath} (h : Above r q) (hp : Within p q) : Above r p := by
  grind [Within, Above.trans]

/-- Of two paths that one is at or below, one is at or below the other. -/
theorem within_comparable {p q r : PosixPath} (hp : Within r p) (hq : Within r q) :
    Within p q ∨ Above p q := by
  grind [Within, Above.comparable]

theorem within_moved (p src dst : PosixPath) : Within (p.moved src dst) dst :=
  within_append_iff.mpr ⟨rfl, _, rfl⟩

@[simp] theorem moved_self (src dst : PosixPath) : src.moved src dst = dst := by
  refine ext_iff_fields.mpr ⟨rfl, ?_⟩
  show dst.names ++ src.names.drop src.names.length = dst.names
  rw [List.drop_length, List.append_nil]

/-- The way there and back. -/
theorem moved_moved {p src : PosixPath} (h : Within p src) (dst : PosixPath) :
    (p.moved src dst).moved dst src = p := by
  obtain ⟨hroot, rest, hp⟩ := within_append_iff.mp h
  refine ext_iff_fields.mpr ⟨hroot.symm, ?_⟩
  show src.names ++ (dst.names ++ p.names.drop src.names.length).drop dst.names.length = p.names
  rw [List.drop_left, hp, List.drop_left]

theorem moved_inj {p q src dst : PosixPath} (hp : Within p src) (hq : Within q src)
    (h : p.moved src dst = q.moved src dst) : p = q := by
  rw [← moved_moved hp dst, h, moved_moved hq]

theorem above_moved {p q src : PosixPath} (hp : Within p src) (hq : Within q src)
    (dst : PosixPath) : Above (p.moved src dst) (q.moved src dst) ↔ Above p q := by
  have hmove : ∀ {p q a b : PosixPath}, Within p a → Above p q →
      Above (p.moved a b) (q.moved a b) := by
    rintro p q a b hp ⟨-, rest, hne, hq⟩
    obtain ⟨-, below, hp⟩ := within_append_iff.mp hp
    refine ⟨rfl, rest, hne, ?_⟩
    show b.names ++ q.names.drop a.names.length = b.names ++ p.names.drop a.names.length ++ rest
    rw [hq, hp, List.append_assoc, List.drop_left, List.drop_left, List.append_assoc]
  refine ⟨fun h => ?_, hmove hp⟩
  have hback := hmove (b := src) (within_moved p src dst) h
  rwa [moved_moved hp, moved_moved hq] at hback

end PosixPath

open PosixPath

namespace Disk

variable {α : Type}

theorem get?_perform_of_notMem {ops : List (Op α)} {d d' : Disk α} (h : d.perform ops = some d')
    {p : PosixPath} (hp : ∀ v, Op.file p v ∉ ops) : d'.files.get? p = d.files.get? p := by
  induction ops generalizing d with
  | nil =>
    obtain rfl := Option.some.inj h
    rfl
  | cons op ops ih =>
    obtain ⟨e, hact, hrest⟩ := Option.bind_eq_some_iff.mp h
    rw [ih hrest fun v hv => hp v (List.mem_cons_of_mem _ hv)]
    cases op with
    | dir q => rw [(mkdirs_eq_some hact).1]
    | file q w =>
      rw [(save_eq_some hact).1, Dict.get?_set_ne]
      rintro rfl
      exact hp w List.mem_cons_self

/-- The directories that there are afterwards. -/
theorem mem_dirs_perform {ops : List (Op α)} {d d' : Disk α} (h : d.perform ops = some d')
    (hnamed : ∀ p v, Op.file p v ∈ ops → p.names ≠ []) {q : PosixPath} (hq : q ∈ d'.dirs) :
    q ∈ d.dirs ∨ Op.dir q ∈ ops ∨ ∃ op ∈ ops, Above q op.path := by
  induction ops generalizing d with
  | nil =>
    obtain rfl := Option.some.inj h
    exact .inl hq
  | cons op ops ih =>
    obtain ⟨e, hact, hrest⟩ := Option.bind_eq_some_iff.mp h
    rcases ih hrest fun p v hm => hnamed p v (List.mem_cons_of_mem _ hm) with he | hop | ⟨o, ho, hab⟩
    · cases op with
      | dir r =>
        rcases ((mkdirs_eq_some hact).2 q).mp he with (rfl | hr) | hd
        · exact .inr (.inl List.mem_cons_self)
        · exact .inr (.inr ⟨_, List.mem_cons_self, hr⟩)
        · exact .inl hd
      | file r w =>
        rcases ((save_eq_some hact).2 q).mp he with hr | hd
        · have hne := hnamed r w List.mem_cons_self
          exact .inr (.inr ⟨_, List.mem_cons_self, above_of_parent hne hr⟩)
        · exact .inl hd
    · exact .inr (.inl (List.mem_cons_of_mem _ hop))
    · exact .inr (.inr ⟨o, List.mem_cons_of_mem _ ho, hab⟩)

/-- Nothing is there, nor below. -/
def Vacant (d : Disk α) (s : PosixPath) : Prop :=
  ∀ q, Within q s → q ∉ d.files.keys ∧ q ∉ d.dirs

/-- No file is above. -/
def Open (d : Disk α) (s : PosixPath) : Prop := ∀ f ∈ d.files.keys, ¬ Above f s

/-- Operations elsewhere leave a place as it is. -/
theorem perform_frame {ops : List (Op α)} {d d' : Disk α} (h : d.perform ops = some d')
    (hnamed : ∀ p v, Op.file p v ∈ ops → p.names ≠ []) {b : PosixPath}
    (hb : ∀ op ∈ ops, Within op.path b) {q : PosixPath} (hq : ¬ Within q b) (hab : ¬ Above q b) :
    d'.files.get? q = d.files.get? q ∧ (q ∈ d'.dirs ↔ q ∈ d.dirs) := by
  refine ⟨get?_perform_of_notMem h fun v hv => hq (hb _ hv), fun hd => ?_, (perform_mono h).1 q⟩
  rcases mem_dirs_perform h hnamed hd with hold | hop | ⟨op, hop, habove⟩
  · exact hold
  · exact absurd (hb _ hop) hq
  · rcases within_comparable (.inr habove) (hb op hop) with hw | ha
    · exact absurd hw hq
    · exact absurd ha hab

variable {β : Type}

/-- What is at or below `s` is what is at or below `p`, each file changed by `keep`. -/
def Mirrors (keep : β → α) (d : Disk β) (p : PosixPath) (w : Disk α) (s : PosixPath) : Prop :=
  ∀ q, Within q p → w.files.get? (q.moved p s) = (d.files.get? q).map keep ∧
    (q.moved p s ∈ w.dirs ↔ q ∈ d.dirs)

/-- The operations make at `s` what is at `p`. -/
structure Copies (keep : β → α) (d : Disk β) (p s : PosixPath) (ops : List (Op α)) : Prop where
  dir_mem : ∀ t, Op.dir t ∈ ops ↔ ∃ q ∈ d.dirs, Within q p ∧ t = q.moved p s
  file_mem : ∀ t v, Op.file t v ∈ ops ↔
    ∃ q u, d.files.get? q = some u ∧ Within q p ∧ t = q.moved p s ∧ v = keep u

namespace Copies

variable {keep : β → α} {d : Disk β} {p s : PosixPath} {ops : List (Op α)}

theorem within (h : Copies keep d p s ops) : ∀ op ∈ ops, Within op.path s := by
  intro op hop
  cases op with
  | dir t =>
    obtain ⟨q, -, -, rfl⟩ := (h.dir_mem t).mp hop
    exact within_moved q p s
  | file t v =>
    obtain ⟨q, u, -, -, rfl, -⟩ := (h.file_mem t v).mp hop
    exact within_moved q p s

theorem named (h : Copies keep d p s ops) (hs : s.names ≠ []) :
    ∀ t v, Op.file t v ∈ ops → t.names ≠ [] := by
  intro t v hop hnil
  obtain ⟨-, rest, ht⟩ := within_append_iff.mp (h.within _ hop)
  exact hs (List.append_eq_nil_iff.mp (ht.symm.trans hnil)).1

/-- What an operation is about is on the disk that is copied. -/
theorem source (h : Copies keep d p s ops) {op : Op α} (hop : op ∈ ops) :
    ∃ q, Within q p ∧ op.path = q.moved p s ∧ (q ∈ d.files.keys ∨ q ∈ d.dirs) := by
  cases op with
  | dir t =>
    obtain ⟨q, hq, hw, ht⟩ := (h.dir_mem t).mp hop
    exact ⟨q, hw, ht, .inr hq⟩
  | file t v =>
    obtain ⟨q, u, hq, hw, ht, -⟩ := (h.file_mem t v).mp hop
    exact ⟨q, hw, ht, .inl (Dict.mem_keys_of_get? hq)⟩

theorem perform (h : Copies keep d p s ops) (hs : s.names ≠ []) {w : Disk α} (hv : w.Vacant s)
    (ho : w.Open s) : ∃ w', w.perform ops = some w' := by
  refine perform_isSome ⟨h.named hs, ?_, ?_, ?_, ?_, ?_⟩
  · intro t v hop op hop' habove
    obtain ⟨q, u, hq, hw, rfl, -⟩ := (h.file_mem t v).mp hop
    obtain ⟨r, hr, hpath, hmem⟩ := h.source hop'
    rw [hpath, above_moved hw hr] at habove
    have hfree := not_above_of_mem_files (Dict.mem_keys_of_get? hq) habove
    exact hmem.elim hfree.1 hfree.2
  · intro t v hop hdir
    obtain ⟨q, u, hq, hw, rfl, -⟩ := (h.file_mem t v).mp hop
    obtain ⟨r, hr, hwr, heq⟩ := (h.dir_mem _).mp hdir
    obtain rfl := moved_inj hw hwr heq
    exact notMem_dirs_of_mem_files (Dict.mem_keys_of_get? hq) hr
  · intro f hf op hop habove
    rcases within_comparable (.inr habove) (h.within op hop) with hw | ha
    · exact (hv f hw).1 hf
    · exact ho f hf ha
  · exact fun f hf hop => (hv f (h.within _ hop)).1 hf
  · exact fun t v hop => (hv t (h.within _ hop)).2

theorem mirrors (h : Copies keep d p s ops) (hs : s.names ≠ []) {w w' : Disk α} (hv : w.Vacant s)
    (hw' : w.perform ops = some w') : Mirrors keep d p w' s := by
  intro q hq
  have hnew := hv _ (within_moved q p s)
  constructor
  · cases hget : d.files.get? q with
    | none =>
      rw [get?_perform_of_notMem hw', Dict.get?_of_notMem hnew.1]
      · rfl
      · intro v hop
        obtain ⟨r, u, hr, hwr, heq, -⟩ := (h.file_mem _ v).mp hop
        obtain rfl := moved_inj hq hwr heq
        exact nomatch hget.symm.trans hr
    | some u =>
      have hval : ∀ t v, Op.file t v ∈ ops →
          v = ((d.files.get? (t.moved s p)).map keep).getD (keep u) := by
        intro t v hop
        obtain ⟨r, x, hr, hwr, rfl, rfl⟩ := (h.file_mem t v).mp hop
        rw [moved_moved hwr, hr]
        rfl
      have hop := (h.file_mem _ _).mpr ⟨q, u, hget, hq, rfl, rfl⟩
      rw [get?_perform hw' hval (.inr ⟨_, hop⟩), moved_moved hq, hget]
      rfl
  · constructor
    · intro hd
      rcases mem_dirs_perform hw' (h.named hs) hd with hold | hop | ⟨op, hop, habove⟩
      · exact absurd hold hnew.2
      · obtain ⟨r, hr, hwr, heq⟩ := (h.dir_mem _).mp hop
        exact moved_inj hq hwr heq ▸ hr
      · obtain ⟨r, hr, hpath, hmem⟩ := h.source hop
        rw [hpath, above_moved hq hr] at habove
        exact hmem.elim (d.above_file q r habove) (d.above_dir q r habove)
    · exact fun hd => mem_dirs_of_perform hw' ((h.dir_mem _).mpr ⟨q, hd, hq, rfl⟩)

end Copies

end Disk

end OSimFlow.Lib
