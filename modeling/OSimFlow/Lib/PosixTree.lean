import OSimFlow.Lib.Dict
import OSimFlow.Lib.PosixPath

/-!
# A file system under POSIX paths

The files and directories that a process sees, without links: what stands above a file or a
directory is a directory, and no path is both (`Disk`). `mkdirs` and `save` are what creating a
directory with its parents and writing a file do, or refuse to do.

> `perform_isSome`: operations that want no path as a file and as a directory all go through.
>
> `mem_files_of_perform`, `mem_dirs_of_perform`: what they made is there at the end.
-/

namespace OSimFlow.Lib

namespace PosixPath

/-- `p in q.parents`. -/
def Above (p q : PosixPath) : Prop :=
  p.root = q.root ∧ ∃ rest, rest ≠ [] ∧ q.names = p.names ++ rest

/-- The first `n` names. -/
def take (p : PosixPath) (n : Nat) : PosixPath :=
  ⟨p.root, p.names.take n, fun s hs => p.isName s (List.mem_of_mem_take hs)⟩

/-- `path.parents`, the farthest first. -/
def parents (p : PosixPath) : List PosixPath := (List.range p.names.length).map p.take

/-- `path.parent`. -/
def parent (p : PosixPath) : PosixPath := p.take (p.names.length - 1)

/-- The path with more names. -/
def join (p : PosixPath) (rest : List (List Char)) (h : ∀ s ∈ rest, IsName s) : PosixPath :=
  ⟨p.root, p.names ++ rest, fun s hs => (List.mem_append.mp hs).elim (p.isName s) (h s)⟩

theorem above_join (p : PosixPath) {rest : List (List Char)} (h : ∀ s ∈ rest, IsName s)
    (hne : rest ≠ []) : Above p (p.join rest h) :=
  ⟨rfl, rest, hne, rfl⟩

theorem mem_parents {p q : PosixPath} : p ∈ q.parents ↔ Above p q := by
  constructor
  · intro h
    obtain ⟨n, hn, rfl⟩ := List.mem_map.mp h
    have hlt : n < q.names.length := List.mem_range.mp hn
    refine ⟨rfl, q.names.drop n, ?_, (List.take_append_drop n q.names).symm⟩
    intro hnil
    have := List.drop_eq_nil_iff.mp hnil
    omega
  · rintro ⟨hroot, rest, hne, hnames⟩
    refine List.mem_map.mpr ⟨p.names.length, List.mem_range.mpr ?_, ?_⟩
    · rw [hnames, List.length_append]
      have := List.length_pos_of_ne_nil hne
      omega
    · refine ext_iff_fields.mpr ⟨hroot.symm, ?_⟩
      show q.names.take p.names.length = p.names
      rw [hnames, List.take_left]

instance (p q : PosixPath) : Decidable (Above p q) :=
  decidable_of_iff _ mem_parents

theorem Above.trans {p q r : PosixPath} (hpq : Above p q) (hqr : Above q r) : Above p r := by
  obtain ⟨hroot, x, hx, hq⟩ := hpq
  obtain ⟨hroot', y, _, hr⟩ := hqr
  refine ⟨hroot.trans hroot', x ++ y, ?_, ?_⟩
  · exact fun h => hx (List.append_eq_nil_iff.mp h).1
  · rw [hr, hq, List.append_assoc]

theorem Above.length_lt {p q : PosixPath} (h : Above p q) : p.names.length < q.names.length := by
  obtain ⟨_, rest, hne, hq⟩ := h
  have := List.length_pos_of_ne_nil hne
  rw [hq, List.length_append]
  omega

theorem not_above_self (p : PosixPath) : ¬ Above p p := fun h => Nat.lt_irrefl _ h.length_lt

/-- Two paths above one are the same, or one is above the other. -/
theorem Above.comparable {p q r : PosixPath} (hp : Above p r) (hq : Above q r) :
    p = q ∨ Above p q ∨ Above q p := by
  obtain ⟨hroot, x, _, hx⟩ := hp
  obtain ⟨hroot', y, _, hy⟩ := hq
  have heq : p.names ++ x = q.names ++ y := hx.symm.trans hy
  rcases List.append_eq_append_iff.mp heq with ⟨z, hz, _⟩ | ⟨z, hz, _⟩
  · by_cases hnil : z = []
    · rw [hnil, List.append_nil] at hz
      exact .inl (ext_iff_fields.mpr ⟨hroot.trans hroot'.symm, hz.symm⟩)
    · exact .inr (.inl ⟨hroot.trans hroot'.symm, z, hnil, hz⟩)
  · by_cases hnil : z = []
    · rw [hnil, List.append_nil] at hz
      exact .inl (ext_iff_fields.mpr ⟨hroot.trans hroot'.symm, hz⟩)
    · exact .inr (.inr ⟨hroot'.trans hroot.symm, z, hnil, hz⟩)

/-- What is above a path is its parent or above that. -/
theorem Above.parent {p q : PosixPath} (h : Above p q) : p = q.parent ∨ Above p q.parent := by
  obtain ⟨hroot, rest, hne, hq⟩ := h
  have hnames : q.parent.names = p.names ++ rest.dropLast := by
    show q.names.take (q.names.length - 1) = _
    rw [← List.dropLast_eq_take, hq, List.dropLast_append_of_ne_nil hne]
  by_cases hnil : rest.dropLast = []
  · rw [hnil, List.append_nil] at hnames
    exact .inl (ext_iff_fields.mpr ⟨hroot, hnames.symm⟩)
  · exact .inr ⟨hroot, rest.dropLast, hnil, hnames⟩

end PosixPath

open PosixPath (Above)

/-- Files and directories. -/
structure Disk (α : Type) where
  files : Dict PosixPath α
  dirs : List PosixPath
  disjoint : ∀ p ∈ dirs, files.get? p = none
  above_file : ∀ p q, Above p q → q ∈ files.keys → p ∈ dirs
  above_dir : ∀ p q, Above p q → q ∈ dirs → p ∈ dirs

namespace Disk

variable {α : Type}

instance : EmptyCollection (Disk α) :=
  ⟨⟨∅, [], fun _ h => (nomatch h), fun _ _ _ h => (nomatch h), fun _ _ _ h => (nomatch h)⟩⟩

def isDir (d : Disk α) (p : PosixPath) : Bool := decide (p ∈ d.dirs)

/-- Nothing is below a file. -/
theorem not_above_of_mem_files {d : Disk α} {p q : PosixPath} (hp : p ∈ d.files.keys)
    (h : Above p q) : q ∉ d.files.keys ∧ q ∉ d.dirs := by
  obtain ⟨v, hv⟩ := Dict.mem_keys_iff.mp hp
  have hnot : p ∉ d.dirs := fun hd => nomatch hv.symm.trans (d.disjoint p hd)
  exact ⟨fun hq => hnot (d.above_file p q h hq), fun hq => hnot (d.above_dir p q h hq)⟩

theorem notMem_dirs_of_mem_files {d : Disk α} {p : PosixPath} (hp : p ∈ d.files.keys) :
    p ∉ d.dirs := by
  intro hd
  obtain ⟨v, hv⟩ := Dict.mem_keys_iff.mp hp
  exact nomatch hv.symm.trans (d.disjoint p hd)

/-- `path.mkdir(parents=True, exist_ok=True)`. -/
def mkdirs (d : Disk α) (p : PosixPath) : Option (Disk α) :=
  if h : ∀ q ∈ p :: p.parents, q ∉ d.files.keys then
    some
      { files := d.files
        dirs := p :: p.parents ++ d.dirs
        disjoint := by
          intro q hq
          rcases List.mem_append.mp hq with hnew | hold
          · by_contra hne
            obtain ⟨v, hv⟩ := Option.ne_none_iff_exists'.mp hne
            exact h q hnew (Dict.mem_keys_of_get? hv)
          · exact d.disjoint q hold
        above_file := fun q r hqr hr => List.mem_append_right _ (d.above_file q r hqr hr)
        above_dir := by
          intro q r hqr hr
          rcases List.mem_append.mp hr with hnew | hold
          · refine List.mem_append_left _ ?_
            rcases List.mem_cons.mp hnew with rfl | hnew
            · exact List.mem_cons_of_mem _ (PosixPath.mem_parents.mpr hqr)
            · have hqp := hqr.trans (PosixPath.mem_parents.mp hnew)
              exact List.mem_cons_of_mem _ (PosixPath.mem_parents.mpr hqp)
          · exact List.mem_append_right _ (d.above_dir q r hqr hold) }
  else none

/-- A file written where its parents are directories. -/
def write (d : Disk α) (p : PosixPath) (v : α) : Option (Disk α) :=
  if h : p ∉ d.dirs ∧ ∀ q ∈ p.parents, q ∈ d.dirs then
    some
      { files := d.files.set p v
        dirs := d.dirs
        disjoint := by
          intro q hq
          have hne : p ≠ q := by
            rintro rfl
            exact h.1 hq
          rw [Dict.get?_set_ne _ hne]
          exact d.disjoint q hq
        above_file := by
          intro q r hqr hr
          obtain ⟨w, hw⟩ := Dict.mem_keys_iff.mp hr
          by_cases hne : p = r
          · exact h.2 q (PosixPath.mem_parents.mpr (hne ▸ hqr))
          · rw [Dict.get?_set_ne _ hne] at hw
            exact d.above_file q r hqr (Dict.mem_keys_of_get? hw)
        above_dir := d.above_dir }
  else none

/-- A file written after its parents have been made. -/
def save (d : Disk α) (p : PosixPath) (v : α) : Option (Disk α) := do
  let d ← d.mkdirs p.parent
  d.write p v

theorem mkdirs_eq_some {d d' : Disk α} {p : PosixPath} (h : d.mkdirs p = some d') :
    d'.files = d.files ∧ ∀ q, q ∈ d'.dirs ↔ (q = p ∨ Above q p) ∨ q ∈ d.dirs := by
  unfold mkdirs at h
  split at h
  next =>
    obtain rfl := Option.some.inj h
    refine ⟨rfl, fun q => ?_⟩
    show q ∈ p :: p.parents ++ d.dirs ↔ _
    rw [List.mem_append, List.mem_cons, PosixPath.mem_parents]
  next => exact nomatch h

theorem mkdirs_isSome {d : Disk α} {p : PosixPath}
    (h : ∀ q, q = p ∨ Above q p → q ∉ d.files.keys) : ∃ d', d.mkdirs p = some d' := by
  have hfree : ∀ q ∈ p :: p.parents, q ∉ d.files.keys := by
    intro q hq
    rcases List.mem_cons.mp hq with heq | hpar
    · exact h q (.inl heq)
    · exact h q (.inr (PosixPath.mem_parents.mp hpar))
  unfold mkdirs
  rw [dif_pos hfree]
  exact ⟨_, rfl⟩

theorem write_eq_some {d d' : Disk α} {p : PosixPath} {v : α} (h : d.write p v = some d') :
    d'.files = d.files.set p v ∧ d'.dirs = d.dirs := by
  unfold write at h
  split at h
  next =>
    obtain rfl := Option.some.inj h
    exact ⟨rfl, rfl⟩
  next => exact nomatch h

theorem save_eq_some {d d' : Disk α} {p : PosixPath} {v : α} (h : d.save p v = some d') :
    d'.files = d.files.set p v ∧
      ∀ q, q ∈ d'.dirs ↔ (q = p.parent ∨ Above q p.parent) ∨ q ∈ d.dirs := by
  obtain ⟨e, hmk, hwrite⟩ := Option.bind_eq_some_iff.mp h
  obtain ⟨hfiles, hdirs⟩ := mkdirs_eq_some hmk
  obtain ⟨hfiles', hdirs'⟩ := write_eq_some hwrite
  rw [hfiles', hfiles, hdirs']
  exact ⟨rfl, hdirs⟩

theorem above_of_parent {p q : PosixPath} (hp : p.names ≠ []) (h : q = p.parent ∨ Above q p.parent) :
    Above q p := by
  have hparent : Above p.parent p := by
    refine PosixPath.mem_parents.mp (List.mem_map.mpr ⟨p.names.length - 1, ?_, rfl⟩)
    have := List.length_pos_of_ne_nil hp
    exact List.mem_range.mpr (by omega)
  rcases h with rfl | h
  · exact hparent
  · exact h.trans hparent

theorem save_isSome {d : Disk α} {p : PosixPath} (v : α) (hp : p.names ≠ []) (hdir : p ∉ d.dirs)
    (hfree : ∀ q, Above q p → q ∉ d.files.keys) : ∃ d', d.save p v = some d' := by
  obtain ⟨e, hmk⟩ := mkdirs_isSome fun q hq => hfree q (above_of_parent hp hq)
  obtain ⟨_, hdirs⟩ := mkdirs_eq_some hmk
  have hwrite : p ∉ e.dirs ∧ ∀ q ∈ p.parents, q ∈ e.dirs := by
    refine ⟨fun h => ?_, fun q hq => ?_⟩
    · rcases (hdirs p).mp h with hpar | hold
      · exact PosixPath.not_above_self p (above_of_parent hp hpar)
      · exact hdir hold
    · exact (hdirs q).mpr (.inl (PosixPath.mem_parents.mp hq).parent)
  unfold save write
  rw [hmk]
  show ∃ d', dite _ _ _ = some d'
  rw [dif_pos hwrite]
  exact ⟨_, rfl⟩

/-! ## One after the other -/

inductive Op (α : Type) where
  | dir (p : PosixPath)
  | file (p : PosixPath) (v : α)

def Op.path : Op α → PosixPath
  | dir p | file p _ => p

def act (d : Disk α) : Op α → Option (Disk α)
  | .dir p => d.mkdirs p
  | .file p v => d.save p v

def perform (d : Disk α) : List (Op α) → Option (Disk α)
  | [] => some d
  | op :: ops => do
    let d ← d.act op
    perform d ops

theorem perform_append (d : Disk α) (ops ops' : List (Op α)) :
    d.perform (ops ++ ops') = (d.perform ops).bind fun d => d.perform ops' := by
  induction ops generalizing d with
  | nil => rfl
  | cons op ops ih =>
    show (d.act op).bind (fun d => d.perform (ops ++ ops')) = ((d.act op).bind _).bind _
    rw [Option.bind_assoc]
    exact congrArg (Option.bind _) (funext fun d => ih d)

/-- Nothing that is made goes away. -/
theorem act_mono {d d' : Disk α} {op : Op α} (h : d.act op = some d') :
    (∀ p ∈ d.dirs, p ∈ d'.dirs) ∧ ∀ p ∈ d.files.keys, p ∈ d'.files.keys := by
  cases op with
  | dir q =>
    obtain ⟨hfiles, hdirs⟩ := mkdirs_eq_some h
    exact ⟨fun p hp => (hdirs p).mpr (.inr hp), fun p hp => hfiles ▸ hp⟩
  | file q v =>
    obtain ⟨hfiles, hdirs⟩ := save_eq_some h
    refine ⟨fun p hp => (hdirs p).mpr (.inr hp), fun p hp => ?_⟩
    rw [hfiles]
    exact Dict.mem_keys_set.mpr (.inl hp)

theorem perform_mono {ops : List (Op α)} {d d' : Disk α} (h : d.perform ops = some d') :
    (∀ p ∈ d.dirs, p ∈ d'.dirs) ∧ ∀ p ∈ d.files.keys, p ∈ d'.files.keys := by
  induction ops generalizing d with
  | nil =>
    obtain rfl := Option.some.inj h
    exact ⟨fun p hp => hp, fun p hp => hp⟩
  | cons op ops ih =>
    obtain ⟨e, hact, hrest⟩ := Option.bind_eq_some_iff.mp h
    obtain ⟨hdirs, hfiles⟩ := act_mono hact
    obtain ⟨hdirs', hfiles'⟩ := ih hrest
    exact ⟨fun p hp => hdirs' p (hdirs p hp), fun p hp => hfiles' p (hfiles p hp)⟩

theorem mem_dirs_of_perform {ops : List (Op α)} {d d' : Disk α} (h : d.perform ops = some d')
    {p : PosixPath} (hp : Op.dir p ∈ ops) : p ∈ d'.dirs := by
  induction ops generalizing d with
  | nil => exact nomatch hp
  | cons op ops ih =>
    obtain ⟨e, hact, hrest⟩ := Option.bind_eq_some_iff.mp h
    rcases List.mem_cons.mp hp with rfl | hp
    · exact (perform_mono hrest).1 p (((mkdirs_eq_some hact).2 p).mpr (.inl (.inl rfl)))
    · exact ih hrest hp

theorem mem_files_of_perform {ops : List (Op α)} {d d' : Disk α} (h : d.perform ops = some d')
    {p : PosixPath} {v : α} (hp : Op.file p v ∈ ops) : p ∈ d'.files.keys := by
  induction ops generalizing d with
  | nil => exact nomatch hp
  | cons op ops ih =>
    obtain ⟨e, hact, hrest⟩ := Option.bind_eq_some_iff.mp h
    rcases List.mem_cons.mp hp with rfl | hp
    · refine (perform_mono hrest).2 p ?_
      rw [(save_eq_some hact).1]
      exact Dict.mem_keys_set.mpr (.inr rfl)
    · exact ih hrest hp

/-- What is written under a path is the last thing there. -/
theorem get?_perform {ops : List (Op α)} {d d' : Disk α} {f : PosixPath → α}
    (h : d.perform ops = some d') (hv : ∀ p v, Op.file p v ∈ ops → v = f p) {p : PosixPath}
    (hp : d.files.get? p = some (f p) ∨ ∃ v, Op.file p v ∈ ops) :
    d'.files.get? p = some (f p) := by
  induction ops generalizing d with
  | nil =>
    obtain rfl := Option.some.inj h
    rcases hp with hp | ⟨_, hp⟩
    · exact hp
    · exact nomatch hp
  | cons op ops ih =>
    obtain ⟨e, hact, hrest⟩ := Option.bind_eq_some_iff.mp h
    refine ih hrest (fun p v hm => hv p v (List.mem_cons_of_mem _ hm)) ?_
    cases op with
    | dir q =>
      rw [(mkdirs_eq_some hact).1]
      refine hp.imp id fun ⟨v, hm⟩ => ⟨v, ?_⟩
      exact (List.mem_cons.mp hm).resolve_left (fun heq => nomatch heq)
    | file q w =>
      rw [(save_eq_some hact).1]
      by_cases hq : q = p
      · left
        rw [hq, Dict.get?_set_self, hv q w List.mem_cons_self, hq]
      · rw [Dict.get?_set_ne _ hq]
        refine hp.imp id fun ⟨v, hm⟩ => ⟨v, ?_⟩
        refine (List.mem_cons.mp hm).resolve_left fun heq => ?_
        injection heq with hpath
        exact hq hpath.symm

/-- No path is wanted as a file and as a directory. -/
structure Fits (d : Disk α) (ops : List (Op α)) : Prop where
  named : ∀ p v, Op.file p v ∈ ops → p.names ≠ []
  file_above : ∀ p v, Op.file p v ∈ ops → ∀ op ∈ ops, ¬ Above p op.path
  file_dir : ∀ p v, Op.file p v ∈ ops → Op.dir p ∉ ops
  old_file_above : ∀ p ∈ d.files.keys, ∀ op ∈ ops, ¬ Above p op.path
  old_file_dir : ∀ p ∈ d.files.keys, Op.dir p ∉ ops
  old_dir : ∀ p v, Op.file p v ∈ ops → p ∉ d.dirs

theorem Fits.act {d : Disk α} {op : Op α} {ops : List (Op α)} (h : d.Fits (op :: ops)) :
    ∃ d', d.act op = some d' ∧ d'.Fits ops := by
  have hmem : ∀ {o}, o ∈ ops → o ∈ op :: ops := fun hm => List.mem_cons_of_mem _ hm
  cases op with
  | dir q =>
    have hfree : ∀ r, r = q ∨ Above r q → r ∉ d.files.keys := by
      rintro r (rfl | hr) hm
      · exact h.old_file_dir r hm List.mem_cons_self
      · exact h.old_file_above r hm _ List.mem_cons_self hr
    obtain ⟨d', hd'⟩ := mkdirs_isSome hfree
    obtain ⟨hfiles, hdirs⟩ := mkdirs_eq_some hd'
    refine ⟨d', hd', ?_, ?_, ?_, ?_, ?_, ?_⟩
    · exact fun p v hm => h.named p v (hmem hm)
    · exact fun p v hm o ho => h.file_above p v (hmem hm) o (hmem ho)
    · exact fun p v hm hdir => h.file_dir p v (hmem hm) (hmem hdir)
    · exact fun p hp o ho => h.old_file_above p (hfiles ▸ hp) o (hmem ho)
    · exact fun p hp hdir => h.old_file_dir p (hfiles ▸ hp) (hmem hdir)
    · intro p v hm hdir
      rcases (hdirs p).mp hdir with (rfl | habove) | hold
      · exact h.file_dir p v (hmem hm) List.mem_cons_self
      · exact h.file_above p v (hmem hm) _ List.mem_cons_self habove
      · exact h.old_dir p v (hmem hm) hold
  | file q w =>
    have hq : Op.file q w ∈ Op.file q w :: ops := List.mem_cons_self
    obtain ⟨d', hd'⟩ := save_isSome w (h.named q w hq) (h.old_dir q w hq)
      fun r hr hm => h.old_file_above r hm _ hq hr
    obtain ⟨hfiles, hdirs⟩ := save_eq_some hd'
    have hkeys : ∀ p ∈ d'.files.keys, p = q ∨ p ∈ d.files.keys := by
      intro p hp
      rw [hfiles] at hp
      exact (Dict.mem_keys_set.mp hp).symm.imp Eq.symm id
    refine ⟨d', hd', ?_, ?_, ?_, ?_, ?_, ?_⟩
    · exact fun p v hm => h.named p v (hmem hm)
    · exact fun p v hm o ho => h.file_above p v (hmem hm) o (hmem ho)
    · exact fun p v hm hdir => h.file_dir p v (hmem hm) (hmem hdir)
    · intro p hp o ho
      rcases hkeys p hp with rfl | hold
      · exact h.file_above p w hq o (hmem ho)
      · exact h.old_file_above p hold o (hmem ho)
    · intro p hp hdir
      rcases hkeys p hp with rfl | hold
      · exact h.file_dir p w hq (hmem hdir)
      · exact h.old_file_dir p hold (hmem hdir)
    · intro p v hm hdir
      rcases (hdirs p).mp hdir with hpar | hold
      · exact h.file_above p v (hmem hm) _ hq (above_of_parent (h.named q w hq) hpar)
      · exact h.old_dir p v (hmem hm) hold

theorem perform_isSome {ops : List (Op α)} {d : Disk α} (h : d.Fits ops) :
    ∃ d', d.perform ops = some d' := by
  induction ops generalizing d with
  | nil => exact ⟨d, rfl⟩
  | cons op ops ih =>
    obtain ⟨e, hact, hfits⟩ := h.act
    obtain ⟨d', hd'⟩ := ih hfits
    refine ⟨d', ?_⟩
    show (d.act op).bind _ = _
    rw [hact]
    exact hd'

end Disk

end OSimFlow.Lib
