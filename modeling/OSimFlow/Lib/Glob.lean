import Mathlib.Data.List.Infix

/-!
# Glob patterns, as Redis matches them

`*` any characters, `?` one, `[abc]`, `[^a]`, `[a-z]` one of a class, `\c` the
character itself. A pattern is read into tokens first (`parse`), and the tokens
are matched structurally (`Token.matches`).

`globMatch_literal_star` is the fact everyone relies on: a literal followed by
`*` matches exactly the strings it is a prefix of. It needs the literal to be
free of the special characters (`Plain`).
-/

namespace OSimFlow.Lib.Glob

/-- One step of a pattern. -/
inductive Token where
  | star
  | one
  | oneOf (negated : Bool) (ranges : List (Char × Char))
  | literal (c : Char)
deriving DecidableEq

/-- A class, from after its `[` and `^`: its ranges, and what follows its `]`. -/
def parseClass : (fuel : Nat) → List Char → List (Char × Char) × List Char
  | 0, p => ([], p)
  | _ + 1, [] => ([], [])
  | fuel + 1, '\\' :: c :: p =>
    ((c, c) :: (parseClass fuel p).1, (parseClass fuel p).2)
  | _ + 1, ']' :: p => ([], p)
  | fuel + 1, a :: '-' :: b :: p =>
    ((if a ≤ b then (a, b) else (b, a)) :: (parseClass fuel p).1, (parseClass fuel p).2)
  | fuel + 1, c :: p => ((c, c) :: (parseClass fuel p).1, (parseClass fuel p).2)

/-- A pattern, read; `fuel` is its length. -/
def parseAux : (fuel : Nat) → List Char → List Token
  | 0, _ => []
  | _ + 1, [] => []
  | fuel + 1, c :: p =>
    if c = '*' then .star :: parseAux fuel p
    else if c = '?' then .one :: parseAux fuel p
    else if c = '[' then
      let negated := p.head? = some '^'
      let body := parseClass fuel (if negated then p.tail else p)
      .oneOf negated body.1 :: parseAux fuel body.2
    else if c = '\\' then
      -- at the end of the pattern it stands for itself
      .literal (p.headD c) :: parseAux fuel p.tail
    else .literal c :: parseAux fuel p

def parse (pattern : List Char) : List Token :=
  parseAux pattern.length pattern

/-- The tokens match the string. -/
def Token.matches : List Token → List Char → Bool
  | [], s => s.isEmpty
  | star :: ts, s => s.tails.any fun rest => Token.matches ts rest
  | one :: ts, _ :: s => Token.matches ts s
  | oneOf negated ranges :: ts, c :: s =>
    (ranges.any (fun r => decide (r.1 ≤ c ∧ c ≤ r.2)) != negated) && Token.matches ts s
  | literal c' :: ts, c :: s => decide (c' = c) && Token.matches ts s
  | one :: _, [] => false
  | oneOf _ _ :: _, [] => false
  | literal _ :: _, [] => false

/-- `stringmatch(pattern, string)`. -/
def globMatch (pattern string : List Char) : Bool :=
  Token.matches (parse pattern) string

/-- No character of it means anything but itself. -/
def Plain (s : List Char) : Prop :=
  ∀ c ∈ s, c ≠ '*' ∧ c ≠ '?' ∧ c ≠ '[' ∧ c ≠ '\\'

instance : DecidablePred Plain :=
  fun s => inferInstanceAs (Decidable (∀ c ∈ s, c ≠ '*' ∧ c ≠ '?' ∧ c ≠ '[' ∧ c ≠ '\\'))

theorem plain_singleton {c : Char} (h : c ≠ '*' ∧ c ≠ '?' ∧ c ≠ '[' ∧ c ≠ '\\') :
    Plain [c] := by
  intro d hd
  rw [List.mem_singleton.mp hd]
  exact h

/-- Letters and digits mean themselves. -/
theorem plain_of_isAlphanum {s : List Char} (h : s.all Char.isAlphanum = true) : Plain s := by
  intro c hc
  have halnum := List.all_eq_true.mp h c hc
  refine ⟨?_, ?_, ?_, ?_⟩
  all_goals
    rintro rfl
    exact absurd halnum (by decide)

theorem plain_append {s t : List Char} : Plain (s ++ t) ↔ Plain s ∧ Plain t :=
  List.forall_mem_append

theorem parseAux_plain {s : List Char} (hs : Plain s) (p : List Char) (fuel : Nat) :
    parseAux (s.length + fuel) (s ++ p) = s.map .literal ++ parseAux fuel p := by
  induction s with
  | nil => rw [List.length_nil, Nat.zero_add]; rfl
  | cons c s ih =>
    obtain ⟨hstar, hone, hclass, hescape⟩ := hs c List.mem_cons_self
    have hrest := ih fun c' hc => hs c' (List.mem_cons_of_mem c hc)
    have hlen : (c :: s).length + fuel = (s.length + fuel) + 1 := by
      rw [List.length_cons]
      omega
    rw [hlen, List.cons_append, parseAux, if_neg hstar, if_neg hone, if_neg hclass,
      if_neg hescape, hrest]
    rfl

/-- A literal prefix is consumed. -/
theorem matches_literals (l : List Char) (ts : List Token) (s : List Char) :
    Token.matches (l.map .literal ++ ts) s = true ↔
      ∃ rest, s = l ++ rest ∧ Token.matches ts rest = true := by
  induction l generalizing s with
  | nil => simp
  | cons c l ih =>
    cases s with
    | nil =>
      constructor
      · intro h
        exact nomatch h
      · intro h
        obtain ⟨rest, h, -⟩ := h
        exact nomatch h
    | cons c' s =>
      rw [List.map_cons, List.cons_append, Token.matches, Bool.and_eq_true, decide_eq_true_eq,
        ih]
      constructor
      · intro h
        obtain ⟨rfl, rest, rfl, hm⟩ := h
        exact ⟨rest, rfl, hm⟩
      · intro h
        obtain ⟨rest, he, hm⟩ := h
        injection he with hc hs
        exact ⟨hc.symm, rest, hs, hm⟩

/-- A star at the end matches anything. -/
theorem matches_star (s : List Char) : Token.matches [.star] s = true := by
  rw [Token.matches, List.any_eq_true]
  exact ⟨[], (List.mem_tails [] s).mpr s.nil_suffix, rfl⟩

/-- A literal and a star: the prefix test. -/
theorem globMatch_literal_star {l : List Char} (hl : Plain l) (s : List Char) :
    globMatch (l ++ ['*']) s = true ↔ l <+: s := by
  have hp : parse (l ++ ['*']) = l.map .literal ++ [.star] := by
    rw [parse, List.length_append]
    exact parseAux_plain hl ['*'] 1
  rw [globMatch, hp, matches_literals]
  constructor
  · intro h
    obtain ⟨rest, he, -⟩ := h
    exact ⟨rest, he.symm⟩
  · intro h
    obtain ⟨rest, he⟩ := h
    exact ⟨rest, he.symm, matches_star rest⟩

end OSimFlow.Lib.Glob
