import OSimFlow.Observability.Audit

/-!
# Reading a JSON string back

`dumpsStr` writes a string so that it ends at the first quote that is not escaped: what follows it
in a text does not matter, and two texts that begin with different strings differ.

> `dumpsStr_append_inj`: a text that begins with a string determines the string and the rest.

A character outside the basic plane is written as a pair of surrogates; a surrogate is no character,
so the four digits after a `\u` say which of the two was written.
-/

namespace OSimFlow.JsonText

open OSimFlow.Observability.Audit

/-- The value of a hexadecimal digit, in the lower case that is written. -/
def hexValue (c : Char) : Nat :=
  if c.toNat < 'a'.toNat then c.toNat - '0'.toNat else c.toNat - 'a'.toNat + 10

theorem hexValue_digitChar : ∀ n, n < 16 → hexValue (Nat.digitChar n) = n := by
  decide

/-- The value of the four digits in front, and what follows. -/
def readHex4 : List Char → Option (Nat × List Char)
  | a :: b :: c :: d :: rest =>
    some (((hexValue a * 16 + hexValue b) * 16 + hexValue c) * 16 + hexValue d, rest)
  | _ => none

theorem readHex4_hex4 {n : Nat} (h : n < 65536) (rest : List Char) :
    readHex4 ((hex4 n).toList ++ rest) = some (n, rest) := by
  have hlist : (hex4 n).toList = [Nat.digitChar (n / 4096 % 16), Nat.digitChar (n / 256 % 16),
      Nat.digitChar (n / 16 % 16), Nat.digitChar (n % 16)] := String.toList_ofList
  rw [hlist]
  show some (((hexValue _ * 16 + hexValue _) * 16 + hexValue _) * 16 + hexValue _, rest) = _
  rw [hexValue_digitChar _ (by omega), hexValue_digitChar _ (by omega),
    hexValue_digitChar _ (by omega), hexValue_digitChar _ (by omega)]
  have hsum : ((n / 4096 % 16 * 16 + n / 256 % 16) * 16 + n / 16 % 16) * 16 + n % 16 = n := by
    omega
  rw [hsum]

/-- What the letter after a backslash stands for. -/
def simpleEscape (c : Char) : Char :=
  if c = 'n' then '\n' else if c = 'r' then '\r' else if c = 't' then '\t'
  else if c = 'f' then '\x0c' else if c = 'b' then '\x08' else c

/-- What stands after `\u`: the digits of a character, or of the first of a pair. -/
def readUnicode (l : List Char) : Option (Char × List Char) :=
  match readHex4 l with
  | some (n, rest) =>
    if 0xd800 ≤ n ∧ n < 0xdc00 then
      (readHex4 (rest.drop 2)).map fun low =>
        (Char.ofNat (0x10000 + (n - 0xd800) * 1024 + (low.1 - 0xdc00)), low.2)
    else some (Char.ofNat n, rest)
  | none => none

/-- The character in front of a text as it is inside a string. -/
def readChar : List Char → Option (Char × List Char)
  | '\\' :: 'u' :: rest => readUnicode rest
  | '\\' :: c :: rest => some (simpleEscape c, rest)
  | c :: rest => some (c, rest)
  | [] => none

/-- A character that is written as it is. -/
theorem readChar_plain {c : Char} (h : c ≠ '\\') (rest : List Char) :
    readChar (c :: rest) = some (c, rest) := by
  unfold readChar
  split
  next heq => exact absurd (List.cons.inj heq).1 h
  next heq => exact absurd (List.cons.inj heq).1 h
  next heq =>
    obtain ⟨rfl, rfl⟩ := List.cons.inj heq
    rfl
  next heq => exact nomatch heq

theorem readUnicode_single {l rest : List Char} {n : Nat} (h : readHex4 l = some (n, rest))
    (hn : ¬ (0xd800 ≤ n ∧ n < 0xdc00)) : readUnicode l = some (Char.ofNat n, rest) := by
  unfold readUnicode
  rw [h]
  exact if_neg hn

theorem readUnicode_pair {l rest rest' : List Char} {n m : Nat} (h : readHex4 l = some (n, rest))
    (hn : 0xd800 ≤ n ∧ n < 0xdc00) (h' : readHex4 (rest.drop 2) = some (m, rest')) :
    readUnicode l = some (Char.ofNat (0x10000 + (n - 0xd800) * 1024 + (m - 0xdc00)), rest') := by
  unfold readUnicode
  rw [h]
  exact (if_pos hn).trans (by rw [h']; rfl)

theorem toList_u : ("\\u" : String).toList = ['\\', 'u'] := by
  decide

/-- A `\u` and its digits are read as what the digits are. -/
theorem readChar_u (digits : String) (rest : List Char) :
    readChar (("\\u" ++ digits).toList ++ rest) = readUnicode (digits.toList ++ rest) := by
  rw [String.toList_append, toList_u]
  rfl

theorem toList_u_u (a b : String) (rest : List Char) :
    ("\\u" ++ a ++ "\\u" ++ b).toList ++ rest =
      ("\\u" ++ a).toList ++ ('\\' :: 'u' :: (b.toList ++ rest)) := by
  rw [String.toList_append, String.toList_append, toList_u, List.append_assoc, List.append_assoc]
  rfl

theorem readChar_escapeChar (c : Char) (rest : List Char) :
    readChar ((escapeChar c).toList ++ rest) = some (c, rest) := by
  have hvalid : c.toNat < 0xd800 ∨ 0xdfff < c.toNat ∧ c.toNat < 0x110000 := c.valid
  unfold escapeChar
  split_ifs with hquote hslash hn hr ht hf hb hplain hbasic
  · rw [hquote]
    rfl
  · rw [hslash]
    rfl
  · rw [hn]
    rfl
  · rw [hr]
    rfl
  · rw [ht]
    rfl
  · rw [hf]
    rfl
  · rw [hb]
    rfl
  · rw [String.toList_ofList]
    exact readChar_plain hslash rest
  · rw [readChar_u]
    have hread := readUnicode_single (readHex4_hex4 hbasic rest) (by omega)
    rw [Char.ofNat_toNat] at hread
    exact hread
  · rw [toList_u_u, readChar_u]
    have hread := readUnicode_pair
      (readHex4_hex4 (n := 0xd800 + (c.toNat - 0x10000) / 1024 % 1024) (by omega)
        ('\\' :: 'u' :: ((hex4 (0xdc00 + (c.toNat - 0x10000) % 1024)).toList ++ rest)))
      (by omega) (readHex4_hex4 (by omega) rest)
    have hsum : 0x10000 + (0xd800 + (c.toNat - 0x10000) / 1024 % 1024 - 0xd800) * 1024 +
        (0xdc00 + (c.toNat - 0x10000) % 1024 - 0xdc00) = c.toNat := by
      omega
    rw [hsum, Char.ofNat_toNat] at hread
    exact hread

theorem escapeChar_inj {c d : Char} {x y : List Char}
    (h : (escapeChar c).toList ++ x = (escapeChar d).toList ++ y) : c = d ∧ x = y := by
  have heq := congrArg readChar h
  rw [readChar_escapeChar, readChar_escapeChar] at heq
  exact Prod.mk.inj (Option.some.inj heq)

/-- No character is written with a quote in front. -/
theorem escapeChar_ne_quote (c : Char) (x y : List Char) :
    (escapeChar c).toList ++ x ≠ '"' :: y := by
  intro h
  have hread := readChar_escapeChar c x
  rw [h, readChar_plain (by decide)] at hread
  obtain rfl : '"' = c := (Prod.mk.inj (Option.some.inj hread)).1
  exact absurd (List.cons.inj h).1 (by decide)

theorem escape_inj : ∀ {s t : List Char} {x y : List Char},
    (escape s).toList ++ '"' :: x = (escape t).toList ++ '"' :: y → s = t ∧ x = y
  | [], [], x, y, h => ⟨rfl, (List.cons.inj h).2⟩
  | [], d :: t, x, y, h => by
    rw [escape, escape, String.toList_append, List.append_assoc] at h
    exact absurd h.symm (escapeChar_ne_quote d _ x)
  | c :: s, [], x, y, h => by
    rw [escape, escape, String.toList_append, List.append_assoc] at h
    exact absurd h (escapeChar_ne_quote c _ y)
  | c :: s, d :: t, x, y, h => by
    rw [escape, escape, String.toList_append, String.toList_append, List.append_assoc,
      List.append_assoc] at h
    obtain ⟨hcd, hrest⟩ := escapeChar_inj h
    obtain ⟨hst, hxy⟩ := escape_inj hrest
    exact ⟨by rw [hcd, hst], hxy⟩

theorem dumpsStr_append_inj {s t : String} {x y : List Char}
    (h : (dumpsStr s).toList ++ x = (dumpsStr t).toList ++ y) : s = t ∧ x = y := by
  have hlist : ∀ (s : String) (x : List Char),
      (dumpsStr s).toList ++ x = '"' :: ((escape s.toList).toList ++ '"' :: x) := by
    intro s x
    rw [dumpsStr, String.toList_append, String.toList_append, List.append_assoc,
      List.append_assoc]
    rfl
  rw [hlist, hlist] at h
  obtain ⟨hst, hxy⟩ := escape_inj (List.cons.inj h).2
  exact ⟨String.toList_inj.mp hst, hxy⟩

end OSimFlow.JsonText
