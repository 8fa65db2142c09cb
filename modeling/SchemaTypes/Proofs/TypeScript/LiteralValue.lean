import SchemaTypes.Proofs.Text.Utf16
import SchemaTypes.Proofs.TypeScript.Binding

/-!
# What literals stand for

A literal stands for a sequence of code units: a character for its own units, and an
escape for those that the language gives to it.  Requoting keeps what a literal
stands for, whatever stands between its quotes.
-/

namespace SchemaTypes
namespace TypeScript
namespace Quoted

/-!
## Numbers
-/

def digitValue (c : Char) : Nat :=
  if isDigit c then c.toNat - '0'.toNat
  else if 'a' ≤ c then c.toNat - 'a'.toNat + 10
  else c.toNat - 'A'.toNat + 10

def number (base : Nat) (digits : List Char) : Nat :=
  digits.foldl (fun n c => base * n + digitValue c) 0

/-- The digits that a text starts with, at most so many, and what follows them. -/
def digitsUpTo (isDigit : Char -> Bool) : Nat -> List Char -> List Char × List Char
  | n + 1, c :: rest =>
      if isDigit c then
        let (digits, rest) := digitsUpTo isDigit n rest
        (c :: digits, rest)
      else
        ([], c :: rest)
  | _, s => ([], s)

theorem length_digitsUpTo (isDigit : Char -> Bool) (n : Nat) (s : List Char) :
    (digitsUpTo isDigit n s).2.length ≤ s.length := by
  fun_induction digitsUpTo isDigit n s with
  | case1 n c rest _ digits left hleft ih =>
      rw [hleft] at ih
      exact Nat.le_succ_of_le ih
  | case2 => exact Nat.le_refl _
  | case3 => exact Nat.le_refl _

/-- The code unit that so many hexadecimal digits give, no fewer. -/
def unit? (n : Nat) (s : List Char) : Option (List Nat × List Char) :=
  let (digits, rest) := digitsUpTo isHexDigit n s
  if digits.length = n then some ([number 16 digits], rest) else none

/-- The units of the code point that the hexadecimal digits up to a closing brace give. -/
def point? (s : List Char) : Option (List Nat × List Char) :=
  let digits := s.takeWhile isHexDigit
  let rest := s.dropWhile isHexDigit
  if rest.head? = some '\x7d' ∧ digits ≠ [] ∧ number 16 digits < 0x110000 then
    some (Text.codeUnits (number 16 digits), rest.tail)
  else
    none

/-!
## Escapes

An escape is given by the character behind its backslash and what follows.  Octal
digits give a number below 256.  A line break is passed over, and a carriage return
together with the line feed behind it; any other character stands for itself, unless
it is a letter for another one.
-/

def escapeValue? (c : Char) (rest : List Char) : Option (List Nat × List Char) :=
  if c = 'x' then unit? 2 rest
  else if c = 'u' then
    if rest.head? = some '\x7b' then point? rest.tail else unit? 4 rest
  else if isOctalDigit c then
    let (more, rest) := digitsUpTo isOctalDigit (if c ≤ '3' then 2 else 1) rest
    some ([number 8 (c :: more)], rest)
  else if c = '\r' ∧ rest.head? = some '\n' then some ([], rest.tail)
  else if endsLineComment c then some ([], rest)
  else some (Text.codeUnits ((escapes.lookup c).getD c).toNat, rest)

theorem length_unit? {n : Nat} {s left : List Char} {units : List Nat}
    (h : unit? n s = some (units, left)) : left.length ≤ s.length := by
  have hlength := length_digitsUpTo isHexDigit n s
  unfold unit? at h
  dsimp only at h
  split at h
  · cases h
    exact hlength
  · cases h

theorem length_point? {s left : List Char} {units : List Nat}
    (h : point? s = some (units, left)) : left.length ≤ s.length := by
  have hlength := (List.dropWhile_suffix (l := s) isHexDigit).length_le
  unfold point? at h
  dsimp only at h
  split at h
  · cases h
    rw [List.length_tail]
    omega
  · cases h

theorem length_escapeValue? {c : Char} {rest left : List Char} {units : List Nat}
    (h : escapeValue? c rest = some (units, left)) : left.length ≤ rest.length := by
  have htail : rest.tail.length ≤ rest.length := by
    rw [List.length_tail]
    exact Nat.sub_le _ _
  unfold escapeValue? at h
  split at h
  · exact length_unit? h
  · split at h
    · split at h
      · exact Nat.le_trans (length_point? h) htail
      · exact length_unit? h
    · split at h
      · cases h
        exact length_digitsUpTo _ _ _
      · split at h
        · cases h
          exact htail
        · split at h <;> cases h <;> exact Nat.le_refl _

/-!
## Literals
-/

/-- The units that a text between quotes stands for, if each of its escapes is complete. -/
def unescape : List Char -> Option (List Nat)
  | [] => some []
  | ['\\'] => none
  | '\\' :: c :: rest =>
      match _hvalue : escapeValue? c rest with
      | some (units, left) => (unescape left).map (units ++ ·)
      | none => none
  | c :: rest => (unescape rest).map (Text.codeUnits c.toNat ++ ·)
termination_by s => s.length
decreasing_by
  · have hlength := length_escapeValue? _hvalue
    simp only [List.length_cons]
    omega
  · exact Nat.lt_succ_self _

def between (s : List Char) : List Char :=
  s.tail.dropLast

def value? (s : List Char) : Option (List Nat) :=
  unescape (between s)

theorem unescape_plain {c : Char} (h : c ≠ '\\') (rest : List Char) :
    unescape (c :: rest) = (unescape rest).map (Text.codeUnits c.toNat ++ ·) := by
  rw [unescape]
  · exact fun hc _ => h hc
  · exact fun _ _ hc _ => h hc

theorem unescape_escape {c : Char} {rest left : List Char} {units : List Nat}
    (h : escapeValue? c rest = some (units, left)) :
    unescape ('\\' :: c :: rest) = (unescape left).map (units ++ ·) := by
  rw [unescape]
  split
  · rename_i hvalue
    rw [h] at hvalue
    cases hvalue
    rfl
  · rename_i hvalue
    rw [h] at hvalue
    cases hvalue

theorem unescape_incomplete {c : Char} {rest : List Char} (h : escapeValue? c rest = none) :
    unescape ('\\' :: c :: rest) = none := by
  rw [unescape]
  split
  · rename_i hvalue
    rw [h] at hvalue
    cases hvalue
  · rfl

/-!
## Requoting

What stands behind an escape is changed by requoting no sooner than where a quote or a
backslash stands, and no escape goes on there.
-/

def PassesQuotes (p : Char -> Bool) : Prop :=
  p '"' = false /\ p '\\' = false /\ p '\'' = false

section

variable {p : Char -> Bool} (hp : PassesQuotes p)

include hp

theorem PassesQuotes.requoteInside_cons {c : Char} (hc : p c = true) (s : List Char) :
    requoteInside (c :: s) = c :: requoteInside s := by
  obtain ⟨hquote, hslash, -⟩ := hp
  refine Quoted.requoteInside_cons ?_ ?_ s
  · rintro rfl
    rw [hc] at hquote
    cases hquote
  · rintro rfl
    rw [hc] at hslash
    cases hslash

theorem PassesQuotes.requoteInside_eq_cons {c : Char} (hc : p c = false) (s : List Char) :
    exists d t, requoteInside (c :: s) = d :: t /\ p d = false := by
  obtain ⟨d, t, heq, rfl | ⟨-, hd⟩⟩ := Quoted.requoteInside_eq_cons c s
  · exact ⟨d, t, heq, hc⟩
  · obtain ⟨-, hslash, hsingle⟩ := hp
    simp only [List.mem_cons, List.not_mem_nil, or_false] at hd
    rcases hd with rfl | rfl
    · exact ⟨_, t, heq, hslash⟩
    · exact ⟨_, t, heq, hsingle⟩

theorem any_head_requoteInside (s : List Char) :
    (requoteInside s).head?.any p = s.head?.any p := by
  cases s with
  | nil => rfl
  | cons c s =>
      cases hc : p c with
      | true =>
          rw [hp.requoteInside_cons hc]
          rfl
      | false =>
          obtain ⟨d, t, heq, hd⟩ := hp.requoteInside_eq_cons hc s
          simp [heq, hc, hd]

theorem takeWhile_requoteInside (s : List Char) :
    (requoteInside s).takeWhile p = s.takeWhile p /\
      (requoteInside s).dropWhile p = requoteInside (s.dropWhile p) := by
  induction s with
  | nil => exact ⟨rfl, rfl⟩
  | cons c s ih =>
      cases hc : p c with
      | true =>
          rw [hp.requoteInside_cons hc]
          simp [hc, ih]
      | false =>
          obtain ⟨d, t, heq, hd⟩ := hp.requoteInside_eq_cons hc s
          simp [heq, hc, hd]

theorem digitsUpTo_requoteInside (n : Nat) (s : List Char) :
    digitsUpTo p n (requoteInside s) =
      ((digitsUpTo p n s).1, requoteInside (digitsUpTo p n s).2) := by
  induction n generalizing s with
  | zero => simp [digitsUpTo]
  | succ n ih =>
      cases s with
      | nil => rfl
      | cons c s =>
          cases hc : p c with
          | true =>
              rw [hp.requoteInside_cons hc, digitsUpTo, digitsUpTo, if_pos hc, if_pos hc, ih]
          | false =>
              obtain ⟨d, t, heq, hd⟩ := hp.requoteInside_eq_cons hc s
              simp [heq, digitsUpTo, hc, hd]

end

/-- An answer about a text, with what is left requoted. -/
def requoteRest (answer : List Nat × List Char) : List Nat × List Char :=
  (answer.1, requoteInside answer.2)

theorem passesQuotes_isHexDigit : PassesQuotes isHexDigit :=
  ⟨rfl, rfl, rfl⟩

theorem passesQuotes_isOctalDigit : PassesQuotes isOctalDigit :=
  ⟨rfl, rfl, rfl⟩

theorem unit?_requoteInside (n : Nat) (s : List Char) :
    unit? n (requoteInside s) = (unit? n s).map requoteRest := by
  unfold unit?
  rw [digitsUpTo_requoteInside passesQuotes_isHexDigit]
  dsimp only
  split <;> rfl

theorem head_requoteInside_eq {c : Char} (hp : PassesQuotes (· == c)) (s : List Char) :
    (requoteInside s).head? = some c <-> s.head? = some c := by
  have hhead := any_head_requoteInside hp s
  rw [Bool.eq_iff_iff] at hhead
  simpa [Option.any_eq_true] using hhead

theorem tail_requoteInside {c : Char} (hp : PassesQuotes (· == c)) {s : List Char}
    (h : s.head? = some c) : (requoteInside s).tail = requoteInside s.tail := by
  cases s with
  | nil => rfl
  | cons d s =>
      rw [List.head?_cons, Option.some.injEq] at h
      subst h
      rw [hp.requoteInside_cons (by simp)]
      rfl

theorem point?_requoteInside (s : List Char) :
    point? (requoteInside s) = (point? s).map requoteRest := by
  have hbrace : PassesQuotes (· == '\x7d') := ⟨rfl, rfl, rfl⟩
  obtain ⟨htake, hdrop⟩ := takeWhile_requoteInside passesQuotes_isHexDigit s
  unfold point?
  simp only [htake, hdrop, head_requoteInside_eq hbrace]
  split
  · rename_i hclose
    rw [tail_requoteInside hbrace hclose.left]
    rfl
  · rfl

theorem escapeValue?_requoteInside {c : Char} (rest : List Char) :
    escapeValue? c (requoteInside rest) = (escapeValue? c rest).map requoteRest := by
  have hbrace : PassesQuotes (· == '\x7b') := ⟨rfl, rfl, rfl⟩
  have hfeed : PassesQuotes (· == '\n') := ⟨rfl, rfl, rfl⟩
  unfold escapeValue?
  simp only [head_requoteInside_eq hbrace, head_requoteInside_eq hfeed, unit?_requoteInside,
    digitsUpTo_requoteInside passesQuotes_isOctalDigit]
  split
  · rfl
  · split
    · split
      · rename_i hopen
        rw [tail_requoteInside hbrace hopen, point?_requoteInside]
      · rfl
    · split
      · rfl
      · split
        · rename_i hpair
          rw [tail_requoteInside hfeed hpair.right]
          rfl
        · split <;> rfl

theorem escapeValue?_single (rest : List Char) :
    escapeValue? '\'' rest = some (Text.codeUnits '\''.toNat, rest) :=
  rfl

theorem escapeValue?_double (rest : List Char) :
    escapeValue? '"' rest = some (Text.codeUnits '"'.toNat, rest) :=
  rfl

/-- A text between quotes stands for the same units when it is requoted. -/
theorem unescape_requoteInside (s : List Char) : unescape (requoteInside s) = unescape s := by
  fun_induction unescape s with
  | case1 => rw [requoteInside, unescape]
  | case2 => rw [requoteInside, unescape]
  | case3 c rest units left hvalue ih =>
      by_cases hc : c = '\''
      · subst hc
        obtain ⟨rfl, rfl⟩ : Text.codeUnits '\''.toNat = units /\ rest = left := by
          simpa [escapeValue?_single] using hvalue
        rw [requoteInside, unescape_plain (by decide), ih]
      · have hrequoted := escapeValue?_requoteInside (c := c) rest
        rw [hvalue] at hrequoted
        rw [requoteInside.eq_4 _ _ hc, unescape_escape hrequoted]
        exact congrArg (Option.map _) ih
  | case4 c rest hvalue =>
      have hc : c ≠ '\'' := by
        rintro rfl
        rw [escapeValue?_single] at hvalue
        cases hvalue
      have hrequoted := escapeValue?_requoteInside (c := c) rest
      rw [hvalue] at hrequoted
      rw [requoteInside.eq_4 _ _ hc, unescape_incomplete hrequoted]
  | case5 c rest hend hpair ih =>
      have hslash := ne_slash hend hpair
      by_cases hquote : c = '"'
      · subst hquote
        rw [requoteInside, unescape_escape (escapeValue?_double _), ih]
      · rw [requoteInside_cons hquote hslash, unescape_plain hslash, ih]

theorem between_quoted (quote : Char) (inside : List Char) :
    between (quote :: inside ++ [quote]) = inside := by
  rw [between, List.cons_append, List.tail_cons, List.dropLast_concat]

theorem value?_requote (s : List Char) : value? (requote s) = value? s := by
  unfold requote
  split
  · rw [value?, between_quoted, unescape_requoteInside]
    rfl
  · rfl

/-!
## Literals without numbers

The text that a literal without escapes by number stands for has the units that the
literal stands for.
-/

theorem escapeValue?_of_lookup {c d : Char} (h : escapes.lookup c = some d) (rest : List Char) :
    escapeValue? c rest = some (Text.codeUnits d.toNat, rest) := by
  have hall : forall e, e ∈ escapes ->
      escapeValue? e.1 rest = some (Text.codeUnits e.2.toNat, rest) := by
    intro e he
    simp only [escapes, List.mem_cons, List.not_mem_nil, or_false] at he
    rcases he with rfl | rfl | rfl | rfl | rfl | rfl | rfl | rfl | rfl <;> rfl
  obtain ⟨before, after, hsplit, -⟩ := List.lookup_eq_some_iff.mp h
  exact hall (c, d) (by rw [hsplit]; simp)

theorem unescape_inside {quote : Char} {ps : List Piece} (hfit : Fit quote ps) {s : List Char}
    (h : ps.map Piece.char? = s.map some) : unescape (inside ps) = some (Text.utf16 s) := by
  induction ps generalizing s with
  | nil =>
      obtain rfl : s = [] := by simpa using h.symm
      rw [inside_nil, unescape, Text.utf16_nil]
  | cons p ps ih =>
      obtain ⟨d, s, rfl⟩ : exists d t, s = d :: t := by
        cases s with
        | nil => cases h
        | cons d t => exact ⟨d, t, rfl⟩
      rw [List.map_cons, List.map_cons, List.cons.injEq] at h
      obtain ⟨hpiece, hrest⟩ := h
      cases p with
      | plain c =>
          obtain ⟨-, hslash, -, -, hfit⟩ := hfit
          obtain rfl : c = d := Option.some.inj hpiece
          rw [inside_cons, Piece.text, List.singleton_append, unescape_plain hslash, ih hfit hrest]
          rfl
      | escape e =>
          obtain ⟨-, hfit⟩ := hfit
          obtain ⟨c, rfl⟩ : exists c, e = [c] := by
            unfold Piece.char? at hpiece
            split at hpiece
            · rename_i h
              cases h
            · rename_i h
              exact ⟨_, Piece.escape.inj h⟩
            · cases hpiece
          have hvalue := escapeValue?_of_lookup hpiece (inside ps)
          rw [inside_cons, Piece.text, List.cons_append, List.singleton_append,
            unescape_escape hvalue, ih hfit hrest]
          rfl

theorem value?_of_decode? {s t : List Char} (h : decode? s = some t) :
    value? s = some (Text.utf16 t) := by
  obtain ⟨ps, hps, hchars⟩ := Option.bind_eq_some_iff.mp h
  obtain ⟨quote, -, rfl, hfit⟩ := fit_of_pieces? hps
  rw [value?, literal, between_quoted]
  exact unescape_inside hfit (mapM_eq_some_iff.mp hchars)

/-!
## Escaped quotes
-/

/-- Every double quote is escaped, and no backslash is left to escape the quote behind
the text. -/
def escapesQuotes : List Char -> Bool
  | [] => true
  | ['\\'] => false
  | '\\' :: _ :: rest => escapesQuotes rest
  | c :: rest => c != '"' && escapesQuotes rest

theorem escapesQuotes_plain {c : Char} (hquote : c ≠ '"') (hslash : c ≠ '\\') (rest : List Char) :
    escapesQuotes (c :: rest) = escapesQuotes rest := by
  rw [escapesQuotes.eq_4]
  · simp [hquote]
  · exact fun hc _ => hslash hc
  · exact fun _ _ hc _ => hslash hc

end Quoted
end TypeScript
end SchemaTypes
