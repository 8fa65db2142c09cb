import SchemaTypes.Proofs.TypeScript.Gap
import SchemaTypes.TypeScript.Quoted

/-!
# String literals

The text between the quotes of a literal is made of plain characters and escapes.
A literal is read up to its closing quote, whatever follows it, and its quotes can be
changed piece by piece.
-/

namespace SchemaTypes
namespace TypeScript
namespace Lexer

/-!
## Escapes

An escape is a piece of the text in front of what is left.  It stays the same when
something else is left, unless that goes on with the escape.
-/

theorem escape?_split {s e rest : List Char} (h : escape? s = some (e, rest)) :
    s = e ++ rest := by
  unfold escape? at h
  split at h
  · split at h
    · cases h
      rfl
    · cases h
  · rename_i more
    split at h
    · rename_i a digits rest' htake hdrop
      cases h
      have hsplit := List.takeWhile_append_dropWhile (p := isHexDigit) (l := more)
      rw [htake, hdrop] at hsplit
      simp [← hsplit]
    · cases h
  · split at h
    · cases h
      rfl
    · cases h
  · cases h
  · cases h
  · rename_i c more _ _ _ _ _
    split at h
    · simp only [Option.some.injEq, Prod.mk.injEq] at h
      obtain ⟨rfl, rfl⟩ := h
      have hfront : (c :: more.take 2).takeWhile isOctalDigit <+: c :: more :=
        (List.takeWhile_prefix _).trans
          (List.cons_prefix_cons.mpr ⟨rfl, List.take_prefix 2 more⟩)
      exact (List.prefix_iff_eq_append.mp hfront).symm
    · split at h
      · split at h
        · cases h
          rfl
        · cases h
          rfl
      · cases h
        rfl
  · cases h

theorem nameEscape?_split {s e rest : List Char} (h : nameEscape? s = some (e, rest)) :
    s = e ++ rest := by
  unfold nameEscape? at h
  split at h
  · obtain ⟨⟨e, r⟩, hescape, heq⟩ := Option.map_eq_some_iff.mp h
    cases heq
    rw [escape?_split hescape, List.cons_append]
  · cases h

theorem escape?_plain {c : Char} (hx : c ≠ 'x') (hu : c ≠ 'u') (rest : List Char) :
    escape? (c :: rest) =
      if isOctalDigit c then
        some ((c :: rest.take 2).takeWhile isOctalDigit,
          (c :: rest).drop ((c :: rest.take 2).takeWhile isOctalDigit).length)
      else
        match rest with
        | d :: more =>
            if (c == '\r' || c == '?') && (d == '\n' || d.toNat == 0x2028 || d.toNat == 0x2029) then
              some ([c, d], more)
            else
              some ([c], rest)
        | [] => some ([c], rest) := by
  cases rest with
  | nil =>
      rw [escape?.eq_7 c hx hu (by simp) (by simp) (by simp)]
  | cons d more =>
      rw [escape?.eq_6 c d more hx hu
        (fun _ _ _ h => absurd h hx) (fun _ h => absurd h hu) (fun _ _ _ _ _ h => absurd h hu)]

def goesOnEscape (c : Char) : Bool :=
  isOctalDigit c || c == '\n' || c.toNat == 0x2028 || c.toNat == 0x2029

def GoesOnAlike (s t : List Char) : Prop :=
  s.head? = t.head? \/ exists c more, t = c :: more /\ goesOnEscape c = false

theorem GoesOnAlike.any_eq_false {s t : List Char} (h : GoesOnAlike s t) {p : Char -> Bool}
    (hp : forall c, p c = true -> goesOnEscape c = true)
    (hs : s.head?.any p = false) :
    t.head?.any p = false := by
  cases h with
  | inl hhead =>
      rw [← hhead]
      exact hs
  | inr hstop =>
      obtain ⟨c, more, rfl, hc⟩ := hstop
      simp only [List.head?_cons, Option.any_some]
      cases hpc : p c with
      | false => rfl
      | true =>
          rw [hp c hpc] at hc
          cases hc

theorem octalDigits_append {c : Char} (hc : isOctalDigit c = true) {s t : List Char}
    (hlength : s.length ≤ 2) (hs : s.all isOctalDigit = true)
    (ht : s.length < 2 -> t.head?.any isOctalDigit = false) :
    (c :: (s ++ t).take 2).takeWhile isOctalDigit = c :: s := by
  match s, t with
  | [], [] =>
      simp [hc]
  | [], d :: t =>
      have hd : isOctalDigit d = false := by simpa using ht (by simp)
      simp [hc, hd]
  | [a], [] =>
      simp at hs
      simp [hc, hs]
  | [a], d :: t =>
      have hd : isOctalDigit d = false := by simpa using ht (by simp)
      simp at hs
      simp [hc, hs, hd]
  | [a, b], t =>
      simp at hs
      simp [hc, hs]
  | a :: b :: d :: s, t =>
      simp at hlength

/-- Up to three octal digits make an escape, and fewer only if no further one follows. -/
theorem octalDigits_split (more : List Char) :
    exists s t, more = s ++ t /\ s.length ≤ 2 /\ s.all isOctalDigit = true /\
      (s.length < 2 -> t.head?.any isOctalDigit = false) := by
  match more with
  | [] =>
      exact ⟨[], [], rfl, by simp, rfl, by simp⟩
  | a :: more =>
      by_cases ha : isOctalDigit a = true
      · match more with
        | [] =>
            exact ⟨[a], [], rfl, by simp, by simp [ha], by simp⟩
        | b :: more =>
            by_cases hb : isOctalDigit b = true
            · exact ⟨[a, b], more, rfl, by simp, by simp [ha, hb], by simp⟩
            · exact ⟨[a], b :: more, rfl, by simp, by simp [ha], by simpa using hb⟩
      · exact ⟨[], a :: more, rfl, by simp, rfl, by simpa using ha⟩

theorem escape?_octal {c : Char} (hc : isOctalDigit c = true) {s t : List Char}
    (hlength : s.length ≤ 2) (hs : s.all isOctalDigit = true)
    (ht : s.length < 2 -> t.head?.any isOctalDigit = false) :
    escape? (c :: (s ++ t)) = some (c :: s, t) := by
  have hx : c ≠ 'x' := by
    rintro rfl
    cases hc
  have hu : c ≠ 'u' := by
    rintro rfl
    cases hc
  rw [escape?_plain hx hu, if_pos hc, octalDigits_append hc hlength hs ht]
  simp

inductive IsEscape : List Char -> List Char -> Prop where
  | byte {a b : Char} (h : isHexDigit a && isHexDigit b) (rest : List Char) :
      IsEscape ['x', a, b] rest
  | braced {a : Char} {s : List Char} (h : (a :: s).all isHexDigit = true) (rest : List Char) :
      IsEscape ('u' :: '\x7b' :: a :: s ++ ['\x7d']) rest
  | four {a b c d : Char} (h : [a, b, c, d].all isHexDigit = true) (rest : List Char) :
      IsEscape ['u', a, b, c, d] rest
  | octal {c : Char} {s rest : List Char} (hc : isOctalDigit c = true) (hlength : s.length ≤ 2)
      (hs : s.all isOctalDigit = true)
      (hrest : s.length < 2 -> rest.head?.any isOctalDigit = false) : IsEscape (c :: s) rest
  | pair {c d : Char} (hc : c = '\r' \/ c = '?')
      (hd : d = '\n' \/ d.toNat = 0x2028 \/ d.toNat = 0x2029) (rest : List Char) : IsEscape [c, d] rest
  | single {c : Char} {rest : List Char} (hx : c ≠ 'x') (hu : c ≠ 'u')
      (hc : isOctalDigit c = false)
      (hrest : c = '\r' \/ c = '?' ->
        rest.head?.any (fun d => d == '\n' || d.toNat == 0x2028 || d.toNat == 0x2029) = false) :
      IsEscape [c] rest

theorem isEscape_of_escape? {s e rest : List Char} (h : escape? s = some (e, rest)) :
    IsEscape e rest := by
  unfold escape? at h
  split at h
  · split at h
    · rename_i hhex
      cases h
      exact .byte hhex _
    · cases h
  · rename_i more
    split at h
    · rename_i a digits rest' htake hdrop
      cases h
      refine .braced ?_ _
      rw [← htake]
      exact List.all_takeWhile
    · cases h
  · split at h
    · rename_i hhex
      cases h
      exact .four hhex _
    · cases h
  · cases h
  · cases h
  · rename_i c more _ _ _ hx hu
    split at h
    · rename_i hc
      obtain ⟨s, t, rfl, hlength, hs, ht⟩ := octalDigits_split more
      rw [octalDigits_append hc hlength hs ht] at h
      simp at h
      obtain ⟨rfl, rfl⟩ := h
      exact .octal hc hlength hs ht
    · rename_i hc
      have hc : isOctalDigit c = false := by simpa using hc
      split at h
      · split at h
        · rename_i hpair
          cases h
          simp at hpair
          exact .pair hpair.left (or_assoc.mp hpair.right) _
        · rename_i hpair
          cases h
          refine .single hx hu hc ?_
          intro hcr
          simpa [hcr] using hpair
      · cases h
        exact .single hx hu hc (by simp)
  · cases h

theorem escape?_of_isEscape {e rest : List Char} (h : IsEscape e rest) :
    escape? (e ++ rest) = some (e, rest) := by
  cases h with
  | byte hhex =>
      simp [escape?, hhex]
  | @braced a s hhex =>
      have hclose : (('\x7d' :: rest).head?.any isHexDigit) = false := rfl
      have hsplit := Text.takeWhile_append_of_all hhex hclose
      simp only [List.cons_append, List.append_assoc, List.nil_append] at hsplit ⊢
      rw [escape?, hsplit.left, hsplit.right]
      rfl
  | @four a b c d hhex =>
      have ha : a ≠ '\x7b' := by
        rintro rfl
        simp [isHexDigit, isDigit] at hhex
      simp only [List.cons_append, List.nil_append]
      rw [escape?.eq_3 a b c d rest ha, if_pos hhex]
  | octal hc hlength hs hrest =>
      exact escape?_octal hc hlength hs hrest
  | @pair c d hc hd =>
      have hplain : c ≠ 'x' /\ c ≠ 'u' /\ isOctalDigit c = false := by
        rcases hc with rfl | rfl <;> decide
      simp only [List.cons_append, List.nil_append]
      rw [escape?_plain hplain.left hplain.right.left, if_neg (by simp [hplain.right.right])]
      have hpair : ((c == '\r' || c == '?') &&
          (d == '\n' || d.toNat == 0x2028 || d.toNat == 0x2029)) = true := by
        simpa using ⟨hc, or_assoc.mpr hd⟩
      simp only [hpair, if_true]
  | @single c _ hx hu hc hrest =>
      simp only [List.cons_append, List.nil_append]
      rw [escape?_plain hx hu, if_neg (by simp [hc])]
      cases rest with
      | nil =>
          rfl
      | cons d more =>
          have hpair : ((c == '\r' || c == '?') &&
              (d == '\n' || d.toNat == 0x2028 || d.toNat == 0x2029)) = false := by
            by_cases hcr : c = '\r' \/ c = '?'
            · have hd := hrest hcr
              simp only [List.head?_cons, Option.any_some] at hd
              rw [hd, Bool.and_false]
            · have hc' : (c == '\r' || c == '?') = false := by simpa using hcr
              rw [hc', Bool.false_and]
          simp [hpair]

theorem IsEscape.alike {e rest other : List Char} (h : IsEscape e rest)
    (halike : GoesOnAlike rest other) : IsEscape e other := by
  cases h with
  | byte hhex => exact .byte hhex other
  | braced hhex => exact .braced hhex other
  | four hhex => exact .four hhex other
  | octal hc hlength hs hrest =>
      refine .octal hc hlength hs ?_
      intro hshort
      exact halike.any_eq_false (fun c hc => by simp [goesOnEscape, hc]) (hrest hshort)
  | pair hc hd => exact .pair hc hd other
  | single hx hu hc hrest =>
      refine .single hx hu hc ?_
      intro hpair
      refine halike.any_eq_false ?_ (hrest hpair)
      intro c hc
      simp only [goesOnEscape, Bool.or_eq_true] at hc ⊢
      exact hc.imp_left (Or.imp_left Or.inr)

end Lexer

namespace Quoted

/-!
## Pieces
-/

inductive Piece where
  | plain (c : Char)
  /-- A backslash in front of a text. -/
  | escape (s : List Char)
  deriving DecidableEq, Repr

def Piece.text : Piece -> List Char
  | plain c => [c]
  | escape s => '\\' :: s

def inside (ps : List Piece) : List Char :=
  ps.flatMap Piece.text

@[simp] theorem inside_nil : inside [] = [] :=
  rfl

@[simp] theorem inside_cons (p : Piece) (ps : List Piece) : inside (p :: ps) = p.text ++ inside ps :=
  rfl

def literal (quote : Char) (ps : List Piece) : List Char :=
  quote :: inside ps ++ [quote]

/-- The pieces are read as they are between two quotes. -/
def Fit (quote : Char) : List Piece -> Prop
  | [] => True
  | .plain c :: ps => c ≠ quote /\ c ≠ '\\' /\ c ≠ '\n' /\ c ≠ '\r' /\ Fit quote ps
  | .escape s :: ps => Lexer.IsEscape s (inside ps ++ [quote]) /\ Fit quote ps

/-- A piece is read as it is between two quotes, in front of a text. -/
def Piece.Fits (quote : Char) : Piece -> List Char -> Prop
  | plain c, _ => c ≠ quote /\ c ≠ '\\' /\ c ≠ '\n' /\ c ≠ '\r'
  | escape s, next => Lexer.IsEscape s next

theorem fit_cons {quote : Char} {p : Piece} {ps : List Piece} :
    Fit quote (p :: ps) <-> p.Fits quote (inside ps ++ [quote]) /\ Fit quote ps := by
  cases p with
  | plain c => simp only [Fit, Piece.Fits, and_assoc]
  | escape s => rfl

/-- The pieces of a text that its last character, a quote, closes. -/
def piecesFrom (quote : Char) : Nat -> List Char -> Option (List Piece)
  | 0, _ => none
  | _ + 1, [] => none
  | fuel + 1, c :: rest =>
      if c = quote then
        if rest = [] then some [] else none
      else if c = '\\' then
        match Lexer.escape? rest with
        | some (s, rest) => (piecesFrom quote fuel rest).map (.escape s :: ·)
        | none => none
      else if c = '\n' ∨ c = '\r' then none
      else (piecesFrom quote fuel rest).map (.plain c :: ·)

def pieces? : List Char -> Option (List Piece)
  | c :: rest => if c = '"' ∨ c = '\'' then piecesFrom c (rest.length + 1) rest else none
  | [] => none

theorem fit_of_piecesFrom {quote : Char} {fuel : Nat} {s : List Char} {ps : List Piece}
    (h : piecesFrom quote fuel s = some ps) : s = inside ps ++ [quote] /\ Fit quote ps := by
  fun_induction piecesFrom quote fuel s generalizing ps with
  | case1 => cases h
  | case2 => cases h
  | case3 fuel =>
      cases h
      exact ⟨rfl, trivial⟩
  | case4 => cases h
  | case5 fuel rest s more hescape hquote ih =>
      obtain ⟨ps, hps, rfl⟩ := Option.map_eq_some_iff.mp h
      obtain ⟨rfl, hfit⟩ := ih hps
      have hsplit := Lexer.escape?_split hescape
      refine ⟨?_, Lexer.isEscape_of_escape? hescape, hfit⟩
      simp [Piece.text, hsplit]
  | case6 => cases h
  | case7 => cases h
  | case8 fuel c rest hquote hslash hline ih =>
      obtain ⟨ps, hps, rfl⟩ := Option.map_eq_some_iff.mp h
      obtain ⟨rfl, hfit⟩ := ih hps
      rw [not_or] at hline
      exact ⟨rfl, hquote, hslash, hline.left, hline.right, hfit⟩

theorem fit_of_pieces? {s : List Char} {ps : List Piece} (h : pieces? s = some ps) :
    exists quote, (quote = '"' \/ quote = '\'') /\ s = literal quote ps /\ Fit quote ps := by
  cases s with
  | nil => cases h
  | cons c rest =>
      rw [pieces?] at h
      split at h
      · rename_i hquote
        obtain ⟨rfl, hfit⟩ := fit_of_piecesFrom h
        exact ⟨c, hquote, rfl, hfit⟩
      · cases h

theorem length_inside_lt {p : Piece} {ps : List Piece} {fuel : Nat}
    (h : (inside (p :: ps)).length < fuel + 1) : (inside ps).length < fuel := by
  have hpiece : 0 < p.text.length := by
    cases p with
    | plain => exact Nat.zero_lt_one
    | escape => exact Nat.succ_pos _
  rw [inside_cons, List.length_append] at h
  omega

/-- What follows a closing quote does not matter to the text in front of it. -/
theorem goesOnAlike_append (s : List Char) (quote : Char) (rest : List Char) :
    Lexer.GoesOnAlike (s ++ [quote]) (s ++ quote :: rest) := by
  left
  cases s <;> rfl

theorem Piece.Fits.stringFrom {quote : Char} (hquote : quote ≠ '\\') {p : Piece}
    {next rest more left : List Char} (h : p.Fits quote next) (halike : Lexer.GoesOnAlike next rest)
    {fuel : Nat} (hread : Lexer.stringFrom quote fuel rest = some (more, left)) :
    Lexer.stringFrom quote (fuel + 1) (p.text ++ rest) = some (p.text ++ more, left) := by
  cases p with
  | plain c =>
      obtain ⟨hc, hslash, hfeed, hreturn⟩ := h
      simp [Lexer.stringFrom, text, hc, hslash, hfeed, hreturn, hread]
  | escape s =>
      have hescape := Lexer.escape?_of_isEscape (Lexer.IsEscape.alike h halike)
      simp [Lexer.stringFrom, text, hquote.symm, hescape, hread]

/-- A fitting text is read up to its closing quote. -/
theorem stringFrom_inside {quote : Char} (hquote : quote ≠ '\\') {ps : List Piece}
    (h : Fit quote ps) (rest : List Char) {fuel : Nat} (hfuel : (inside ps).length < fuel) :
    Lexer.stringFrom quote fuel (inside ps ++ quote :: rest) = some (inside ps ++ [quote], rest) := by
  induction ps generalizing fuel with
  | nil =>
      obtain ⟨fuel, rfl⟩ : exists n, fuel = n + 1 := ⟨fuel - 1, by omega⟩
      simp [Lexer.stringFrom]
  | cons p ps ih =>
      obtain ⟨fuel, rfl⟩ : exists n, fuel = n + 1 := ⟨fuel - 1, by omega⟩
      obtain ⟨hpiece, hfit⟩ := fit_cons.mp h
      have hmore := ih hfit (length_inside_lt hfuel)
      rw [inside_cons, List.append_assoc, List.append_assoc]
      exact hpiece.stringFrom hquote (goesOnAlike_append _ quote rest) hmore

/-- Fitting pieces are found again, with some steps more than characters. -/
theorem piecesFrom_inside {quote : Char} (hquote : quote ≠ '\\') {ps : List Piece}
    (h : Fit quote ps) {fuel : Nat} (hfuel : (inside ps).length < fuel) :
    piecesFrom quote fuel (inside ps ++ [quote]) = some ps := by
  induction ps generalizing fuel with
  | nil =>
      obtain ⟨fuel, rfl⟩ : exists n, fuel = n + 1 := ⟨fuel - 1, by omega⟩
      simp [piecesFrom]
  | cons p ps ih =>
      obtain ⟨fuel, rfl⟩ : exists n, fuel = n + 1 := ⟨fuel - 1, by omega⟩
      cases p with
      | plain c =>
          obtain ⟨hc, hslash, hfeed, hreturn, hfit⟩ := h
          have hmore := ih hfit (length_inside_lt hfuel)
          simp [piecesFrom, Piece.text, hc, hslash, hfeed, hreturn, hmore]
      | escape s =>
          obtain ⟨hescape, hfit⟩ := h
          have hmore := ih hfit (length_inside_lt hfuel)
          have hread := Lexer.escape?_of_isEscape hescape
          simp [piecesFrom, Piece.text, hquote.symm, hread, hmore]

theorem pieces?_literal {ps : List Piece} (h : Fit '"' ps) :
    pieces? (literal '"' ps) = some ps := by
  have hlength : (inside ps).length < (inside ps ++ ['"']).length + 1 := by
    rw [List.length_append]
    omega
  rw [literal, List.cons_append, pieces?, if_pos (.inl rfl)]
  exact piecesFrom_inside (by decide) h hlength

/-!
## Changing quotes
-/

/-- A piece between single quotes as it stands between double quotes. -/
def Piece.requote : Piece -> Piece
  | plain c => if c = '"' then escape ['"'] else plain c
  | escape s => if s = ['\''] then plain '\'' else escape s

/-- An escape opens with any character, and no quote or backslash stands behind it. -/
theorem head_of_isEscape {s next : List Char} (h : Lexer.IsEscape s next) :
    exists c more, s = c :: more /\ forall d, d ∈ more -> d ≠ '"' /\ d ≠ '\\' /\ d ≠ '\'' := by
  have hhex : forall d, isHexDigit d = true -> d ≠ '"' /\ d ≠ '\\' /\ d ≠ '\'' := by
    intro d hd
    refine ⟨?_, ?_, ?_⟩ <;> rintro rfl <;> cases hd
  have hoctal : forall d, isOctalDigit d = true -> d ≠ '"' /\ d ≠ '\\' /\ d ≠ '\'' := by
    intro d hd
    refine ⟨?_, ?_, ?_⟩ <;> rintro rfl <;> cases hd
  cases h with
  | @byte a b hab =>
      rw [Bool.and_eq_true] at hab
      refine ⟨'x', [a, b], rfl, ?_⟩
      simpa using ⟨hhex a hab.left, hhex b hab.right⟩
  | @braced a s hdigits =>
      refine ⟨'u', '\x7b' :: a :: s ++ ['\x7d'], rfl, ?_⟩
      intro d hd
      simp only [List.cons_append, List.mem_cons, List.mem_append, List.not_mem_nil, or_false] at hd
      rw [List.all_eq_true] at hdigits
      rcases hd with rfl | rfl | hd | rfl
      · decide
      · exact hhex d (hdigits d (by simp))
      · exact hhex d (hdigits d (by simp [hd]))
      · decide
  | @four a b c d hdigits =>
      rw [List.all_eq_true] at hdigits
      exact ⟨'u', [a, b, c, d], rfl, fun d hd => hhex d (hdigits d hd)⟩
  | @octal c s _ hc hlength hs hrest =>
      rw [List.all_eq_true] at hs
      exact ⟨c, s, rfl, fun d hd => hoctal d (hs d hd)⟩
  | @pair c d hc hd =>
      refine ⟨c, [d], rfl, ?_⟩
      intro e he
      rw [List.mem_singleton] at he
      subst he
      refine ⟨?_, ?_, ?_⟩ <;> rintro rfl <;> simp at hd
  | @single c _ hx hu hc hrest =>
      exact ⟨c, [], rfl, by simp⟩

theorem requoteInside_append {s : List Char} (h : forall d, d ∈ s -> d ≠ '"' /\ d ≠ '\\' /\ d ≠ '\'')
    (rest : List Char) : requoteInside (s ++ rest) = s ++ requoteInside rest := by
  induction s with
  | nil => rfl
  | cons d s ih =>
      have hd := h d (List.mem_cons_self)
      have hmore := ih fun e he => h e (List.mem_cons_of_mem d he)
      rw [List.cons_append, requoteInside.eq_6, hmore, List.cons_append]
      all_goals simp [hd]

theorem requoteInside_cons {c : Char} (hquote : c ≠ '"') (hslash : c ≠ '\\') (rest : List Char) :
    requoteInside (c :: rest) = c :: requoteInside rest := by
  rw [requoteInside.eq_6]
  all_goals simp [hquote, hslash]

/-- A character with which no case of an escape begins is no backslash. -/
theorem ne_slash {c : Char} {s : List Char} (hend : c = '\\' -> s = [] -> False)
    (hpair : forall d rest, c = '\\' -> s = d :: rest -> False) : c ≠ '\\' := by
  intro hc
  cases s with
  | nil => exact hend hc rfl
  | cons d rest => exact hpair d rest hc rfl

/-- A text starts with the same character when it is requoted, quotes and backslashes apart. -/
theorem requoteInside_eq_cons (c : Char) (s : List Char) :
    exists d t, requoteInside (c :: s) = d :: t /\
      (d = c \/ c ∈ ['"', '\\'] /\ d ∈ ['\\', '\'']) := by
  unfold requoteInside
  split
  · rename_i h
    cases h
  · rename_i h
    cases h
    exact ⟨_, _, rfl, .inl rfl⟩
  · rename_i h
    cases h
    exact ⟨_, _, rfl, .inr ⟨by simp, by simp⟩⟩
  · rename_i h
    cases h
    exact ⟨_, _, rfl, .inl rfl⟩
  · rename_i h
    cases h
    exact ⟨_, _, rfl, .inr ⟨by simp, by simp⟩⟩
  · rename_i h
    cases h
    exact ⟨_, _, rfl, .inl rfl⟩

/-- An octal escape ends where no digit follows.  Requoting may change what stands behind
it, but never into or from a digit. -/
theorem goesOnAlike_requoteInside (s : List Char) :
    Lexer.GoesOnAlike (s ++ ['\'']) (requoteInside s ++ ['"']) := by
  cases s with
  | nil => exact .inr ⟨'"', [], rfl, by decide⟩
  | cons c s =>
      obtain ⟨d, t, heq, rfl | ⟨-, hd⟩⟩ := requoteInside_eq_cons c s
      · left
        rw [heq]
        rfl
      · right
        refine ⟨d, t ++ ['"'], by rw [heq, List.cons_append], ?_⟩
        simp only [List.mem_cons, List.not_mem_nil, or_false] at hd
        rcases hd with rfl | rfl <;> decide

/-- A fitting piece is requoted, whatever follows it. -/
theorem Piece.Fits.requoteInside {quote : Char} {p : Piece} {next : List Char}
    (h : p.Fits quote next) (rest : List Char) :
    Quoted.requoteInside (p.text ++ rest) = p.requote.text ++ Quoted.requoteInside rest := by
  cases p with
  | plain c =>
      obtain ⟨-, hslash, -, -⟩ := h
      by_cases hc : c = '"'
      · subst hc
        rfl
      · rw [Piece.requote, if_neg hc]
        exact requoteInside_cons hc hslash rest
  | escape s =>
      obtain ⟨c, more, rfl, hmore⟩ := head_of_isEscape h
      by_cases hc : c = '\''
      · subst hc
        have hnil : more = [] := by
          cases h with
          | octal hc => cases hc
          | pair hc => simp at hc
          | single => rfl
        subst hnil
        rfl
      · have hne : c :: more ≠ ['\''] := by simp [hc]
        rw [Piece.requote, if_neg hne, text, List.cons_append, List.cons_append,
          requoteInside.eq_4 _ _ hc, requoteInside_append hmore]
        rfl

/-- A piece that fits between single quotes is requoted into one that fits between double
quotes. -/
theorem Piece.Fits.requote {p : Piece} {next other : List Char} (h : p.Fits '\'' next)
    (halike : Lexer.GoesOnAlike next other) : p.requote.Fits '"' other := by
  cases p with
  | plain c =>
      obtain ⟨-, hslash, hfeed, hreturn⟩ := h
      by_cases hc : c = '"'
      · rw [Piece.requote, if_pos hc]
        exact .single (by decide) (by decide) (by decide) (by simp)
      · rw [Piece.requote, if_neg hc]
        exact ⟨hc, hslash, hfeed, hreturn⟩
  | escape s =>
      by_cases hs : s = ['\'']
      · rw [Piece.requote, if_pos hs]
        exact ⟨by decide, by decide, by decide, by decide⟩
      · rw [Piece.requote, if_neg hs]
        exact Lexer.IsEscape.alike h halike

theorem requoteInside_inside {quote : Char} {ps : List Piece} (h : Fit quote ps) :
    requoteInside (inside ps) = inside (ps.map Piece.requote) := by
  induction ps with
  | nil => rfl
  | cons p ps ih =>
      obtain ⟨hpiece, hfit⟩ := fit_cons.mp h
      rw [inside_cons, hpiece.requoteInside, ih hfit, List.map_cons, inside_cons]

theorem fit_requote {ps : List Piece} (h : Fit '\'' ps) : Fit '"' (ps.map Piece.requote) := by
  induction ps with
  | nil => trivial
  | cons p ps ih =>
      obtain ⟨hpiece, hfit⟩ := fit_cons.mp h
      have halike := goesOnAlike_requoteInside (inside ps)
      rw [requoteInside_inside hfit] at halike
      exact fit_cons.mpr ⟨hpiece.requote halike, ih hfit⟩

theorem requote_quoted (inside : List Char) :
    requote ('\'' :: inside ++ ['\'']) = '"' :: requoteInside inside ++ ['"'] := by
  cases inside with
  | nil => rfl
  | cons c rest =>
      rw [List.cons_append, List.cons_append, requote, ← List.cons_append, List.dropLast_concat]

/-- Requoting changes the pieces of a single-quoted literal. -/
theorem requote_single {ps : List Piece} (h : Fit '\'' ps) :
    requote (literal '\'' ps) = literal '"' (ps.map Piece.requote) := by
  rw [literal, requote_quoted, requoteInside_inside h, literal]

@[simp] theorem requote_double (s : List Char) : requote ('"' :: s) = '"' :: s :=
  rfl

def meaning (ofEscape : List Char -> List Char) (ps : List Piece) : List Char :=
  ps.flatMap fun
    | .plain c => [c]
    | .escape s => ofEscape s

theorem meaning_requote {ofEscape : List Char -> List Char} (hdouble : ofEscape ['"'] = ['"'])
    (hsingle : ofEscape ['\''] = ['\'']) (ps : List Piece) :
    meaning ofEscape (ps.map Piece.requote) = meaning ofEscape ps := by
  rw [meaning, meaning, List.flatMap_map]
  congr 1
  funext p
  cases p with
  | plain c =>
      by_cases hc : c = '"'
      · simp [Piece.requote, hc, hdouble]
      · simp [Piece.requote, hc]
  | escape s =>
      by_cases hs : s = ['\'']
      · simp [Piece.requote, hs, hsingle]
      · simp [Piece.requote, hs]

/-- A literal is requoted into one that stands for the same text, as long as an escaped
quote stands for the quote. -/
theorem meaning_of_requote {s : List Char} {ps : List Piece} (h : pieces? s = some ps) :
    exists qs, pieces? (requote s) = some qs /\
      forall ofEscape, ofEscape ['"'] = ['"'] -> ofEscape ['\''] = ['\''] ->
        meaning ofEscape qs = meaning ofEscape ps := by
  obtain ⟨quote, rfl | rfl, rfl, hfit⟩ := fit_of_pieces? h
  · exact ⟨ps, h, fun _ _ _ => rfl⟩
  · refine ⟨ps.map Piece.requote, ?_, fun _ hdouble hsingle => meaning_requote hdouble hsingle ps⟩
    rw [requote_single hfit, pieces?_literal (fit_requote hfit)]

end Quoted
end TypeScript
end SchemaTypes
