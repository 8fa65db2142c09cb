import SchemaTypes.Json.Lexeme
import SchemaTypes.Json.Numeral
import SchemaTypes.Proofs.Steps

/-!
# Lexemes in front of more text

Words and texts are read in the same way whatever follows them.  A number goes on with
digits, a point or an exponent, so that it is read in the same way where a brace follows.
-/

namespace SchemaTypes
namespace Reader

open Text (isDigit digit)

/-!
## Blanks and words
-/

theorem skipBlanks_append {s rest : List Char} {c : Char} (h : skipBlanks s = c :: rest)
    (tail : List Char) : skipBlanks (s ++ tail) = c :: (rest ++ tail) := by
  rw [skipBlanks, List.dropWhile_append, ← skipBlanks, h]
  rfl

theorem skipBlanks_brace {s : List Char} (h : skipBlanks s = []) (more : List Char) :
    skipBlanks (s ++ '\x7d' :: more) = '\x7d' :: more := by
  rw [skipBlanks, List.dropWhile_append, ← skipBlanks, h]
  rfl

theorem word_append {w s rest : List Char} (h : word w s = .ok rest) (tail : List Char) :
    word w (s ++ tail) = .ok (rest ++ tail) := by
  induction w generalizing s with
  | nil =>
      cases h
      rfl
  | cons a w ih =>
      cases s with
      | nil => cases h
      | cons c s =>
          rw [word] at h
          rw [List.cons_append, word]
          split at h
          · rename_i hc
            rw [if_pos hc]
            exact ih h
          · cases h

/-!
## Escapes
-/

theorem toNat_lt_of_hexDigit? {c : Char} {n : Nat} (h : hexDigit? c = some n) : c.toNat < 0x80 := by
  have hle : forall {d : Char}, c ≤ d -> c.toNat ≤ d.toNat := fun hcd => hcd
  unfold hexDigit? at h
  split at h
  · rename_i hc
    exact Nat.lt_of_le_of_lt (hle hc.right) (by decide)
  · split at h
    · rename_i hc
      exact Nat.lt_of_le_of_lt (hle hc.right) (by decide)
    · split at h
      · rename_i hc
        exact Nat.lt_of_le_of_lt (hle hc.right) (by decide)
      · cases h

theorem isSome_of_hexNumber {digits : List Char} {n? : Option Nat} {n : Nat}
    (h : digits.foldl (fun n? c => do return 16 * (← n?) + (← hexDigit? c)) n? = some n) :
    n?.isSome = true /\ forall c, c ∈ digits -> (hexDigit? c).isSome = true := by
  induction digits generalizing n? with
  | nil =>
      rw [List.foldl_nil] at h
      simp [h]
  | cons c rest ih =>
      obtain ⟨hstep, hrest⟩ := ih h
      rw [List.forall_mem_cons]
      cases n? with
      | none => cases hstep
      | some m =>
          cases hc : hexDigit? c with
          | none => simp [hc] at hstep
          | some k => exact ⟨rfl, rfl, hrest⟩

theorem byteLength_of_hexNumber? {digits : List Char} {n : Nat} (h : hexNumber? digits = some n) :
    Text.byteLength digits = digits.length := by
  have hdigits := (isSome_of_hexNumber h).right
  clear h
  induction digits with
  | nil => rfl
  | cons c rest ih =>
      rw [List.forall_mem_cons] at hdigits
      obtain ⟨k, hk⟩ := Option.isSome_iff_exists.mp hdigits.left
      have hc : (Text.encodeChar c).length = 1 := by
        simp [Text.encodeChar, toNat_lt_of_hexDigit? hk]
      have hrest := ih hdigits.right
      rw [Text.byteLength] at hrest ⊢
      rw [Text.encode, List.flatMap_cons, List.length_append, hc, ← Text.encode, hrest,
        List.length_cons, Nat.add_comm]

theorem fourDigits_append {s rest : List Char} {n : Nat} (h : fourDigits s = .ok (n, rest))
    (tail : List Char) : fourDigits (s ++ tail) = .ok (n, rest ++ tail) := by
  unfold fourDigits at h
  split at h
  · cases h
  · rename_i hlong
    split at h
    · rename_i m hm
      cases h
      rw [byteLength_of_hexNumber? hm, List.length_take] at hlong
      have htake : (s ++ tail).take 4 = s.take 4 := List.take_append_of_le_length (by omega)
      have hdrop : (s ++ tail).drop 4 = s.drop 4 ++ tail := List.drop_append_of_le_length (by omega)
      have hbytes : ¬ Text.byteLength (s.take 4) < 4 := by
        rw [byteLength_of_hexNumber? hm, List.length_take]
        exact hlong
      rw [fourDigits, htake, if_neg hbytes, hm, hdrop]
    · cases h

theorem trailingSurrogate_append {n : Nat} {s rest : List Char} {c : Char}
    (h : trailingSurrogate n s = .ok (c, rest)) (tail : List Char) :
    trailingSurrogate n (s ++ tail) = .ok (c, rest ++ tail) := by
  unfold trailingSurrogate at h
  split at h
  · cases h
  · cases h
  · obtain ⟨⟨m, left⟩, hm, h⟩ := bind_eq_ok.mp h
    rw [List.cons_append, List.cons_append, trailingSurrogate, fourDigits_append hm]
    dsimp only at h
    split at h
    · rename_i hsurrogate
      obtain ⟨rfl, rfl⟩ := Prod.mk.inj (Except.ok.inj h)
      exact if_pos hsurrogate
    · cases h
  · cases h
  · cases h

theorem numbered_append {s rest : List Char} {c : Char} (h : numbered s = .ok (c, rest))
    (tail : List Char) : numbered (s ++ tail) = .ok (c, rest ++ tail) := by
  obtain ⟨⟨n, left⟩, hn, h⟩ := bind_eq_ok.mp h
  rw [numbered, fourDigits_append hn]
  change (if isTrailingSurrogate n then _ else _) = _
  dsimp only at h
  split at h
  · cases h
  · rename_i htrailing
    rw [if_neg htrailing]
    split at h
    · rename_i hleading
      rw [if_pos hleading]
      exact trailingSurrogate_append h tail
    · rename_i hleading
      cases h
      exact if_neg hleading

theorem escape_append {s rest : List Char} {c : Char} (h : escape s = .ok (c, rest))
    (tail : List Char) : escape (s ++ tail) = .ok (c, rest ++ tail) := by
  unfold escape at h
  split at h
  · cases h
  · exact numbered_append h tail
  · rename_i d left hd
    split at h
    · rename_i hletter
      cases h
      rw [List.cons_append, escape, hletter]
      exact hd
    · cases h

/-!
## Texts
-/

theorem text_append {steps wider : Nat} (hsteps : steps ≤ wider) {s t rest : List Char}
    (h : text steps s = .ok (t, rest)) (tail : List Char) :
    text wider (s ++ tail) = .ok (t, rest ++ tail) := by
  induction steps generalizing wider s t with
  | zero => cases h
  | succ steps ih =>
      obtain ⟨wider, rfl⟩ : exists n, wider = n + 1 := ⟨wider - 1, by omega⟩
      have hwider : steps ≤ wider := Nat.le_of_succ_le_succ hsteps
      cases s with
      | nil => cases h
      | cons c s =>
          rw [List.cons_append]
          by_cases hquote : c = '"'
          · subst hquote
            cases h
            rfl
          · by_cases hslash : c = '\\'
            · subst hslash
              obtain ⟨⟨d, left⟩, hd, h⟩ := bind_eq_ok.mp h
              obtain ⟨⟨u, left⟩, hu, h⟩ := bind_eq_ok.mp h
              cases h
              rw [text, escape_append hd]
              exact bind_eq_ok.mpr ⟨_, rfl, bind_eq_ok.mpr ⟨_, ih hwider hu, rfl⟩⟩
            · rw [text.eq_5 _ _ _ hquote hslash] at h ⊢
              split at h
              · cases h
              · rename_i hcontrol
                obtain ⟨⟨u, left⟩, hu, h⟩ := bind_eq_ok.mp h
                cases h
                rw [if_neg hcontrol]
                exact bind_eq_ok.mpr ⟨_, ih hwider hu, rfl⟩

/-!
## Numerals

No numeral goes on with a brace.
-/

def exponentDigits (negative : Bool) (n : Nat) (e : Int) (down : Bool) (s : List Char) :
    Except Fault (Number × List Char) :=
  match s with
  | [] => failBefore .endInValue []
  | c :: rest =>
      if !isDigit c then failAt .invalidNumber (c :: rest)
      else
        match exponentFrom (digit c) rest with
        | (some m, left) => scaled negative n (if down then e - m else e + m) left
        | (none, left) =>
            if n ≠ 0 && !down then failBefore .numberOutOfRange left
            else scaled negative 0 0 (left.dropWhile isDigit)

def exponentSign (s : List Char) : Bool × List Char :=
  match s with
  | '+' :: rest => (false, rest)
  | '-' :: rest => (true, rest)
  | rest => (false, rest)

theorem exponent_eq (negative : Bool) (n : Nat) (e : Int) (s : List Char) :
    exponent negative n e s =
      exponentDigits negative n e (exponentSign s).1 (exponentSign s).2 :=
  rfl

theorem exponentSign_brace (s more : List Char) :
    exponentSign (s ++ '\x7d' :: more) =
      ((exponentSign s).1, (exponentSign s).2 ++ '\x7d' :: more) := by
  cases s with
  | nil => rfl
  | cons c s =>
      by_cases hplus : c = '+'
      · subst hplus
        rfl
      · by_cases hminus : c = '-'
        · subst hminus
          rfl
        · simp [exponentSign, hplus, hminus]

/-- The number with an integral part of which digits were dropped, read after them. -/
def afterDropped (negative : Bool) (n : Nat) (dropped s : List Char) :
    Except Fault (Number × List Char) :=
  match s with
  | '.' :: rest => fraction negative n dropped.length rest
  | 'e' :: rest => exponent negative n dropped.length rest
  | 'E' :: rest => exponent negative n dropped.length rest
  | left => if dropped.isEmpty then whole negative n left else scaled negative n dropped.length left

theorem afterWhole_eq (negative : Bool) (n : Nat) (s : List Char) :
    afterWhole negative n s =
      afterDropped negative n (s.takeWhile isDigit) (s.dropWhile isDigit) :=
  rfl

theorem takeWhile_brace {p : Char -> Bool} (hp : p '\x7d' = false) (s more : List Char) :
    (s ++ '\x7d' :: more).takeWhile p = s.takeWhile p := by
  induction s with
  | nil => simp [hp]
  | cons c s ih => simp only [List.cons_append, List.takeWhile_cons, ih]

theorem dropWhile_brace {p : Char -> Bool} (hp : p '\x7d' = false) (s more : List Char) :
    (s ++ '\x7d' :: more).dropWhile p = s.dropWhile p ++ '\x7d' :: more := by
  induction s with
  | nil => simp [hp]
  | cons c s ih =>
      simp only [List.cons_append, List.dropWhile_cons, ih]
      split <;> rfl

theorem startsWithDigit_brace (s more : List Char) :
    startsWithDigit (s ++ '\x7d' :: more) = startsWithDigit s := by
  cases s <;> rfl

theorem significandFrom_brace (n : Nat) (s more : List Char) :
    significandFrom n (s ++ '\x7d' :: more) =
      ((significandFrom n s).1, (significandFrom n s).2.1,
        (significandFrom n s).2.2 ++ '\x7d' :: more) := by
  induction s generalizing n with
  | nil => rfl
  | cons c s ih =>
      rw [List.cons_append, significandFrom, significandFrom]
      split
      · rw [ih]
      · rfl

theorem exponentFrom_brace (e : Nat) (s more : List Char) :
    exponentFrom e (s ++ '\x7d' :: more) =
      ((exponentFrom e s).1, (exponentFrom e s).2 ++ '\x7d' :: more) := by
  induction s generalizing e with
  | nil => rfl
  | cons c s ih =>
      rw [List.cons_append, exponentFrom, exponentFrom]
      split
      · rfl
      · split
        · rfl
        · rw [ih]

section

variable {negative : Bool} {n : Nat} {e : Int} {s rest : List Char} {x : Number}

theorem scaled_append (h : scaled negative n e s = .ok (x, rest)) (tail : List Char) :
    scaled negative n e (s ++ tail) = .ok (x, rest ++ tail) := by
  unfold scaled at h ⊢
  split at h
  · cases h
    rfl
  · cases h

theorem exponentDigits_brace {down : Bool} (h : exponentDigits negative n e down s = .ok (x, rest))
    (more : List Char) :
    exponentDigits negative n e down (s ++ '\x7d' :: more) = .ok (x, rest ++ '\x7d' :: more) := by
  cases s with
  | nil => cases h
  | cons c s =>
      rw [exponentDigits] at h
      rw [List.cons_append, exponentDigits]
      split at h
      · cases h
      · rename_i hdigit
        rw [if_neg hdigit, exponentFrom_brace]
        cases hread : exponentFrom (digit c) s with
        | mk m? left =>
            rw [hread] at h
            cases m? with
            | some m => exact scaled_append h _
            | none =>
                dsimp only at h ⊢
                split at h
                · cases h
                · rename_i hsmall
                  rw [if_neg hsmall, dropWhile_brace rfl]
                  exact scaled_append h _

theorem exponent_brace (h : exponent negative n e s = .ok (x, rest)) (more : List Char) :
    exponent negative n e (s ++ '\x7d' :: more) = .ok (x, rest ++ '\x7d' :: more) := by
  rw [exponent_eq] at h ⊢
  rw [exponentSign_brace]
  exact exponentDigits_brace h more

theorem afterDigits_brace (h : afterDigits negative n e s = .ok (x, rest)) (more : List Char) :
    afterDigits negative n e (s ++ '\x7d' :: more) = .ok (x, rest ++ '\x7d' :: more) := by
  cases s with
  | nil => exact scaled_append h _
  | cons c s =>
      rw [List.cons_append]
      by_cases hsmall : c = 'e'
      · subst hsmall
        exact exponent_brace h more
      · by_cases hlarge : c = 'E'
        · subst hlarge
          exact exponent_brace h more
        · have hscaled : forall t, afterDigits negative n e (c :: t) = scaled negative n e (c :: t) := by
            simp [afterDigits, hsmall, hlarge]
          rw [hscaled] at h ⊢
          exact scaled_append h _

theorem fraction_brace (h : fraction negative n e s = .ok (x, rest)) (more : List Char) :
    fraction negative n e (s ++ '\x7d' :: more) = .ok (x, rest ++ '\x7d' :: more) := by
  unfold fraction at h ⊢
  rw [significandFrom_brace]
  dsimp only at h ⊢
  rw [startsWithDigit_brace]
  split at h
  · rename_i hdigit
    rw [if_pos hdigit, dropWhile_brace rfl]
    exact afterDigits_brace h more
  · rename_i hdigit
    rw [if_neg hdigit]
    split at h
    · split at h <;> cases h
    · rename_i hcount
      rw [if_neg hcount]
      exact afterDigits_brace h more

theorem whole_append (h : whole negative n s = .ok (x, rest)) (tail : List Char) :
    whole negative n (s ++ tail) = .ok (x, rest ++ tail) := by
  unfold whole at h ⊢
  split at h
  · rename_i hnegative
    rw [if_pos hnegative]
    split at h
    · rename_i hzero
      rw [if_pos hzero]
      exact scaled_append h tail
    · rename_i hzero
      cases h
      exact if_neg hzero
  · rename_i hnegative
    cases h
    exact if_neg hnegative

theorem afterDropped_brace {dropped : List Char}
    (h : afterDropped negative n dropped s = .ok (x, rest)) (more : List Char) :
    afterDropped negative n dropped (s ++ '\x7d' :: more) = .ok (x, rest ++ '\x7d' :: more) := by
  have hended : forall {left : List Char},
      (if dropped.isEmpty then whole negative n left else scaled negative n dropped.length left) =
        .ok (x, rest) ->
      (if dropped.isEmpty then whole negative n (left ++ '\x7d' :: more)
        else scaled negative n dropped.length (left ++ '\x7d' :: more)) =
          .ok (x, rest ++ '\x7d' :: more) := by
    intro left hleft
    split at hleft
    · rename_i hnone
      rw [if_pos hnone]
      exact whole_append hleft _
    · rename_i hsome
      rw [if_neg hsome]
      exact scaled_append hleft _
  cases s with
  | nil => exact hended h
  | cons c s =>
      rw [List.cons_append]
      by_cases hpoint : c = '.'
      · subst hpoint
        exact fraction_brace h more
      · by_cases hsmall : c = 'e'
        · subst hsmall
          exact exponent_brace h more
        · by_cases hlarge : c = 'E'
          · subst hlarge
            exact exponent_brace h more
          · have hnumber : forall t, afterDropped negative n dropped (c :: t) =
                if dropped.isEmpty then whole negative n (c :: t)
                else scaled negative n dropped.length (c :: t) := by
              simp [afterDropped, hpoint, hsmall, hlarge]
            rw [hnumber] at h ⊢
            exact hended h

theorem afterWhole_brace (h : afterWhole negative n s = .ok (x, rest)) (more : List Char) :
    afterWhole negative n (s ++ '\x7d' :: more) = .ok (x, rest ++ '\x7d' :: more) := by
  rw [afterWhole_eq] at h ⊢
  rw [takeWhile_brace rfl, dropWhile_brace rfl]
  exact afterDropped_brace h more

theorem numeral_brace (h : numeral negative s = .ok (x, rest)) (more : List Char) :
    numeral negative (s ++ '\x7d' :: more) = .ok (x, rest ++ '\x7d' :: more) := by
  cases s with
  | nil => cases h
  | cons c s =>
      rw [List.cons_append]
      by_cases hzero : c = '0'
      · subst hzero
        rw [numeral] at h ⊢
        rw [startsWithDigit_brace]
        split at h
        · cases h
        · rename_i hdigit
          rw [if_neg hdigit]
          exact afterWhole_brace h more
      · rw [numeral.eq_3 _ _ _ hzero] at h ⊢
        split at h
        · rename_i hdigit
          rw [if_pos hdigit, significandFrom_brace]
          exact afterWhole_brace h more
        · cases h

end

end Reader
end SchemaTypes
