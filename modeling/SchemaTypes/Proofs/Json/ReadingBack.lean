import SchemaTypes.Proofs.Json.Enclosing
import SchemaTypes.Proofs.Json.Numeral
import SchemaTypes.Proofs.Json.Stored

/-!
# Printed values are read back

A value that is printed on one line is read back as it is, but for two things: its members
are read in the order of their keys, and a number of the binary format is read as its text.
-/

namespace SchemaTypes
namespace Reader

open Json (printChar printText)

/-!
## Texts
-/

theorem escape_control : forall n, n < 32 ->
    escape ['u', '0', '0', Nat.digitChar (n / 16), Nat.digitChar (n % 16)] =
      .ok (Char.ofNat n, []) := by
  decide

theorem text_escape {steps : Nat} {c : Char} {s rest : List Char} (h : escape s = .ok (c, rest)) :
    text (steps + 1) ('\\' :: s) = text steps rest >>= fun x => .ok (c :: x.1, x.2) := by
  rw [text, h]
  rfl

theorem text_printChar (steps : Nat) (c : Char) (rest : List Char) :
    text (steps + 1) (printChar c ++ rest) =
      text steps rest >>= fun x => .ok (c :: x.1, x.2) := by
  unfold printChar
  split
  case h_8 hquote hslash _ _ _ _ _ =>
    split
    · rename_i hcontrol
      have hread := escape_append (escape_control c.toNat hcontrol) rest
      rw [Char.ofNat_toNat] at hread
      exact text_escape hread
    · rename_i hcontrol
      rw [List.cons_append, List.nil_append, text.eq_5 _ _ _ hquote hslash, if_neg hcontrol]
  all_goals exact text_escape rfl

theorem text_printText {steps : Nat} {s : List Char} (hsteps : s.length < steps)
    (rest : List Char) : text steps (s.flatMap printChar ++ '"' :: rest) = .ok (s, rest) := by
  induction s generalizing steps with
  | nil =>
      rcases Nat.exists_eq_succ_of_ne_zero (Nat.ne_of_gt hsteps) with ⟨steps, rfl⟩
      rfl
  | cons c s ih =>
      rcases Nat.exists_eq_succ_of_ne_zero (Nat.ne_of_gt (Nat.zero_lt_of_lt hsteps)) with ⟨steps, rfl⟩
      rw [List.flatMap_cons, List.append_assoc, text_printChar, ih (Nat.lt_of_succ_lt_succ hsteps)]
      rfl

/-!
## Numbers
-/

theorem skipBlanks_cons {c : Char} (hc : isBlank c = false) (s : List Char) :
    skipBlanks (c :: s) = c :: s := by
  rw [skipBlanks, List.dropWhile_cons, hc]
  rfl

theorem isBlank_of_isDigit {c : Char} (h : Text.isDigit c = true) : isBlank c = false := by
  apply Bool.eq_false_iff.mpr
  intro hblank
  simp only [isBlank, Bool.or_eq_true, beq_iff_eq] at hblank
  rcases hblank with ((rfl | rfl) | rfl) | rfl <;> revert h <;> decide

theorem skipBlanks_of_startsWithDigit {s : List Char} (h : startsWithDigit s = true) :
    skipBlanks s = s := by
  cases s with
  | nil => rfl
  | cons c s => exact skipBlanks_cons (isBlank_of_isDigit h) s

theorem startsWithDigit_of_numeral {negative : Bool} {s rest : List Char} {n : Number}
    (h : numeral negative s = .ok (n, rest)) : startsWithDigit s = true := by
  unfold numeral at h
  split at h
  · cases h
  · rfl
  · split at h
    · assumption
    · cases h

theorem IsWhole.startsWithDigit {s : List Char} (h : IsWhole s) : startsWithDigit s = true := by
  cases h with
  | zero => rfl
  | digits hc => exact hc

theorem isWhole_digitsOf (n : Nat) : IsWhole (Decimal.digitsOf n) := by
  by_cases hn : n = 0
  · rw [hn]
    exact .zero
  · rcases exists_digitsOf (Nat.pos_of_ne_zero hn) with ⟨d, rest, hdigits, hd⟩
    have hall := all_isDigit_digitsOf n
    rw [hdigits] at hall ⊢
    rw [List.all_cons, Bool.and_eq_true] at hall
    exact .digits hall.left hd hall.right

theorem numeral_digitsOf (negative : Bool) {n : Nat} (hn : n < significandBound) {tail : List Char}
    (htail : Ends tail) : numeral negative (Decimal.digitsOf n ++ tail) = whole negative n tail := by
  have hend := htail.not_startsWithDigit
  rw [numeral_whole (isWhole_digitsOf n) hend (by rw [ofDigitChars_digitsOf]; exact hn),
    ofDigitChars_digitsOf, afterWhole_eq_afterDropped hend]
  cases htail <;> rfl

end Reader

open Reader

/-- The number that the text of a number is read as. -/
def Number.reread : Number -> Number
  | .integer n => .integer n
  | .float x =>
      match numeral x.negative x.unsigned with
      | .ok (n, _) => n
      | .error _ => .float x

namespace Reader

theorem print_integer (n : Int) :
    (Number.integer n).print =
      (if decide (n < 0) then ['-'] else []) ++ Decimal.digitsOf n.natAbs := by
  cases n with
  | ofNat n => rfl
  | negSucc n =>
      change ("-" ++ toString (n + 1)).toList = _
      rw [String.toList_append, decide_eq_true (Int.negSucc_lt_zero n)]
      rfl

theorem print_float (x : Decimal.Binary64) :
    (Number.float x).print = (if x.negative then ['-'] else []) ++ x.unsigned :=
  x.write_eq

theorem numeral_unsigned {x : Decimal.Binary64} (hx : x.IsValid) {tail : List Char}
    (htail : Ends tail) :
    numeral x.negative (x.unsigned ++ tail) = .ok ((Number.float x).reread, tail) := by
  rcases exists_unsigned x.negative hx with ⟨y, _, hread⟩
  have halone := hread [] .nil
  rw [List.append_nil] at halone
  rw [hread tail htail, Number.reread, halone]

theorem whole_natAbs {n : Int} (hlow : -2 ^ 63 ≤ n) (tail : List Char) :
    whole (decide (n < 0)) n.natAbs tail = .ok (.integer n, tail) := by
  have hhalf : 1 <<< 63 = 2 ^ 63 := rfl
  unfold whole
  split
  · rename_i hneg
    rw [decide_eq_true_eq] at hneg
    have hsmall : (decide (n.natAbs = 0) || decide (1 <<< 63 < n.natAbs)) = false := by
      rw [hhalf, Bool.or_eq_false_iff, decide_eq_false_iff_not, decide_eq_false_iff_not]
      omega
    have habs : -(n.natAbs : Int) = n := by omega
    rw [hsmall, if_neg Bool.false_ne_true, habs]
  · rename_i hpos
    rw [decide_eq_true_eq] at hpos
    have habs : (n.natAbs : Int) = n := by omega
    rw [habs]

/-- A sign and a numeral that is read behind it. -/
theorem valueWith_numeral {negative : Bool} {s tail : List Char} {n : Number} (steps : Nat)
    (nested? : Option (Reader Json)) (h : numeral negative (s ++ tail) = .ok (n, tail)) :
    valueWith steps nested? ((if negative then ['-'] else []) ++ s ++ tail) =
      .ok (.number n, tail) := by
  cases negative with
  | true =>
      change (numeral true (s ++ tail) >>= _) = _
      rw [h]
      rfl
  | false =>
      have hdigit := startsWithDigit_of_numeral h
      change valueWith steps nested? (s ++ tail) = _
      rw [valueWith_digit (skipBlanks_of_startsWithDigit hdigit) hdigit, h]
      rfl

theorem valueWith_print {n : Number} (hn : n.IsReadable) (steps : Nat)
    (nested? : Option (Reader Json)) {tail : List Char} (htail : Ends tail) :
    valueWith steps nested? (n.print ++ tail) = .ok (.number n.reread, tail) := by
  cases n with
  | integer n =>
      have hbound : n.natAbs < significandBound := by
        have heq : significandBound = 2 ^ 64 := rfl
        rcases hn with ⟨hlow, hhigh⟩
        omega
      have hread : numeral (decide (n < 0)) (Decimal.digitsOf n.natAbs ++ tail) =
          .ok (.integer n, tail) := by
        rw [numeral_digitsOf _ hbound htail, whole_natAbs hn.left]
      rw [print_integer]
      exact valueWith_numeral steps nested? hread
  | float x =>
      rw [print_float]
      exact valueWith_numeral steps nested? (numeral_unsigned hn htail)

end Reader

/-!
## Values
-/

namespace Json

mutual

/-- The value that the text of a value is read as. -/
def reread : Json -> Json
  | null => null
  | bool b => bool b
  | number n => number n.reread
  | string s => string s
  | array items => array (rereadItems items)
  | object o => object (Members.ofList (rereadMembers o))

def rereadItems : List Json -> List Json
  | [] => []
  | j :: rest => reread j :: rereadItems rest

def rereadMembers : List (List Char × Json) -> List (List Char × Json)
  | [] => []
  | (k, j) :: rest => (k, reread j) :: rereadMembers rest

end

theorem compactItems_cons (j : Json) (items : List Json) :
    compactItems (j :: items) = compact j ++ items.flatMap fun i => ',' :: compact i := by
  induction items generalizing j with
  | nil => rw [compactItems, List.flatMap_nil, List.append_nil]
  | cons i items ih =>
      rw [compactItems, ih, List.flatMap_cons]
      · rfl
      · exact List.cons_ne_nil _ _

def memberText (entry : List Char × Json) : List Char :=
  printText entry.1 ++ ':' :: compact entry.2

theorem compactMembers_cons (entry : List Char × Json) (o : Members) :
    compactMembers (entry :: o) = memberText entry ++ o.flatMap fun e => ',' :: memberText e := by
  induction o generalizing entry with
  | nil => rw [compactMembers, List.flatMap_nil, List.append_nil, memberText]
  | cons e o ih =>
      rw [compactMembers, ih, List.flatMap_cons]
      · simp [memberText]
      · exact List.cons_ne_nil _ _

end Json

namespace Reader

open Json (printChar printText)

/-- The reader reads the text of a value, and no more. -/
def ReadsBack (read : Reader Json) (j : Json) : Prop :=
  forall tail, Ends tail -> read (j.compact ++ tail) = .ok (j.reread, tail)

/-- The text of a value does not start as the end of an array does. -/
def Opens (j : Json) : Prop :=
  exists c rest, j.compact = c :: rest /\ isBlank c = false /\ c ≠ ']'

theorem nextItem_compact {j : Json} (h : Opens j) (tail : List Char) :
    nextItem true (j.compact ++ tail) = .ok (.more (j.compact ++ tail)) /\
      nextItem false (',' :: (j.compact ++ tail)) = .ok (.more (j.compact ++ tail)) := by
  rcases h with ⟨c, rest, hcompact, hblank, hclose⟩
  rw [hcompact, List.cons_append]
  constructor
  · exact nextItem_eq_ok.mpr (.first (skipBlanks_cons hblank _) hclose)
  · exact nextItem_eq_ok.mpr (.further (skipBlanks_cons rfl _) (skipBlanks_cons hblank _) hclose)

theorem ends_flatMap {α : Type} (f : α -> List Char) (as : List α) {tail : List Char}
    (htail : Ends tail) : Ends ((as.flatMap fun a => ',' :: f a) ++ tail) := by
  cases as with
  | nil => exact htail
  | cons a as => exact .comma _

theorem items_step {item : Reader Json} {j : Json} (hread : ReadsBack item j) {first : Bool}
    {s tail : List Char} (hnext : nextItem first s = .ok (.more (j.compact ++ tail)))
    (htail : Ends tail) (steps : Nat) :
    items item (steps + 1) first s =
      items item steps false tail >>= fun x => .ok (j.reread :: x.1, x.2) := by
  rw [items, hnext]
  change (item _ >>= _) = _
  rw [hread tail htail]
  rfl

theorem items_later {item : Reader Json} {js : List Json}
    (hread : forall j, j ∈ js -> ReadsBack item j) (hopens : forall j, j ∈ js -> Opens j) {steps : Nat}
    (hsteps : js.length < steps) (tail : List Char) :
    items item steps false ((js.flatMap fun j => ',' :: j.compact) ++ ']' :: tail) =
      .ok (Json.rereadItems js, tail) := by
  induction js generalizing steps with
  | nil =>
      rcases Nat.exists_eq_succ_of_ne_zero (Nat.ne_of_gt hsteps) with ⟨steps, rfl⟩
      rfl
  | cons j js ih =>
      rcases Nat.exists_eq_succ_of_ne_zero (Nat.ne_of_gt (Nat.zero_lt_of_lt hsteps)) with ⟨steps, rfl⟩
      rw [List.forall_mem_cons] at hread hopens
      rw [List.flatMap_cons, List.append_assoc, List.cons_append,
        items_step hread.left (nextItem_compact hopens.left _).right
          (ends_flatMap Json.compact js (.bracket tail)),
        ih hread.right hopens.right (Nat.lt_of_succ_lt_succ hsteps)]
      rfl

theorem items_compact {item : Reader Json} {js : List Json}
    (hread : forall j, j ∈ js -> ReadsBack item j) (hopens : forall j, j ∈ js -> Opens j) {steps : Nat}
    (hsteps : js.length < steps) (tail : List Char) :
    items item steps true (Json.compactItems js ++ ']' :: tail) =
      .ok (Json.rereadItems js, tail) := by
  rcases Nat.exists_eq_succ_of_ne_zero (Nat.ne_of_gt (Nat.zero_lt_of_lt hsteps)) with ⟨steps, rfl⟩
  cases js with
  | nil => rfl
  | cons j js =>
      rw [List.forall_mem_cons] at hread hopens
      rw [Json.compactItems_cons, List.append_assoc,
        items_step hread.left (nextItem_compact hopens.left _).left
          (ends_flatMap Json.compact js (.bracket tail)),
        items_later hread.right hopens.right (Nat.lt_of_succ_lt_succ hsteps)]
      rfl

theorem length_le_length_printText (s : List Char) : s.length + 2 ≤ (printText s).length := by
  have hchar : forall c, 1 ≤ (printChar c).length := by
    intro c
    unfold printChar
    repeat' split
    all_goals simp
  have hchars : s.length ≤ (s.flatMap printChar).length := by
    induction s with
    | nil => exact Nat.le_refl _
    | cons c s ih =>
        have hc := hchar c
        rw [List.flatMap_cons, List.length_append, List.length_cons]
        omega
  simpa [printText] using hchars

theorem memberText_append (entry : List Char × Json) (tail : List Char) :
    Json.memberText entry ++ tail =
      '"' :: (entry.1.flatMap printChar ++ '"' :: ':' :: (entry.2.compact ++ tail)) := by
  simp [Json.memberText, printText]

theorem members_step {read : Reader Json} {entry : List Char × Json} (hread : ReadsBack read entry.2)
    {first : Bool} {s tail : List Char}
    (hnext : nextKey first s =
      .ok (.more (entry.1.flatMap printChar ++ '"' :: ':' :: (entry.2.compact ++ tail))))
    (htail : Ends tail) {steps : Nat} (hsteps : entry.1.length ≤ steps) (o : Members) :
    members (memberInto read) (steps + 1) first o s =
      members (memberInto read) steps false (o.put entry.1 entry.2.reread) tail := by
  rw [members, hnext]
  change (text (steps + 1) _ >>= _) = _
  rw [text_printText (Nat.lt_succ_of_le hsteps)]
  change (memberInto read o entry.1 (':' :: (entry.2.compact ++ tail)) >>= _) = _
  have hmember : memberInto read o entry.1 (':' :: (entry.2.compact ++ tail)) =
      .ok (o.put entry.1 entry.2.reread, tail) := by
    change (read _ >>= _) = _
    rw [hread tail htail]
    rfl
  rw [hmember]
  rfl

theorem members_later {read : Reader Json} {entries : List (List Char × Json)}
    (hread : forall e, e ∈ entries -> ReadsBack read e.2) {steps : Nat} {tail : List Char}
    (hsteps : (entries.flatMap fun e => ',' :: Json.memberText e).length < steps) (o : Members) :
    members (memberInto read) steps false o
        ((entries.flatMap fun e => ',' :: Json.memberText e) ++ '\x7d' :: tail) =
      .ok ((Json.rereadMembers entries).foldl (fun o e => o.put e.1 e.2) o, tail) := by
  induction entries generalizing steps o with
  | nil =>
      rcases Nat.exists_eq_succ_of_ne_zero (Nat.ne_of_gt hsteps) with ⟨steps, rfl⟩
      rfl
  | cons entry entries ih =>
      rcases Nat.exists_eq_succ_of_ne_zero (Nat.ne_of_gt (Nat.zero_lt_of_lt hsteps)) with ⟨steps, rfl⟩
      rw [List.forall_mem_cons] at hread
      have hkey := length_le_length_printText entry.1
      rw [List.flatMap_cons, List.length_append, List.length_cons, Json.memberText,
        List.length_append] at hsteps
      rw [List.flatMap_cons, List.append_assoc, List.cons_append, memberText_append,
        members_step hread.left (nextKey_eq_ok.mpr (.further rfl rfl))
          (ends_flatMap Json.memberText entries (.brace tail)) (by omega),
        ih hread.right (by omega)]
      rfl

theorem members_compact {read : Reader Json} {entries : List (List Char × Json)}
    (hread : forall e, e ∈ entries -> ReadsBack read e.2) {steps : Nat}
    (hsteps : (Json.compactMembers entries).length < steps) (tail : List Char) :
    members (memberInto read) steps true [] (Json.compactMembers entries ++ '\x7d' :: tail) =
      .ok (Members.ofList (Json.rereadMembers entries), tail) := by
  rcases Nat.exists_eq_succ_of_ne_zero (Nat.ne_of_gt (Nat.zero_lt_of_lt hsteps)) with ⟨steps, rfl⟩
  cases entries with
  | nil => rfl
  | cons entry entries =>
      rw [List.forall_mem_cons] at hread
      have hkey := length_le_length_printText entry.1
      rw [Json.compactMembers_cons] at hsteps ⊢
      rw [List.length_append, Json.memberText, List.length_append] at hsteps
      rw [List.append_assoc, memberText_append,
        members_step hread.left (nextKey_eq_ok.mpr (.first rfl))
          (ends_flatMap Json.memberText entries (.brace tail)) (by omega),
        members_later hread.right (by omega)]
      rfl

theorem length_le_flatMap {α : Type} (f : α -> List Char) {as : List α} {a : α} (h : a ∈ as) :
    (f a).length ≤ (as.flatMap f).length := by
  induction as with
  | nil => cases h
  | cons b as ih =>
      rw [List.flatMap_cons, List.length_append]
      cases h with
      | head => exact Nat.le_add_right _ _
      | tail _ h => exact Nat.le_add_left_of_le (ih h)

theorem length_compact_le {j : Json} {js : List Json} (h : j ∈ js) :
    j.compact.length ≤ (Json.compactItems js).length := by
  cases js with
  | nil => cases h
  | cons i js =>
      rw [Json.compactItems_cons, List.length_append]
      cases h with
      | head => exact Nat.le_add_right _ _
      | tail _ h =>
          have hlater := length_le_flatMap (fun i : Json => ',' :: i.compact) h
          rw [List.length_cons] at hlater
          omega

theorem length_memberText_le {entry : List Char × Json} {o : Members} (h : entry ∈ o) :
    (Json.memberText entry).length ≤ (Json.compactMembers o).length := by
  cases o with
  | nil => cases h
  | cons e o =>
      rw [Json.compactMembers_cons, List.length_append]
      cases h with
      | head => exact Nat.le_add_right _ _
      | tail _ h =>
          have hlater := length_le_flatMap (fun e => ',' :: Json.memberText e) h
          rw [List.length_cons] at hlater
          omega

theorem length_le_length_compactItems {js : List Json} (hopens : forall j, j ∈ js -> Opens j) :
    js.length ≤ (Json.compactItems js).length := by
  cases js with
  | nil => exact Nat.zero_le _
  | cons j js =>
      have hlater : forall is : List Json,
          is.length ≤ (is.flatMap fun i => ',' :: i.compact).length := by
        intro is
        induction is with
        | nil => exact Nat.zero_le _
        | cons i is ih =>
            rw [List.flatMap_cons, List.length_append, List.length_cons, List.length_cons]
            omega
      rcases hopens j List.mem_cons_self with ⟨c, rest, hcompact, _⟩
      have hcount := hlater js
      rw [Json.compactItems_cons, hcompact, List.length_append, List.length_cons, List.length_cons]
      omega

theorem opens_signed {negative : Bool} {s : List Char} (h : startsWithDigit s = true) :
    exists c rest, (if negative then ['-'] else []) ++ s = c :: rest /\ isBlank c = false /\
      c ≠ ']' := by
  cases negative with
  | true => exact ⟨'-', s, rfl, rfl, by decide⟩
  | false =>
      cases s with
      | nil => cases h
      | cons c s =>
          refine ⟨c, s, rfl, isBlank_of_isDigit h, ?_⟩
          intro hc
          rw [hc] at h
          cases h

theorem startsWithDigit_unsigned {x : Decimal.Binary64} (hx : x.IsValid) :
    startsWithDigit x.unsigned = true := by
  have hread := startsWithDigit_of_numeral (numeral_unsigned hx .nil)
  rw [List.append_nil] at hread
  exact hread

theorem opens_of_isReadable {depth : Nat} {j : Json} (h : j.IsReadable depth) : Opens j := by
  cases h with
  | null => exact ⟨'n', _, rfl, rfl, by decide⟩
  | bool _ b =>
      cases b with
      | true => exact ⟨'t', _, rfl, rfl, by decide⟩
      | false => exact ⟨'f', _, rfl, rfl, by decide⟩
  | @number _ n hn =>
      cases n with
      | integer n =>
          unfold Opens
          rw [Json.compact, print_integer]
          exact opens_signed (isWhole_digitsOf n.natAbs).startsWithDigit
      | float x =>
          unfold Opens
          rw [Json.compact, print_float]
          exact opens_signed (startsWithDigit_unsigned hn)
  | string => exact ⟨'"', _, rfl, rfl, by decide⟩
  | array => exact ⟨'[', _, rfl, rfl, by decide⟩
  | object => exact ⟨'\x7b', _, rfl, rfl, by decide⟩

theorem value_eq (steps depth : Nat) :
    exists nested?, value steps depth = valueWith steps nested? := by
  cases depth with
  | zero => exact ⟨_, rfl⟩
  | succ depth => exact ⟨_, rfl⟩

theorem readsBack_value {depth : Nat} {j : Json} (h : j.IsReadable depth) {steps : Nat}
    (hsteps : j.compact.length < steps) : ReadsBack (value steps depth) j := by
  intro tail htail
  induction h generalizing tail with
  | null depth =>
      rcases value_eq steps depth with ⟨nested?, hvalue⟩
      rw [hvalue]
      rfl
  | bool depth b =>
      rcases value_eq steps depth with ⟨nested?, hvalue⟩
      rw [hvalue]
      cases b <;> rfl
  | number depth hn =>
      rcases value_eq steps depth with ⟨nested?, hvalue⟩
      rw [hvalue]
      exact valueWith_print hn steps nested? htail
  | string depth s =>
      rcases value_eq steps depth with ⟨nested?, hvalue⟩
      have hlength := length_le_length_printText s
      rw [Json.compact] at hsteps ⊢
      have htext := text_printText (show s.length < steps by omega) tail
      rw [hvalue, printText, List.append_assoc, List.cons_append]
      change (text steps (s.flatMap printChar ++ '"' :: tail) >>= _) = _
      rw [htext]
      rfl
  | @array depth js hitems ih =>
      have hopens : forall j, j ∈ js -> Opens j := fun j hj => opens_of_isReadable (hitems j hj)
      have hcount := length_le_length_compactItems hopens
      rw [Json.compact, List.length_append, List.length_cons] at hsteps
      have hread : forall j, j ∈ js -> ReadsBack (value steps depth) j := by
        intro j hj
        have hj' := length_compact_le hj
        exact ih j hj (by omega)
      have hread := items_compact hread hopens (show js.length < steps by omega) tail
      rw [Json.compact, List.append_assoc, List.cons_append]
      change (items (value steps depth) steps true (Json.compactItems js ++ ']' :: tail) >>= _) = _
      rw [hread]
      rfl
  | @object depth o hvalues ih =>
      rw [Json.compact, List.length_append, List.length_cons] at hsteps
      have hread : forall e, e ∈ o -> ReadsBack (value steps depth) e.2 := by
        intro e he
        have hmember := length_memberText_le he
        rw [Json.memberText, List.length_append, List.length_cons] at hmember
        exact ih e he (by omega)
      have hread := members_compact hread (show (Json.compactMembers o).length < steps by omega) tail
      rw [Json.compact, List.append_assoc, List.cons_append]
      change (members (memberInto (value steps depth)) steps true []
        (Json.compactMembers o ++ '\x7d' :: tail) >>= _) = _
      rw [hread]
      rfl

end Reader

namespace Json

/-- A value that is not too deep is read back from its text, and from its text on a line. -/
theorem parse_compact {j : Json} (h : j.IsReadable greatestDepth) {tail : List Char}
    (htail : tail = [] \/ tail = ['\n']) : parse (j.compact ++ tail) = .ok j.reread := by
  have hends : Ends tail := by
    rcases htail with rfl | rfl
    · exact .nil
    · exact .feed
  have hblank : skipBlanks tail = [] := by
    rcases htail with rfl | rfl <;> rfl
  apply run_eq_ok.mpr
  refine ⟨tail, readsBack_value h ?_ tail hends, hblank⟩
  rw [List.length_append]
  omega

end Json

/-!
## Values that are read back as they are
-/

namespace Members

theorem put_of_forall_lt {o : Members} {key : List Char} (h : forall e, e ∈ o -> e.1 < key)
    (j : Json) : o.put key j = o ++ [(key, j)] := by
  induction o with
  | nil => rfl
  | cons e o ih =>
      rw [List.forall_mem_cons] at h
      have hne : key ≠ e.1 := fun heq => List.lt_irrefl key (heq ▸ h.left)
      have hnot : ¬ key < e.1 := List.lt_asymm h.left
      rw [put, if_neg hne, if_neg hnot, ih h.right]
      rfl

theorem foldl_put_of_isSorted {o rest : Members} (h : IsSorted (o ++ rest)) :
    rest.foldl (fun o e => o.put e.1 e.2) o = o ++ rest := by
  induction rest generalizing o with
  | nil => rw [List.foldl_nil, List.append_nil]
  | cons e rest ih =>
      have hlt : forall f, f ∈ o -> f.1 < e.1 := by
        intro f hf
        exact (List.pairwise_append.mp h).right.right f hf e List.mem_cons_self
      have hsplit : o ++ e :: rest = o ++ [e] ++ rest := by simp
      rw [hsplit] at h ⊢
      rw [List.foldl_cons, put_of_forall_lt hlt]
      exact ih h

theorem IsSorted.ofList {o : Members} (h : o.IsSorted) : Members.ofList o = o := by
  have hfold := foldl_put_of_isSorted (o := []) h
  exact hfold

end Members

namespace Json

/-- All numbers in the value are integers. -/
inductive IsIntegral : Json -> Prop
  | null : IsIntegral .null
  | bool (b : Bool) : IsIntegral (.bool b)
  | number (n : Int) : IsIntegral (.number (.integer n))
  | string (s : List Char) : IsIntegral (.string s)
  | array {items : List Json} (h : forall j, j ∈ items -> j.IsIntegral) : IsIntegral (.array items)
  | object {o : Members} (h : forall entry, entry ∈ o -> entry.2.IsIntegral) : IsIntegral (.object o)

theorem rereadItems_eq {items : List Json} (h : forall j, j ∈ items -> j.reread = j) :
    rereadItems items = items := by
  induction items with
  | nil => rfl
  | cons j items ih =>
      rw [List.forall_mem_cons] at h
      rw [rereadItems, h.left, ih h.right]

theorem rereadMembers_eq {o : Members} (h : forall entry, entry ∈ o -> entry.2.reread = entry.2) :
    rereadMembers o = o := by
  induction o with
  | nil => rfl
  | cons entry o ih =>
      rw [List.forall_mem_cons] at h
      rw [rereadMembers, h.left, ih h.right]

theorem reread_eq {j : Json} (hstored : j.IsStored) (h : j.IsIntegral) : j.reread = j := by
  induction h with
  | null => rfl
  | bool b => rfl
  | number n => rfl
  | string s => rfl
  | array _ ih =>
      cases hstored with
      | array hitems => rw [reread, rereadItems_eq fun j hj => ih j hj (hitems j hj)]
  | object _ ih =>
      cases hstored with
      | object hsorted hvalues =>
          rw [reread, rereadMembers_eq fun e he => ih e he (hvalues e he), hsorted.ofList]

/-- A stored value without fractions is what its text spells. -/
theorem parse_compact_of_isIntegral {j : Json} (hdepth : j.IsReadable greatestDepth)
    (hstored : j.IsStored) (h : j.IsIntegral) : parse j.compact = .ok j := by
  have hread := parse_compact hdepth (.inl rfl)
  rw [List.append_nil, reread_eq hstored h] at hread
  exact hread

end Json
end SchemaTypes
