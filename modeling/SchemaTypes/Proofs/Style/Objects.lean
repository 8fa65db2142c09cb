import SchemaTypes.Proofs.Style.Types
import SchemaTypes.Proofs.TypeScript.ExpressionReading

/-!
# Objects in any layout

An object of literals can be spelled with any blanks between its tokens and with a comma
behind its last entry or without.  Only `as` behind the object stands on the row where
the object ends.
-/

namespace SchemaTypes
namespace TypeScript

/-!
## Keys
-/

namespace PropertyName

/-- A word, or a literal between quotes of any kind. -/
def isKey (n : PropertyName) : Bool :=
  if n.quoted then isLiteral n.text else isWordText n.text

variable {n : PropertyName}

theorem plain_of_isKey (h : n.isKey = true) (hquoted : n.quoted = false) :
    isWordText n.text = true \/ isWholeNumber n.text = true := by
  rw [isKey, if_neg (by rw [hquoted]; decide)] at h
  exact .inl h

theorem isSpelled_key (h : n.isKey = true) (g : Gap) : (n.lexeme g).isSpelled = true := by
  rw [isKey] at h
  rw [lexeme]
  split at h <;> rename_i hquoted
  · rw [if_pos hquoted]
    exact h
  · rw [if_neg hquoted]
    exact Lexeme.isSpelled_leaf (.inl h) g

end PropertyName

/-!
## Spellings
-/

structure Pairing where
  key : PropertyName
  literal : List Char

namespace Pairing

def entry (p : Pairing) : Entry :=
  .pair p.key (.string p.literal)

/-- An object with entries, taken as a constant or not. -/
def value (frozen : Bool) (ps : List Pairing) : Expression :=
  if frozen then .ascription (.object (ps.map entry)) .constant else .object (ps.map entry)

inductive Spelled : Pairing -> List Lexeme -> Prop where
  | mk (b b' b'' : List Char) {key : PropertyName} {literal : List Char} (hkey : key.isKey = true)
      (hliteral : isLiteral literal = true) :
      Spelled ⟨key, literal⟩
        [key.lexeme (.ofBlank b), .mark b' ':', .string (.ofBlank b'') literal]

/-- The lexemes spell entries with commas between them, and perhaps one behind the last. -/
inductive SpelledAll : List Pairing -> List Lexeme -> Prop where
  | nil : SpelledAll [] []
  | cons {first : Pairing} {ls comma : List Lexeme} {more : List (Further Pairing)}
      (hfirst : Spelled first ls) (hmore : forall p, p ∈ more -> Spelled p.value p.lexemes)
      (hcomma : Lexeme.IsOptional ',' comma) :
      SpelledAll (first :: more.map Further.value) (ls ++ Further.lexemesOf ',' more ++ comma)

/-- The lexemes spell an object, with `as const` behind it where it is frozen. -/
inductive SpelledValue : Bool -> List Pairing -> List Lexeme -> Prop where
  | object (b b' : List Char) {ps : List Pairing} {ls : List Lexeme} (h : SpelledAll ps ls) :
      SpelledValue false ps (.mark b '\x7b' :: ls ++ [.mark b' '\x7d'])
  | frozen {b : List Char} (hb : isRowBlank b = true) (b' : List Char) {ps : List Pairing}
      {ls : List Lexeme} (h : SpelledValue false ps ls) :
      SpelledValue true ps
        (ls ++ [.keyword (.ofBlank b) "as", .keyword (.ofBlank b') "const"])

end Pairing

namespace Parser

open Pairing

variable {g : Grammar} {context : Context} {row : Nat} {rest ts : List Token} {ps : List Pairing}
  {ls : List Lexeme}

/-!
## Entries
-/

structure ReadsLiterals (g : Grammar) : Prop where
  string {literal : List Char} (h : isLiteral literal = true) (b : List Char) (context : Context)
    (row : Nat) {rest : List Token} (hrest : Ends expressionClosers rest) :
    (g.expression context).run ((Lexeme.string (.ofBlank b) literal).token row :: rest) =
      some (.string literal, rest)
  constant : ReadsType g .constant

theorem opensOperand_token {l : Lexeme} (hspelled : l.isSpelled = true)
    (hmarks : forall row c, c ∈ "(<!~+-".toList -> (l.token row).isMark c = false)
    (hword : l.kind ≠ .word) (row : Nat) (ts : List Token) : OpensOperand (l.token row :: ts) := by
  have hnot : (l.token row).kind ≠ .word := by rwa [Lexeme.token_kind]
  refine ⟨_, ts, rfl, fun w _ => Token.isWord_of_kind hnot w, ?_, ?_, fun h => absurd h hnot, ?_⟩
  · intro c hc
    exact hmarks row c (List.mem_cons_of_mem _ hc)
  · intro s hs
    rw [Lexeme.token_text]
    exact Lexeme.text_ne_of_isSpelled hspelled hs
  · intro hopen
    rw [hmarks row '(' (by decide)] at hopen
    cases hopen

theorem readsLiterals_upTo (n : Nat) : ReadsLiterals (Grammar.upTo (n + 1)) where
  string {literal} h b context row rest hrest := by
    have hspelled : (Lexeme.string (.ofBlank b) literal).isSpelled = true := h
    have hopens := opensOperand_token hspelled (by simp) (by simp) row rest
    exact run_expression_of_operand (run_primaryExpression_string _ _) hopens hrest
  constant := readsTypes_upTo (n + 1) .constant .constant (Nat.succ_le_succ (Nat.zero_le n))

theorem readsSlot_spelled (hg : ReadsLiterals g) {p : Pairing} (h : p.Spelled ls) :
    ReadsSlot '\x7d' (objectEntry g) ls p.entry := by
  cases h with
  | mk b b' b'' hkey hliteral =>
      refine readsSlot_keyed (PropertyName.isSpelled_key hkey _) (PropertyName.plain_of_isKey hkey) b' ?_
      intro row rest hrest
      exact hg.string hliteral b'' .operand row hrest

theorem run_entries_spelled (hg : ReadsLiterals g) (h : SpelledAll ps ls) {t : Token}
    (ht : t.isMark '\x7b' = true) (b : List Char) (row : Nat) (rest : List Token) :
    (listBetween '\x7b' '\x7d' .hole (objectEntry g)).run
        (t :: (Lexeme.place row (ls ++ [.mark b '\x7d']) ++ rest)) =
      some (some (ps.map entry), rest) := by
  have hbrace := fun row => run_objectEntry_none (g := g) b row rest
  cases h with
  | nil => simpa using run_listBetween_nil Entry.hole ht (by decide) b row (hbrace row)
  | @cons first ls comma more hfirst hmore hcomma =>
      have hslots : forall q, q ∈ more.map (Further.map entry) ->
          ReadsSlot '\x7d' (objectEntry g) q.lexemes q.value := by
        intro q hq
        obtain ⟨p, hp, rfl⟩ := List.mem_map.mp hq
        exact readsSlot_spelled hg (hmore p hp)
      have hlist := run_listBetween_further Entry.hole ht (readsSlot_spelled hg hfirst) hslots
        (by decide) hcomma b row hbrace
      rw [Further.lexemesOf_map] at hlist
      rw [hlist, List.map_cons, List.map_map, List.map_map]
      rfl

/-!
## Objects
-/

theorem opensOperand_brace (b : List Char) (row : Nat) (ts : List Token) :
    OpensOperand ((Lexeme.mark b '\x7b').token row :: ts) := by
  refine opensOperand_token rfl ?_ (by simp) row ts
  intro row c hc
  rw [Lexeme.isMark_mark]
  revert c
  exact forall_mem_of_all (by decide)

theorem run_primaryExpression_spelled (hg : ReadsLiterals g) (h : SpelledAll ps ls) (b b' : List Char)
    (row : Nat) (rest : List Token) :
    (primaryExpression g).run
        (Lexeme.place row (.mark b '\x7b' :: ls ++ [.mark b' '\x7d']) ++ rest) =
      some (some (.object (ps.map entry)), rest) := by
  rw [List.cons_append, Lexeme.place_cons, List.cons_append]
  exact run_primaryExpression_braces (run_entries_spelled hg h (by simp) b' _ rest)

theorem run_expression_spelled (hg : ReadsLiterals g) {frozen : Bool}
    (h : SpelledValue frozen ps ls) (row : Nat) (hrest : Ends expressionClosers rest) :
    (expression g context).run (Lexeme.place row ls ++ rest) = some (value frozen ps, rest) := by
  cases h with
  | object b b' h =>
      exact run_expression_of_operand (run_primaryExpression_spelled hg h b b' row rest)
        (opensOperand_brace b row _) hrest
  | @frozen b hb b' _ ls h =>
      cases h with
      | @object c c' _ ls h =>
          have has : forall row, Closes expressionClosers
              (Lexeme.place row [.keyword (.ofBlank b) "as", .keyword (.ofBlank b') "const"] ++
                rest) := fun row => closes_as _ _ row _
          have hprimary := fun row row' => run_primaryExpression_spelled hg h c c' row
            (Lexeme.place row' [.keyword (.ofBlank b) "as", .keyword (.ofBlank b') "const"] ++ rest)
          rw [Lexeme.place_append, List.append_assoc]
          generalize row + Lexeme.rows (.mark c '\x7b' :: ls ++ [.mark c' '\x7d']) = row₁
          obtain ⟨target, hoperand⟩ := run_operand context (hprimary row row₁)
            (opensOperand_brace c row _) (has row₁)
          have hconstant : forall start fuel,
              (operatorsFrom g context start (fuel + 1) target (some (.object (ps.map entry)))).run
                  (Lexeme.place row₁
                    [.keyword (.ofBlank b) "as", .keyword (.ofBlank b') "const"] ++ rest) =
                some (some (.ascription (.object (ps.map entry)) .constant), rest) :=
            fun start fuel => (run_operatorsFrom_ascription hg.constant .constant hb b'
              (closes_of_ends hrest) fuel rfl).trans (run_operatorsFrom_end hrest fuel)
          exact run_expression_of_operation (run_operation hoperand (hconstant _ _)) rfl hrest

/-- The grammar reads every spelling of an object of literals. -/
def ReadsValues (g : Grammar) : Prop :=
  forall (frozen : Bool) (ps : List Pairing) (ls : List Lexeme), SpelledValue frozen ps ls ->
    forall (context : Context) (row : Nat) (rest : List Token), Ends expressionClosers rest ->
      (g.expression context).run (Lexeme.place row ls ++ rest) = some (value frozen ps, rest)

theorem readsValues_upTo (n : Nat) : ReadsValues (Grammar.upTo (n + 2)) :=
  fun _ _ _ h _ row _ hrest => run_expression_spelled (readsLiterals_upTo n) h row hrest

end Parser
end TypeScript
end SchemaTypes
