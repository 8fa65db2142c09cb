import SchemaTypes.Proofs.TypeScript.ExpressionReading
import SchemaTypes.Proofs.TypeScript.Header

/-!
# Signatures of methods

A method of an interface is kept as text.  Its parameters and the type of its result can be
spelled in any layout that is not changed when the text is printed, and are read up to the
semicolon behind them.
-/

namespace SchemaTypes
namespace TypeScript

/-!
## Spellings
-/

namespace Signature

open Header

def typeMark (b : List Char) : Lexeme :=
  .mark b ':'

def question (optional : Bool) : List Lexeme :=
  if optional then [.mark [] '?'] else []

/-- A name with its type, if it has one. -/
inductive IsParameter : List Lexeme -> Prop where
  | named (b : List Char) {name : List Char} {declared : List Lexeme} (optional : Bool)
      (hname : isIdentifier name = true) (hdeclared : IsClause typeMark declared) :
      IsParameter (.word (.ofBlank b) name :: (question optional ++ declared))

inductive AreParameters : List Lexeme -> Prop where
  | none (b : List Char) : AreParameters [.mark [] '(', .mark b ')']
  | some (b : List Char) {ls : List Lexeme} (h : IsList IsParameter ls) :
      AreParameters (.mark [] '(' :: (ls ++ [.mark b ')']))

/-- The lexemes have no word that tells what a call makes sure of. -/
def IsPlain (ls : List Lexeme) : Prop :=
  forall l, l ∈ ls -> l.text ≠ "asserts".toList /\ l.text ≠ "is".toList

/-- Parameters and the type of the result, if it has one. -/
inductive IsCall : List Lexeme -> Prop where
  | signature {generics parameters result : List Lexeme}
      (hgenerics : generics = [] \/ Header.AreParameters generics)
      (hparameters : AreParameters parameters) (hresult : IsClause typeMark result)
      (hplain : IsPlain result) : IsCall (generics ++ (parameters ++ result))

end Signature

/-!
## Reading parameters
-/

namespace Parser

open Signature (typeMark question)

variable {g : Grammar} {n row : Nat} {ls : List Lexeme} {ts rest : List Token} {t u : Token}

theorem place_typeMark_eq_cons (h : Header.IsClause typeMark ls) (optional : Bool) (row : Nat)
    (hrest : Ends [',', ')'] rest) :
    exists u us c, Lexeme.place row (question optional ++ ls) ++ rest = u :: us /\
      u.isMark c = true /\ c ∈ ['?', ':', ',', ')'] := by
  obtain ⟨t, ts, c, rfl, hc, ht⟩ := hrest
  cases optional with
  | true => exact ⟨_, _, '?', rfl, by simp, by decide⟩
  | false =>
      cases h with
      | absent => exact ⟨t, ts, c, rfl, ht, List.mem_cons_of_mem _ (List.mem_cons_of_mem _ hc)⟩
      | type b h => exact ⟨_, _, ':', rfl, by simp [typeMark], by decide⟩

theorem run_atParameterModifier {c : Char} (hu : u.isMark c = true) (hc : c ∉ ['\x7b', '['])
    (words : List String) (t : Token) (us : List Token) :
    (atParameterModifier words).run (t :: u :: us) = some (false, t :: u :: us) := by
  have hne : c ≠ '\x7b' /\ c ≠ '[' := by simpa using hc
  have hnone : (u.kind == .word || u.isMark '\x7b' || u.isMark '[') = false := by
    rw [Token.kind_of_isMark hu, Token.isMark_of_isMark hu hne.left,
      Token.isMark_of_isMark hu hne.right]
    rfl
  refine (run_bind_some run_peek).trans ?_
  cases words.any t.isWord with
  | false => rfl
  | true => exact congrArg (fun b => some (b, t :: u :: us)) hnone

theorem run_spread?_word {s : List Char} (h : isWordText s = true) (gap : Gap) (row : Nat)
    (rest : List Token) :
    spread?.run ((Lexeme.word gap s).token row :: rest) =
      some (false, (Lexeme.word gap s).token row :: rest) := by
  have hdots := @text_beq_dots (.word gap s) (by simpa [Lexeme.isSpelled] using h) row
  refine (run_bind_some run_peek).trans ?_
  rw [hdots]
  rfl

/-- The name of a parameter is read up to what stands behind it. -/
theorem run_parameter_of {name : List Char} (hname : isIdentifier name = true) (gap : Gap)
    (row : Nat) {c : Char} (hu : u.isMark c = true) (hc : c ∈ ['?', ':', ',', ')']) {us : List Token} :
    (parameter g).run ((Lexeme.word gap name).token row :: u :: us) =
      (do
        let _ ← mark? '?'
        if ← atMark ':' then
          let _ ← declaredType g .enclosed
        if ← atMark '=' then
          initializer g : Parser Unit).run (u :: us) := by
  have hmarks : forall d, d ∈ ['?', ':', ',', ')'] -> d ∉ ['\x7b', '['] := forall_mem_of_all (by decide)
  have hdecorators : (many (decorator g)).run ((Lexeme.word gap name).token row :: u :: us) =
      some ([], (Lexeme.word gap name).token row :: u :: us) :=
    run_many_nil (run_bind_none (run_mark_none (by simp)))
  have hmodifier := fun words => run_atParameterModifier hu (hmarks c hc) words
    ((Lexeme.word gap name).token row) us
  have hspread := run_spread?_word (isWordText_of_isIdentifier hname) gap row (u :: us)
  have hthis := @isWord_identifier row name hname gap "this" (by decide)
  have hpattern : (pattern g identifier).run ((Lexeme.word gap name).token row :: u :: us) =
      some ((), u :: us) := by
    simp [pattern, patternFrom, run_mark?, run_identifier hname]
  simp only [parameter, StateT.run_bind, hdecorators, hmodifier, hspread, run_atWord, hthis, hpattern,
    Option.bind_eq_bind, Option.bind_some, Bool.false_eq_true, if_false]

theorem run_parameter_none (ht : t.isMark ')' = true) (ts : List Token) :
    (parameter g).run (t :: ts) = none := by
  have hword : forall w, t.isWord w = false := by
    refine Token.isWord_of_kind ?_
    rw [Token.kind_of_isMark ht]
    decide
  have hdecorators : (many (decorator g)).run (t :: ts) = some ([], t :: ts) :=
    run_many_nil (run_bind_none (run_mark_none (Token.isMark_of_isMark ht (by decide))))
  have hmodifier : forall words, (atParameterModifier words).run (t :: ts) =
      some (false, t :: ts) := by
    intro words
    have hany : words.any t.isWord = false := by simp [hword]
    refine (run_bind_some run_peek).trans ?_
    rw [hany]
    rfl
  have hspread : spread?.run (t :: ts) = some (false, t :: ts) := by
    refine (run_bind_some run_peek).trans ?_
    rw [Token.text_of_isMark ht]
    rfl
  have hpattern : (pattern g identifier).run (t :: ts) = none := by
    have hname : identifier.run (t :: ts) = none := by
      refine run_wordOutside_none ?_
      rw [Token.kind_of_isMark ht]
      decide
    simp [pattern, patternFrom, run_mark?, Token.isMark_of_isMark ht, hname]
  simp only [parameter, StateT.run_bind, hdecorators, hmodifier, hspread, run_atWord, hword, hpattern,
    Option.bind_eq_bind, Option.bind_some, Option.bind_none, Bool.false_eq_true, if_false]

theorem rest_of_advance {v : Token} (h : advance.run (t :: ts) = some (v, rest)) : rest = ts := by
  simp only [advance, StateT.run_bind, StateT.run_get, Option.pure_def, Option.bind_eq_bind,
    Option.bind_some] at h
  split at h
  · cases h
  · cases h
    rfl

theorem rest_of_wordOutside {excluded : List String} {v : Token}
    (h : (wordOutside excluded).run (t :: ts) = some (v, rest)) : rest = ts := by
  rw [wordOutside, run_bind_some run_peek] at h
  cases hfits : t.kind == .word && !excluded.any t.isWord with
  | false =>
      rw [hfits, run_bind_none run_require_false] at h
      cases h
  | true =>
      rw [hfits, run_bind_some run_require_true] at h
      exact rest_of_advance h

/-- No name is told to be of a type where the word `is` does not stand behind it. -/
theorem run_predicate_none {context : Context} (h : u.isWord "is" = false) (t : Token)
    (us : List Token) :
    (do
      let _ ← (do if ← atWord "this" then advance else identifier : Parser Token)
      require (!(← endsHere context))
      let _ ← word "is"
      let _ ← g.type context : Parser Unit).run (t :: u :: us) = none := by
  cases hsubject : (do if ← atWord "this" then advance else identifier : Parser Token).run
      (t :: u :: us) with
  | none => exact run_bind_none hsubject
  | some read =>
      obtain ⟨v, rest⟩ := read
      have hrest : rest = u :: us := by
        rw [run_bind_some (run_atWord "this")] at hsubject
        split at hsubject
        · exact rest_of_advance hsubject
        · exact rest_of_wordOutside hsubject
      refine (run_bind_some hsubject).trans ?_
      rw [hrest]
      refine (run_bind_some (run_endsHere context)).trans ?_
      cases context.endsBefore (u :: us) with
      | true => exact run_bind_none run_require_false
      | false => exact (run_bind_some run_require_true).trans (run_bind_none (run_word_none h))

section

variable (hg : ReadsLegible g n) (hsize : ls.length ≤ n)

include hg hsize

theorem run_markedType {v : TypeTree} (h : v.Legible ls) (context : Context) (b : List Char)
    (row : Nat) (hrest : Closes typeClosers rest) :
    exists w, (declaredType g context).run (Lexeme.place row (typeMark b :: ls) ++ rest) =
      some (w, rest) := by
  have hread := readsAs_of_legible hg h hsize context
  obtain ⟨l, more, b', rfl, hgap, -⟩ := eq_cons_of_legible h
  have hcomments : forall row, (l.token row).comments = [] := by
    intro row
    refine Lexeme.comments_token ?_
    rw [hgap, Lexeme.comments_ofBlank]
  have hmark : forall ts, (mark ':').run ((typeMark b).token row :: ts) =
      some ((typeMark b).token row, ts) := fun ts => run_mark (by simp [typeMark])
  have hwithText : (withText (do
      let _ ← mark ':'
      let before ← commentTypes
      return before ++ (← g.type context).parts)).run
        (Lexeme.place row (typeMark b :: l :: more) ++ rest) =
      some ((v.parts, Token.written (Lexeme.place row (typeMark b :: l :: more))), rest) := by
    refine run_withText ?_
    have hbehind := hread (row + Lexeme.rows [typeMark b]) rest hrest
    rw [Lexeme.place_cons, List.cons_append]
    rw [Lexeme.place_cons, List.cons_append] at hbehind ⊢
    simp [hmark, run_commentTypes, hcomments, hbehind]
  exact ⟨_, run_bind_some hwithText⟩

/-- What stands behind the name of a parameter is read up to the end of the parameter. -/
theorem run_parameterRest (h : Header.IsClause typeMark ls) (optional : Bool) (row : Nat)
    (hrest : Ends [',', ')'] rest) :
    (do
      let _ ← mark? '?'
      if ← atMark ':' then
        let _ ← declaredType g .enclosed
      if ← atMark '=' then
        initializer g : Parser Unit).run (Lexeme.place row (question optional ++ ls) ++ rest) =
      some ((), rest) := by
  have hcloses : Closes typeClosers rest := Closes.mono (hrest.closes (by decide)) (by decide)
  obtain ⟨t, ts, c, rfl, hc, ht⟩ := hrest
  have hmarks : forall d, d ∈ [',', ')'] -> d ≠ '?' /\ d ≠ ':' /\ d ≠ '=' :=
    forall_mem_of_all (by decide)
  have hquestion : t.isMark '?' = false := Token.isMark_of_isMark ht (hmarks c hc).left
  have hcolon : t.isMark ':' = false := Token.isMark_of_isMark ht (hmarks c hc).right.left
  have hequals : t.isMark '=' = false := Token.isMark_of_isMark ht (hmarks c hc).right.right
  cases h with
  | absent => cases optional <;> simp [question, run_mark?, run_atMark, hquestion, hcolon, hequals]
  | @type b v ks h =>
      have hdeclared : forall row, exists w, (declaredType g .enclosed).run
          ((typeMark b).token row :: (Lexeme.place (row + Lexeme.rows [typeMark b]) ks ++ t :: ts)) =
            some (w, t :: ts) :=
        fun row => run_markedType hg (Nat.le_of_succ_le hsize) h .enclosed b row hcloses
      have hbehind : forall row, (do
          if ← atMark ':' then
            let _ ← declaredType g .enclosed
          if ← atMark '=' then
            initializer g : Parser Unit).run (Lexeme.place row (typeMark b :: ks) ++ t :: ts) =
          some ((), t :: ts) := by
        intro row
        obtain ⟨w, hw⟩ := hdeclared row
        have hat : ((typeMark b).token row).isMark ':' = true := by simp [typeMark]
        rw [Lexeme.place_cons, List.cons_append]
        simp [run_atMark, hat, hw, hequals]
      cases optional with
      | false =>
          have hmark : (mark? '?').run (Lexeme.place row (typeMark b :: ks) ++ t :: ts) =
              some (false, Lexeme.place row (typeMark b :: ks) ++ t :: ts) := by
            rw [Lexeme.place_cons, List.cons_append, run_mark?]
            simp [typeMark]
          exact (run_bind_some hmark).trans (hbehind row)
      | true =>
          have hmark : (mark? '?').run (Lexeme.place row (.mark [] '?' :: typeMark b :: ks) ++ t :: ts) =
              some (true, Lexeme.place (row + Lexeme.rows [.mark [] '?']) (typeMark b :: ks) ++
                t :: ts) := by
            rw [Lexeme.place_cons, List.cons_append, run_mark?]
            simp
          exact (run_bind_some hmark).trans (hbehind _)

theorem readsItem_signatureParameter (h : Signature.IsParameter ls) :
    ReadsItem (parameter g) [')'] ls := by
  intro row rest hrest
  cases h with
  | @named b name declared optional hname hdeclared =>
      rw [List.length_cons, List.length_append] at hsize
      have hbehind := run_parameterRest hg (show declared.length ≤ n by omega) hdeclared optional
        (row + Lexeme.rows [.word (.ofBlank b) name]) hrest
      obtain ⟨u, us, c, hus, hu, hc⟩ := place_typeMark_eq_cons hdeclared optional
        (row + Lexeme.rows [.word (.ofBlank b) name]) hrest
      rw [Lexeme.place_cons, List.cons_append, hus]
      rw [hus] at hbehind
      exact (run_parameter_of hname (.ofBlank b) row hu hc).trans hbehind

theorem run_signatureParameters (h : Signature.AreParameters ls) (row : Nat) (rest : List Token) :
    (formalParameters g).run (Lexeme.place row ls ++ rest) = some ((), rest) := by
  have hopen : forall us, (mark '(').run ((Lexeme.mark [] '(').token row :: us) =
      some ((Lexeme.mark [] '(').token row, us) := fun us => run_mark (by simp)
  cases h with
  | none b =>
      have hclose : ((Lexeme.mark b ')').token (row + Lexeme.rows [.mark [] '('])).isMark ')' = true := by
        simp
      have hnone := run_optional?_none (@run_parameter_none g _ hclose rest)
      refine (run_bind_some (hopen _)).trans ((run_bind_some hnone).trans ?_)
      exact run_bind_some (run_mark hclose)
  | @some b ks h =>
      simp only [List.length_append, List.length_cons] at hsize
      obtain ⟨last, hlast⟩ : exists last, last = row + Lexeme.rows [.mark [] '('] + Lexeme.rows ks :=
        ⟨_, rfl⟩
      have hclose : ((Lexeme.mark b ')').token last).isMark ')' = true := by simp
      have hends : Ends [',', ')'] ((Lexeme.mark b ')').token last :: rest) :=
        ends_mark b (by decide) last rest
      obtain ⟨mid, us, hfirst, hmany⟩ := run_listItems hends (run_further_none (by simp) _ _) h
        (fun js hjs hle => readsItem_signatureParameter hg (show js.length ≤ n by omega) hjs)
        (row + Lexeme.rows [.mark [] '('])
      have hcomma : (mark? ',').run ((Lexeme.mark b ')').token last :: rest) =
          some (false, (Lexeme.mark b ')').token last :: rest) := by
        rw [run_mark?, Token.isMark_of_isMark hclose (by decide)]
        rfl
      rw [Lexeme.place_cons, List.cons_append, Lexeme.place_append, List.append_assoc, ← hlast]
      refine (run_bind_some (hopen _)).trans ((run_bind_some (run_optional?_some hfirst)).trans ?_)
      rw [Option.isSome_some, if_pos rfl]
      refine (run_bind_some hmany).trans ((run_bind_some hcomma).trans ?_)
      exact run_bind_some (run_mark hclose)

theorem run_returnType {v : TypeTree} (h : v.Legible ls) (hplain : Signature.IsPlain ls) (row : Nat)
    (hrest : Ends [';'] rest) :
    (returnType g .typeEnding).run (Lexeme.place row ls ++ rest) = some ((), rest) := by
  have hcloses : Closes typeClosers rest := Closes.mono (hrest.closes (by decide)) (by decide)
  have hread := readsAs_of_legible hg h hsize .typeEnding row rest hcloses
  obtain ⟨l, more, b, rfl, -, -⟩ := eq_cons_of_legible h
  have hasserts : (l.token row).isWord "asserts" = false :=
    Lexeme.isWord_of_text (hplain l List.mem_cons_self).left
  obtain ⟨u, us, hus, hu⟩ : exists u us,
      Lexeme.place (row + Lexeme.rows [l]) more ++ rest = u :: us /\ u.isWord "is" = false := by
    cases more with
    | nil =>
        obtain ⟨t, ts, c, rfl, -, ht⟩ := hrest
        refine ⟨t, ts, rfl, Token.isWord_of_kind ?_ "is"⟩
        rw [Token.kind_of_isMark ht]
        decide
    | cons m more =>
        exact ⟨_, _, rfl, Lexeme.isWord_of_text (hplain m (List.mem_cons_of_mem l List.mem_cons_self)).right⟩
  rw [Lexeme.place_cons, List.cons_append, hus] at hread ⊢
  refine (run_orElse_none (run_bind_none (run_word_none hasserts))).trans ?_
  refine (run_orElse_none (run_predicate_none hu _ _)).trans ?_
  exact run_bind_some hread

theorem run_result (h : Header.IsClause typeMark ls) (hplain : Signature.IsPlain ls) (row : Nat)
    (hrest : Ends [';'] rest) :
    (do
      if ← atMark ':' then
        let _ ← mark ':'
        returnType g .typeEnding : Parser Unit).run (Lexeme.place row ls ++ rest) =
      some ((), rest) := by
  cases h with
  | absent =>
      obtain ⟨t, ts, c, rfl, hc, ht⟩ := hrest
      have hcolon : t.isMark ':' = false := by
        refine Token.isMark_of_isMark ht ?_
        rintro rfl
        revert hc
        decide
      refine (run_bind_some (run_atMark ':')).trans ?_
      rw [hcolon]
      rfl
  | @type b v ks h =>
      have hcolon : ((typeMark b).token row).isMark ':' = true := by simp [typeMark]
      have hread := run_returnType hg (Nat.le_of_succ_le hsize) h
        (fun l hl => hplain l (List.mem_cons_of_mem _ hl)) (row + Lexeme.rows [typeMark b]) hrest
      refine (run_bind_some (run_atMark ':')).trans ?_
      rw [hcolon, if_pos rfl]
      exact (run_bind_some (run_mark hcolon)).trans hread

theorem run_callSignature (h : Signature.IsCall ls) (row : Nat) (hrest : Ends [';'] rest) :
    (callSignature g .typeEnding).run (Lexeme.place row ls ++ rest) = some ((), rest) := by
  cases h with
  | @signature generics parameters result hgenerics hparameters hresult hplain =>
      simp only [List.length_append] at hsize
      have hbehind : forall row, (do
          formalParameters g
          if ← atMark ':' then
            let _ ← mark ':'
            returnType g .typeEnding : Parser Unit).run
              (Lexeme.place row (parameters ++ result) ++ rest) = some ((), rest) := by
        intro row
        have hread := run_signatureParameters hg (show parameters.length ≤ n by omega) hparameters row
          (Lexeme.place (row + Lexeme.rows parameters) result ++ rest)
        rw [Lexeme.place_append, List.append_assoc]
        exact (run_bind_some hread).trans
          (run_result hg (show result.length ≤ n by omega) hresult hplain _ hrest)
      rcases hgenerics with rfl | hgenerics
      · have hangle : (atMark '<').run (Lexeme.place row (parameters ++ result) ++ rest) =
            some (false, Lexeme.place row (parameters ++ result) ++ rest) := by
          cases hparameters <;> simp [run_atMark]
        exact (run_bind_some hangle).trans (hbehind row)
      · have hread := run_typeParameters hg hgenerics (show generics.length ≤ n by omega) row
          (Lexeme.place (row + Lexeme.rows generics) (parameters ++ result) ++ rest)
        have hangle : forall ts, (atMark '<').run (Lexeme.place row generics ++ ts) =
            some (true, Lexeme.place row generics ++ ts) := by
          intro ts
          cases hgenerics
          simp [run_atMark]
        rw [Lexeme.place_append, List.append_assoc]
        refine (run_bind_some (hangle _)).trans ?_
        exact (run_bind_some hread).trans (hbehind _)

end

end Parser
end TypeScript
end SchemaTypes
