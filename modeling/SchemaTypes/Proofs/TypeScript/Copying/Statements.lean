import SchemaTypes.Proofs.TypeScript.Copying.Expressions

/-!
# Programs copy

The rules of statements copy, so the grammar does at every depth, and whatever holds of
the characters of a source holds of the texts in its program.
-/

set_option synthInstance.maxSize 1000000

namespace SchemaTypes
namespace TypeScript

variable {p : Char -> Prop} {q : Comment -> Prop}

namespace Parser
namespace Copies

variable {g : Grammar}

instance textStatement {m : Parser Unit} [Copies p q m] : Copies p q (textStatement m) := by
  unfold Parser.textStatement
  infer_instance

instance opensDeclaration (w : String) (fits : Token -> Bool) :
    Copies p q (opensDeclaration w fits) := by
  unfold Parser.opensDeclaration
  refine bind_of fun ts hts => ?_
  split <;> infer_instance

instance definiteMark : Copies p q definiteMark := by
  unfold Parser.definiteMark
  infer_instance

instance importAlias : Copies p q importAlias := by
  unfold Parser.importAlias
  infer_instance

instance moduleName : Copies p q moduleName := by
  unfold Parser.moduleName
  infer_instance

instance moduleNames : Copies p q moduleNames := by
  dsimp only [Parser.moduleNames]
  infer_instance

instance labelJump : Copies p q labelJump := by
  dsimp only [Parser.labelJump]
  infer_instance

/-!
## Declarations
-/

variable [hg : g.Copies p q]

instance interfaceDeclaration : Copies p q (interfaceDeclaration g) := by
  dsimp only [Parser.interfaceDeclaration]
  infer_instance

instance aliasDeclaration : Copies p q (aliasDeclaration g) := by
  unfold Parser.aliasDeclaration
  infer_instance

instance declaratorType (definite : Bool) : Copies p q (declaratorType g definite) := by
  unfold Parser.declaratorType
  infer_instance

instance declaratorValue (definite : Bool) : Copies p q (declaratorValue g definite) := by
  unfold Parser.declaratorValue
  infer_instance

instance declarator : Copies p q (declarator g) := by
  unfold Parser.declarator
  infer_instance

instance declarators : Copies p q (declarators g) := by
  unfold Parser.declarators
  infer_instance

instance lexicalDeclaration : Copies p q (lexicalDeclaration g) := by
  unfold Parser.lexicalDeclaration
  infer_instance

instance functionDeclaration : Copies p q (functionDeclaration g) := by
  unfold Parser.functionDeclaration
  infer_instance

instance classDeclaration : Copies p q (classDeclaration g) := by
  unfold Parser.classDeclaration
  infer_instance

instance enumDeclaration : Copies p q (enumDeclaration g) := by
  dsimp only [Parser.enumDeclaration]
  infer_instance

instance moduleDeclaration : Copies p q (moduleDeclaration g) := by
  dsimp only [Parser.moduleDeclaration]
  infer_instance

instance declaration (behindWord : Bool) (fuel : Nat) : Copies p q (declaration g behindWord fuel) := by
  induction fuel generalizing behindWord with
  | zero =>
      unfold Parser.declaration
      infer_instance
  | succ fuel ih =>
      dsimp only [Parser.declaration]
      infer_instance

/-!
## Modules
-/

instance moduleSource : Copies p q (moduleSource g) := by
  unfold Parser.moduleSource
  infer_instance

instance fromClause : Copies p q (fromClause g) := by
  unfold Parser.fromClause
  infer_instance

instance importStatement : Copies p q (importStatement g) := by
  dsimp only [Parser.importStatement]
  infer_instance

instance exported (decorated : Bool) : Copies p q (exported g decorated) := by
  dsimp only [Parser.exported]
  infer_instance

-- how a declaration is exported is no text of it
instance exportStatement : Copies p q (exportStatement g) := by
  unfold Parser.exportStatement
  refine bind_of fun start _ => bind_of fun decorators _ => bind_of fun _ _ => ?_
  refine bind_of fun ⟨e, declared⟩ hread => ?_
  have hdeclared := hread.snd
  dsimp only at hdeclared ⊢
  split
  · rename_i exported name parameters parents exact members heq
    cases heq
    have h : Holds p q (Statement.interface (some e) name parameters parents exact members) :=
      ⟨hdeclared.chars, hdeclared.comments⟩
    infer_instance
  · rename_i exported name parameters value heq
    cases heq
    have h : Holds p q (Statement.typeAlias (some e) name parameters value) :=
      ⟨hdeclared.chars, hdeclared.comments⟩
    infer_instance
  · rename_i exported keyword declarators heq
    cases heq
    have h : Holds p q (Statement.lexical (some e) keyword declarators) :=
      ⟨hdeclared.chars, hdeclared.comments⟩
    infer_instance
  · infer_instance

/-!
## Control flow
-/

instance condition : Copies p q (condition g) := by
  unfold Parser.condition
  infer_instance

instance nested : Copies p q (nested g) := by
  unfold Parser.nested
  infer_instance

instance ifStatement : Copies p q (ifStatement g) := by
  unfold Parser.ifStatement
  infer_instance

instance forHeader : Copies p q (forHeader g) := by
  dsimp only [Parser.forHeader]
  infer_instance

instance forStatement : Copies p q (forStatement g) := by
  unfold Parser.forStatement
  infer_instance

instance doStatement : Copies p q (doStatement g) := by
  unfold Parser.doStatement
  infer_instance

instance switchStatement : Copies p q (switchStatement g) := by
  dsimp only [Parser.switchStatement]
  infer_instance

instance tryStatement : Copies p q (tryStatement g) := by
  dsimp only [Parser.tryStatement]
  infer_instance

instance jumpStatement : Copies p q (jumpStatement g) := by
  unfold Parser.jumpStatement
  infer_instance

instance expressionStatement : Copies p q (expressionStatement g) := by
  unfold Parser.expressionStatement
  infer_instance

/-!
## Any statement
-/

instance otherStatement : Copies p q (otherStatement g) := by
  dsimp only [Parser.otherStatement]
  infer_instance

instance statement : Copies p q (statement g) := by
  unfold Parser.statement
  infer_instance

end Copies
end Parser

/-!
## Programs
-/

instance Grammar.Copies.upTo (depth : Nat) : (Grammar.upTo depth).Copies p q := by
  induction depth with
  | zero => exact ⟨fun _ => Parser.Copies.failure, fun _ => Parser.Copies.failure, Parser.Copies.failure⟩
  | succ depth ih =>
      exact ⟨fun context => Parser.Copies.type context, fun context => Parser.Copies.expression context,
        Parser.Copies.statement⟩

namespace Program

variable {g : Grammar} [g.Copies p q] {α : Type} [HasTexts α]

instance copies_items {m : Parser α} [Parser.Copies p q m] : Parser.Copies p q (items m) := by
  dsimp only [items]
  infer_instance

instance copies_program : Parser.Copies p q (parser g) := by
  unfold parser
  infer_instance

/-- The tokens of a source hold its characters, and comments that are opened by a slash. -/
theorem holds_of_tokens {source : List Char} {ts : List Token} (h : tokens? source = some ts)
    (hsource : forall c, c ∈ source -> p c) :
    Holds p (fun c => exists more, c.text = '/' :: more) ts := by
  constructor
  · intro c hc
    exact hsource c (source_of_tokens h ▸ hc)
  · intro c hc
    obtain ⟨t, ht, hc⟩ := List.mem_flatMap.mp hc
    exact comment_of_tokens h ht hc

/-- What holds of the characters of a source holds of the texts in its program, and every
comment of the program is opened by a slash. -/
theorem holds_of_parse {source : List Char} {program : Program} (h : parse? source = some program)
    (hsource : forall c, c ∈ source -> p c) :
    Holds p (fun c => exists more, c.text = '/' :: more) program := by
  obtain ⟨ts, hts, h⟩ := Option.bind_eq_some_iff.mp h
  obtain ⟨⟨program', rest⟩, hrun, h⟩ := Option.bind_eq_some_iff.mp h
  cases h
  exact (copies_program.run (holds_of_tokens hts hsource) hrun).left

end Program

end TypeScript
end SchemaTypes
