import SchemaTypes.Proofs.TypeScript.Copying.Types

/-!
# The rules of expressions copy

Functions and classes, and expressions.
-/

set_option synthInstance.maxSize 1000000

namespace SchemaTypes
namespace TypeScript
namespace Parser
namespace Copies

variable {p : Char -> Prop} {q : Comment -> Prop} {α : Type} [HasTexts α] {g : Grammar}

instance atMethodModifier (ws : List String) : Copies p q (atMethodModifier ws) := by
  unfold Parser.atMethodModifier
  refine bind_of fun ts hts => ?_
  split <;> infer_instance

instance methodModifiers (ws : List String) : Copies p q (methodModifiers ws) := by
  unfold Parser.methodModifiers
  infer_instance

instance className : Copies p q className := wordOutside _

instance commentExpressions : Copies p q commentExpressions := by
  unfold Parser.commentExpressions
  infer_instance

instance orText {start : List Token} {e : Option Expression} [Holds p q start] [he : Holds p q e] :
    Copies p q (orText start e) := by
  unfold Parser.orText
  split
  · have := he.of_some
    infer_instance
  · infer_instance

instance commaAndComment : Copies p q commaAndComment := by
  dsimp only [Parser.commaAndComment]
  infer_instance

instance slot {entry : Parser α} [Copies p q entry] : Copies p q (slot entry) := by
  dsimp only [Parser.slot]
  infer_instance

instance furtherSlot {entry : Parser α} [Copies p q entry] : Copies p q (furtherSlot entry) := by
  unfold Parser.furtherSlot
  infer_instance

instance listBetween {open? close : Char} {hole : α} {entry : Parser α} [Holds p q hole]
    [Copies p q entry] : Copies p q (listBetween open? close hole entry) := by
  dsimp only [Parser.listBetween]
  infer_instance

instance operatorAmong (ops : List String) : Copies p q (operatorAmong ops) := by
  unfold Parser.operatorAmong
  refine bind_of fun ts hts => ?_
  split <;> infer_instance

instance atWordOperator (context : Context) (w : String) : Copies p q (atWordOperator context w) := by
  unfold Parser.atWordOperator
  infer_instance

instance binaryOperator (context : Context) : Copies p q (binaryOperator context) := by
  unfold Parser.binaryOperator
  infer_instance

/-!
## Functions and classes
-/

variable [hg : g.Copies p q]

instance block (operators : Bool) : Copies p q (block g operators) := by
  unfold Parser.block
  infer_instance

instance functionExpression : Copies p q (functionExpression g) := by
  dsimp only [Parser.functionExpression]
  infer_instance

instance arrowBody (context : Context) : Copies p q (arrowBody g context) := by
  unfold Parser.arrowBody
  infer_instance

instance parenthesizedArrow (context : Context) : Copies p q (parenthesizedArrow g context) := by
  unfold Parser.parenthesizedArrow
  infer_instance

instance arrowFunction (context : Context) : Copies p q (arrowFunction g context) := by
  dsimp only [Parser.arrowFunction]
  infer_instance

instance methodDefinition : Copies p q (methodDefinition g) := by
  unfold Parser.methodDefinition
  infer_instance

instance fieldRest : Copies p q (fieldRest g) := by
  dsimp only [Parser.fieldRest]
  infer_instance

instance classMember : Copies p q (classMember g) := by
  dsimp only [Parser.classMember]
  infer_instance

instance classBody : Copies p q (classBody g) := by
  unfold Parser.classBody
  infer_instance

instance parentClass : Copies p q (parentClass g) := by
  dsimp only [Parser.parentClass]
  infer_instance

instance classRest : Copies p q (classRest g) := by
  dsimp only [Parser.classRest]
  infer_instance

instance classExpression : Copies p q (classExpression g) := by
  unfold Parser.classExpression
  infer_instance

/-!
## Operands
-/

instance spreadExpression : Copies p q (spreadExpression g) := by
  unfold Parser.spreadExpression
  infer_instance

instance pairEntry : Copies p q (pairEntry g) := by
  unfold Parser.pairEntry
  infer_instance

instance objectEntry : Copies p q (objectEntry g) := by
  dsimp only [Parser.objectEntry]
  infer_instance

instance objectLiteral : Copies p q (objectLiteral g) := by
  unfold Parser.objectLiteral
  infer_instance

instance arrayElement : Copies p q (arrayElement g) := by
  unfold Parser.arrayElement
  infer_instance

instance arrayLiteral : Copies p q (arrayLiteral g) := by
  unfold Parser.arrayLiteral
  infer_instance

instance sequence (context : Context) : Copies p q (sequence g context) := by
  unfold Parser.sequence
  infer_instance

instance parenthesizedExpression : Copies p q (parenthesizedExpression g) := by
  dsimp only [Parser.parenthesizedExpression]
  infer_instance

instance templateLiteral : Copies p q (templateLiteral g) := by
  dsimp only [Parser.templateLiteral]
  infer_instance

instance primaryExpression : Copies p q (primaryExpression g) := by
  dsimp only [Parser.primaryExpression]
  refine bind_of fun t ht => ?_
  split <;> infer_instance

instance step (context : Context) : Copies p q (step g context) := by
  dsimp only [Parser.step]
  infer_instance

instance prefixOperator : Copies p q (prefixOperator g) := by
  unfold Parser.prefixOperator
  infer_instance

instance ascribedType (context : Context) : Copies p q (ascribedType g context) := by
  unfold Parser.ascribedType
  infer_instance

instance closedOperand (context : Context) : Copies p q (closedOperand g context) := by
  dsimp only [Parser.closedOperand]
  infer_instance

instance yieldExpression (context : Context) : Copies p q (yieldExpression g context) := by
  unfold Parser.yieldExpression
  infer_instance

instance usingAssignment (context : Context) : Copies p q (usingAssignment g context) := by
  unfold Parser.usingAssignment
  infer_instance

instance openOperand (context : Context) : Copies p q (openOperand g context) := by
  unfold Parser.openOperand
  infer_instance

instance prefixedOperand (context : Context) : Copies p q (prefixedOperand g context) := by
  dsimp only [Parser.prefixedOperand]
  infer_instance

instance operandExpression (context : Context) : Copies p q (operandExpression g context) := by
  dsimp only [Parser.operandExpression]
  infer_instance

/-!
## Operators
-/

instance assigned (context : Context) : Copies p q (assigned g context) := by
  unfold Parser.assigned
  infer_instance

instance operatorsFrom {context : Context} {start : List Token} [Holds p q start] (fuel : Nat)
    (target : Bool) (left : Option Expression) [Holds p q left] :
    Copies p q (operatorsFrom g context start fuel target left) := by
  induction fuel generalizing target left with
  | zero =>
      unfold Parser.operatorsFrom
      infer_instance
  | succ fuel ih =>
      unfold Parser.operatorsFrom
      infer_instance

instance operation {context : Context} {operand : Parser (Bool × Option Expression)}
    [Copies p q operand] : Copies p q (operation g context operand) := by
  unfold Parser.operation
  infer_instance

instance expression (context : Context) : Copies p q (expression g context) := by
  dsimp only [Parser.expression]
  infer_instance

end Copies
end Parser
end TypeScript
end SchemaTypes
