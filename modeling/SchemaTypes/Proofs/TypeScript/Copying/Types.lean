import SchemaTypes.Proofs.TypeScript.Copying.Trees

/-!
# The rules of types copy

Parameters and arguments, the members of object types, and types.
-/

-- each bind of a rule is a nested hypothesis of its instance, so that terms grow with the rule
set_option synthInstance.maxSize 1000000

namespace SchemaTypes
namespace TypeScript
namespace Parser
namespace Copies

variable {p : Char -> Prop} {q : Comment -> Prop} {g : Grammar}

instance commentTypes : Copies p q commentTypes := by
  unfold Parser.commentTypes
  infer_instance

instance atIndexSignature : Copies p q atIndexSignature := by
  unfold Parser.atIndexSignature
  refine bind_of fun ts hts => ?_
  split <;> infer_instance

instance atModifier (w : String) : Copies p q (atModifier w) := by
  unfold Parser.atModifier
  refine bind_of fun ts hts => ?_
  split <;> infer_instance

instance commentPieces : Copies p q commentPieces := by
  unfold Parser.commentPieces
  infer_instance

instance anyAtModifier (ws : List String) : Copies p q (ws.anyM Parser.atModifier) := by
  induction ws with
  | nil =>
      unfold List.anyM
      infer_instance
  | cons w ws ih =>
      unfold List.anyM
      refine bind_of fun b _ => ?_
      split <;> infer_instance

instance modifierPieces (ws : List String) : Copies p q (modifierPieces ws) := by
  dsimp only [Parser.modifierPieces]
  infer_instance

instance modifiers (wss : List (List String)) : Copies p q (modifiers wss) := by
  induction wss with
  | nil =>
      unfold Parser.modifiers
      infer_instance
  | cons ws wss ih =>
      unfold Parser.modifiers
      infer_instance

instance optionalPieces : Copies p q optionalPieces := by
  dsimp only [Parser.optionalPieces]
  infer_instance

instance commentItems : Copies p q commentItems := by
  unfold Parser.commentItems
  infer_instance

instance closeMembers (exact : Bool) : Copies p q (closeMembers exact) := by
  unfold Parser.closeMembers
  infer_instance

instance memberEnd : Copies p q memberEnd := by
  dsimp only [Parser.memberEnd]
  infer_instance

instance pathRest : Copies p q pathRest := by
  unfold Parser.pathRest
  infer_instance

instance nameBehindDot : Copies p q nameBehindDot := by
  unfold Parser.nameBehindDot
  infer_instance

instance queryIndex : Copies p q queryIndex := by
  dsimp only [Parser.queryIndex]
  infer_instance

instance atFunctionParameters : Copies p q atFunctionParameters := by
  unfold Parser.atFunctionParameters
  infer_instance

instance atTypeOperator (context : Context) (c : Char) : Copies p q (atTypeOperator context c) := by
  unfold Parser.atTypeOperator
  infer_instance

instance textType {m : Parser Unit} [Copies p q m] : Copies p q (textType m) := by
  unfold Parser.textType
  infer_instance

instance atParameterModifier (words : List String) : Copies p q (atParameterModifier words) := by
  unfold Parser.atParameterModifier
  infer_instance

/-!
## Rules over a grammar
-/

variable [hg : g.Copies p q]

instance grammarType (context : Context) : Copies p q (g.type context) := hg.type context

instance grammarExpression (context : Context) : Copies p q (g.expression context) :=
  hg.expression context

instance grammarStatement : Copies p q g.statement := hg.statement

instance propertyName : Copies p q (propertyName g) := by
  unfold Parser.propertyName
  infer_instance

instance typeParameter : Copies p q (typeParameter g) := by
  dsimp only [Parser.typeParameter]
  infer_instance

instance typeParameters : Copies p q (typeParameters g) := by
  unfold Parser.typeParameters
  infer_instance

instance typeArgument : Copies p q (typeArgument g) := by
  unfold Parser.typeArgument
  infer_instance

instance furtherTypeArgument : Copies p q (furtherTypeArgument g) := by
  unfold Parser.furtherTypeArgument
  infer_instance

instance typeArguments : Copies p q (typeArguments g) := by
  dsimp only [Parser.typeArguments]
  infer_instance

instance declaredType (context : Context) : Copies p q (declaredType g context) := by
  unfold Parser.declaredType
  infer_instance

instance callArguments : Copies p q (callArguments g) := by
  dsimp only [Parser.callArguments]
  infer_instance

instance initializer : Copies p q (initializer g) := by
  unfold Parser.initializer
  infer_instance

instance patternFrom {binding : Parser Token} [Copies p q binding] (fuel : Nat) :
    Copies p q (patternFrom g binding fuel) := by
  induction fuel with
  | zero =>
      unfold Parser.patternFrom
      infer_instance
  | succ fuel ih =>
      dsimp only [Parser.patternFrom]
      infer_instance

instance pattern {binding : Parser Token} [Copies p q binding] : Copies p q (pattern g binding) := by
  unfold Parser.pattern
  infer_instance

instance decorator : Copies p q (decorator g) := by
  dsimp only [Parser.decorator]
  infer_instance

instance parameter : Copies p q (parameter g) := by
  dsimp only [Parser.parameter]
  infer_instance

instance formalParameters : Copies p q (formalParameters g) := by
  dsimp only [Parser.formalParameters]
  infer_instance

instance returnType (context : Context) : Copies p q (returnType g context) := by
  dsimp only [Parser.returnType]
  infer_instance

instance callSignature (context : Context) : Copies p q (callSignature g context) := by
  dsimp only [Parser.callSignature]
  infer_instance

/-!
## Members
-/

instance indexSignatureRest : Copies p q (indexSignatureRest g) := by
  dsimp only [Parser.indexSignatureRest]
  infer_instance

instance indexSignature : Copies p q (indexSignature g) := by
  dsimp only [Parser.indexSignature]
  infer_instance

instance constructSignature : Copies p q (constructSignature g) := by
  dsimp only [Parser.constructSignature]
  infer_instance

instance declaredPieces : Copies p q (declaredPieces g) := by
  dsimp only [Parser.declaredPieces]
  infer_instance

instance namedPieces : Copies p q (namedPieces g) := by
  dsimp only [Parser.namedPieces]
  infer_instance

instance namedMember : Copies p q (namedMember g) := by
  unfold Parser.namedMember
  infer_instance

instance member : Copies p q (member g) := by
  dsimp only [Parser.member]
  infer_instance

instance memberItems : Copies p q (memberItems g) := by
  unfold Parser.memberItems
  infer_instance

instance furtherMember : Copies p q (furtherMember g) := by
  unfold Parser.furtherMember
  infer_instance

instance objectMembers : Copies p q (objectMembers g) := by
  dsimp only [Parser.objectMembers]
  infer_instance

/-!
## Types
-/

instance parenthesizedType : Copies p q (parenthesizedType g) := by
  unfold Parser.parenthesizedType
  refine bind_of fun ⟨parts, s⟩ hread => ?_
  have hs : Holds p q s := hread.snd
  cases parts with
  | nil => infer_instance
  | cons first more =>
      have hfirst := hread.fst.head
      infer_instance

instance functionType (context : Context) : Copies p q (functionType g context) := by
  dsimp only [Parser.functionType]
  infer_instance

instance tupleMember : Copies p q (tupleMember g) := by
  dsimp only [Parser.tupleMember]
  infer_instance

instance tupleType : Copies p q (tupleType g) := by
  unfold Parser.tupleType
  infer_instance

instance templateType : Copies p q (templateType g) := by
  dsimp only [Parser.templateType]
  infer_instance

instance importType : Copies p q (importType g) := by
  dsimp only [Parser.importType]
  infer_instance

instance queryStep (context : Context) : Copies p q (queryStep g context) := by
  dsimp only [Parser.queryStep]
  infer_instance

instance typeQuery (context : Context) : Copies p q (typeQuery g context) := by
  dsimp only [Parser.typeQuery]
  infer_instance

instance namedType : Copies p q (namedType g) := by
  unfold Parser.namedType
  infer_instance

instance primaryType (context : Context) : Copies p q (primaryType g context) := by
  unfold Parser.primaryType
  refine bind_of fun t ht => ?_
  split <;> infer_instance

instance indexedFrom {context : Context} {start : List Token} [Holds p q start] (fuel : Nat)
    (object : TypeTree) [Holds p q object] : Copies p q (indexedFrom g context start fuel object) := by
  induction fuel generalizing object with
  | zero =>
      unfold Parser.indexedFrom
      infer_instance
  | succ fuel ih =>
      dsimp only [Parser.indexedFrom]
      refine bind_of fun opens _ => bind_of fun ends _ => ?_
      split
      · refine bind_of fun before _ => bind_of fun _ _ => bind_of fun inside _ => ?_
        refine bind_of fun closes _ => ?_
        split
        · infer_instance
        · refine bind_of fun index _ => bind_of fun behind _ => bind_of fun _ _ => ?_
          refine bind_of fun now _ => ?_
          split
          · rename_i object' index' hparts
            have hall : Holds p q [object', index'] := hparts ▸ inferInstance
            have hobject := hall.head
            have hindex := hall.tail.head
            infer_instance
          · infer_instance
      · infer_instance

instance indexedType (context : Context) : Copies p q (indexedType g context) := by
  unfold Parser.indexedType
  infer_instance

/-!
## Operators

The rules of operators call one another on less fuel, so they copy together.
-/

theorem typeOperators (context : Context) (fuel : Nat) :
    Copies p q (operandType g context fuel) /\ Copies p q (prefixedBy g context fuel) /\
      Copies p q (intersectionType g context fuel) /\
        forall left, [Holds p q left] -> Copies p q (intersectionFrom g context fuel left) := by
  induction fuel with
  | zero =>
      unfold Parser.operandType Parser.prefixedBy Parser.intersectionType Parser.intersectionFrom
      exact ⟨inferInstance, inferInstance, inferInstance, inferInstance⟩
  | succ fuel ih =>
      obtain ⟨hoperand, hprefixed, hintersection, hfrom⟩ := ih
      refine ⟨?_, ?_, ?_, fun left _ => ?_⟩
      · dsimp only [Parser.operandType]
        infer_instance
      · unfold Parser.prefixedBy
        infer_instance
      · unfold Parser.intersectionType
        infer_instance
      · unfold Parser.intersectionFrom
        infer_instance

instance intersectionType (context : Context) (fuel : Nat) :
    Copies p q (intersectionType g context fuel) :=
  (typeOperators context fuel).right.right.left

instance unionFrom {context : Context} (fuel : Nat) (left : TypeTree) [Holds p q left] :
    Copies p q (unionFrom g context fuel left) := by
  induction fuel generalizing left with
  | zero =>
      unfold Parser.unionFrom
      infer_instance
  | succ fuel ih =>
      unfold Parser.unionFrom
      infer_instance

instance unionType (context : Context) : Copies p q (unionType g context) := by
  unfold Parser.unionType
  infer_instance

instance type (context : Context) : Copies p q (type g context) := by
  unfold Parser.type
  infer_instance

end Copies
end Parser
end TypeScript
end SchemaTypes
