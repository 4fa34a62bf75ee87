import ModuleLinkage.Proofs.Syntax.Anchoring.Tokens

/-!
# Reading patterns and types

If the productions of a grammar read a text, then so do those of patterns, parameters and types that
are made of them.
-/

set_option autoImplicit false
set_option synthInstance.maxSize 100000
set_option synthInstance.maxHeartbeats 200000

namespace ModuleLinkage.Syntax

open Text

/-- Whether all productions of a grammar read a text. -/
class ReadsAll (source : List Char) (g : Grammar) : Prop where
  reads : ∀ (h : Prop) (bound left : Nat) (nonterminal : Nonterminal),
    Reads source h bound left (g nonterminal)

variable {source : List Char} {h : Prop} {bound left : Nat} {g : Grammar}

instance reads_nonterminal [hall : ReadsAll source g] (nonterminal : Nonterminal) :
    Reads source h bound left (g nonterminal) :=
  hall.reads h bound left nonterminal

instance reads_withInOperator {α : Type} [Located α] {parser : Parser α}
    [Reads source h bound left parser] : Reads source h bound left (withInOperator parser) := by
  unfold withInOperator
  infer_instance

variable [ReadsAll source g]

/-! ### Patterns -/

instance reads_element : Reads source h bound left (element g) := by
  unfold element
  infer_instance

instance reads_typeAnnotation : Reads source h bound left (typeAnnotation? g) := by
  unfold typeAnnotation?
  infer_instance

instance reads_initializer : Reads source h bound left (initializer? g) := by
  unfold initializer?
  infer_instance

instance reads_propertyKey : Reads source h bound left (propertyKey g) := by
  unfold propertyKey
  refine ⟨fun s => .present ?_⟩
  split
  · next htoken => exact .nameLeaf htoken
  all_goals exact Reads.run s

instance reads_patternElement : Reads source h bound left (patternElement g) := by
  unfold patternElement
  infer_instance

instance reads_restPattern {inner : Parser Node} [hinner : ∀ h, Reads source h bound left inner] :
    Reads source h bound left (restPattern inner) := by
  unfold restPattern
  infer_instance

instance reads_arrayPatternElements : Reads source h bound left (arrayPatternElements g) := by
  unfold arrayPatternElements
  dsimp only
  infer_instance

/-- A shorthand binds the word that is its key. -/
instance reads_propertyPattern : Reads source h bound left (propertyPattern g) := by
  unfold propertyPattern
  dsimp only
  refine ⟨fun s => (reads_offset.run s).bind fun start s' hoffset => ?_⟩
  cases hoffset
  refine .stay fun isRest s' hs' => ?_
  split
  · exact Reads.run s'
  refine .presentNamed hs' fun token => .step fun key => .step fun colon => ?_
  split
  · infer_instance
  split <;> infer_instance

instance reads_pattern : Reads source h bound left (pattern g) := by
  unfold pattern
  refine .step fun start => .step fun token => ?_
  split <;> infer_instance

/-! ### Parameters -/

instance reads_decorator : Reads source h bound left (decorator g) := by
  unfold decorator
  infer_instance

instance reads_decorators : Reads source h bound left (decorators g) := by
  unfold decorators
  infer_instance

instance reads_parameter (owner : ParameterOwner) :
    Reads source h bound left (parameter g owner) := by
  unfold parameter
  dsimp only
  infer_instance

instance reads_thisParameter : Reads source h bound left (thisParameter g) := by
  unfold thisParameter
  dsimp only
  infer_instance

instance reads_parameters (owner : ParameterOwner) :
    Reads source h bound left (parameters g owner) := by
  unfold parameters
  dsimp only
  infer_instance

/-! ### Names and arguments -/

/-- Where an operator begins with it, less-than is read alone. -/
instance reads_isAtTypeOpening : Reads source h bound left isAtTypeOpening := by
  refine ⟨fun s => ReadsAt.present ?_⟩
  split
  · exact reads_pure.run s
  · next htoken =>
    refine (reads_get.run s).bind fun state s' hget => ?_
    cases hget
    have hfound : Lexes ⟨"<<".toList ++ s.lexeme.next.rest, s.lexeme.span.start⟩
        (.punctuator "<", ⟨'<' :: s.lexeme.next.rest, s.lexeme.span.start + 1⟩) :=
      ⟨['<'], Place.leads_append ['<'] _ _, rfl⟩
    have hless : Unicode.separates '<' = true := by decide
    refine (ReadsAt.retold (fun _ _ hword => Token.noConfusion hword) fun hstands => ?_).bind
      fun _ s' _ => reads_pure.run s'
    exact hstands.reread htoken hfound (.inr (.char rfl hless))
  · exact reads_pure.run s

instance reads_beginsFunctionType : Reads source h bound left (beginsFunctionType g) := by
  unfold beginsFunctionType
  refine .step fun token => ?_
  split <;> infer_instance

instance reads_angleList {item : Parser Node} [hitem : ∀ h, Reads source h bound left item] :
    Reads source h bound left (angleList item) := by
  unfold angleList
  infer_instance

instance reads_anyType : Reads source h bound left (anyType g) := by
  unfold anyType
  infer_instance

instance reads_constraintType : Reads source h bound left (constraintType g) := by
  unfold constraintType
  infer_instance

instance reads_typeArguments : Reads source h bound left (typeArguments g) := by
  unfold typeArguments
  infer_instance

instance reads_optionalTypeArguments : Reads source h bound left (typeArguments? g) := by
  unfold typeArguments?
  infer_instance

instance reads_typeParameter : Reads source h bound left (typeParameter g) := by
  unfold typeParameter
  infer_instance

instance reads_typeParameters : Reads source h bound left (typeParameters? g) := by
  unfold typeParameters?
  infer_instance

instance reads_entityName : Reads source h bound left (entityName) := by
  unfold entityName
  dsimp only
  refine .step fun start => ⟨fun s => .present ?_⟩
  split
  · exact Reads.run s
  · next htoken => exact (ReadsAt.nameLeaf htoken).bind fun first s' _ => Reads.run s'
  · exact Reads.run s

instance reads_typeReference : Reads source h bound left (typeReference g) := by
  unfold typeReference
  infer_instance

instance reads_typePredicate : Reads source h bound left (typePredicate? g) := by
  unfold typePredicate?
  refine .step fun start => .step fun name? => ?_
  split <;> infer_instance

instance reads_resultType (mark : String) : Reads source h bound left (resultType g mark) := by
  unfold resultType
  refine .step fun _ => .step fun predicate? => ?_
  split <;> infer_instance

instance reads_optionalResultType : Reads source h bound left (resultType? g) := by
  unfold resultType?
  infer_instance

instance reads_functionType : Reads source h bound left (functionType g) := by
  unfold functionType
  infer_instance

/-! ### Members of object types -/

instance reads_endTypeMember : Reads source h bound left (endTypeMember) := by
  unfold endTypeMember
  infer_instance

instance reads_indexSignature : Reads source h bound left (indexSignature g) := by
  unfold indexSignature
  infer_instance

instance reads_beginsSignature : Reads source h bound left beginsSignature := by
  unfold beginsSignature
  infer_instance

instance reads_signature (constructs : Bool) :
    Reads source h bound left (signature g constructs) := by
  unfold signature
  infer_instance

instance reads_accessorSignature (accessor : Accessor) :
    Reads source h bound left (accessorSignature g accessor) := by
  unfold accessorSignature
  infer_instance

instance reads_beginsIndexSignature : Reads source h bound left beginsIndexSignature := by
  unfold beginsIndexSignature
  infer_instance

instance reads_typeProperty (modifiers : List String) :
    Reads source h bound left (typeProperty g modifiers) := by
  unfold typeProperty
  refine .step fun accessor? => ?_
  split <;> infer_instance

instance reads_typeMember : Reads source h bound left (typeMember g) := by
  unfold typeMember
  dsimp only
  infer_instance

instance reads_typeMembers : Reads source h bound left (typeMembers g) := by
  unfold typeMembers
  infer_instance

instance reads_mappedMark {mark : Parser Bool} [hmark : ∀ h, Reads source h bound left mark] :
    Reads source h bound left (mappedMark mark) := by
  unfold mappedMark
  infer_instance

instance reads_mappedType : Reads source h bound left (mappedType g) := by
  unfold mappedType
  infer_instance

/-! ### Tuple types -/

instance : Plain TupleElement := .of TupleElement

instance reads_tupleElementType : Reads source h bound left (tupleElementType g) := by
  unfold tupleElementType
  refine .step fun spread => ?_
  split
  · infer_instance
  · refine .step fun type => ?_
    split <;> infer_instance

instance reads_tupleElement : Reads source h bound left (tupleElement g) := by
  unfold tupleElement
  dsimp only
  infer_instance

instance entails_firsts {α : Type} [Located α] {pairs : List (Node × α)} :
    Entails (h ∧ LiesFrom source bound pairs) (AllAnchored source (pairs.map Prod.fst)) := by
  refine ⟨fun hboth node hnode => ?_⟩
  obtain ⟨pair, hpair, rfl⟩ := List.mem_map.mp hnode
  exact (hboth.2 pair hpair).1.1

instance reads_tupleType : Reads source h bound left (tupleType g) := by
  unfold tupleType
  infer_instance

/-! ### Other simple types -/

instance reads_importType : Reads source h bound left (importType g) := by
  unfold importType
  infer_instance

instance reads_typeQuery : Reads source h bound left (typeQuery g) := by
  unfold typeQuery
  infer_instance

instance reads_templateType : Reads source h bound left (templateType g) := by
  unfold templateType
  refine .step fun start => .bind (.many (.step fun token => ?_)) fun types => ?_
  · split <;> infer_instance
  · infer_instance

instance reads_assertsType : Reads source h bound left (assertsType g) := by
  unfold assertsType
  infer_instance

instance reads_thisType : Reads source h bound left (thisType g) := by
  unfold thisType
  infer_instance

instance reads_questionedType : Reads source h bound left (questionedType g) := by
  unfold questionedType
  refine .step fun start => .step fun _ => .step fun token => ?_
  split <;> infer_instance

instance reads_wordType (word : String) : Reads source h bound left (wordType g word) := by
  unfold wordType
  split <;> infer_instance

instance reads_simpleType : Reads source h bound left (simpleType g) := by
  unfold simpleType
  refine .step fun start => .step fun token => ?_
  split
  case h_5 =>
    refine .step fun _ => .step fun token => ?_
    split <;> infer_instance
  all_goals infer_instance

instance reads_markedType : Reads source h bound left (markedType g) := by
  unfold markedType
  infer_instance

/-! ### Types with operators -/

instance reads_beginsBareType : Reads source h bound left beginsBareType := by
  unfold beginsBareType
  refine .step fun token => ?_
  split <;> infer_instance

instance reads_beginsType : Reads source h bound left beginsType := by
  unfold beginsType
  infer_instance

instance reads_typeSuffix {start : Nat} {type : Node} [Entails h (LiesFrom source bound start)]
    [Entails h (type.Anchored source)] :
    Reads source h bound left (typeSuffix? g start type) := by
  unfold typeSuffix?
  refine .step fun newline => ?_
  split
  · infer_instance
  · refine .step fun token => ?_
    split <;> infer_instance

instance reads_suffixedType : Reads source h bound left (suffixedType g) := by
  unfold suffixedType
  infer_instance

instance reads_inferConstraint : Reads source h bound left (inferConstraint? g) := by
  unfold inferConstraint?
  infer_instance

instance reads_prefixedType : Reads source h bound left (prefixedType g) := by
  unfold prefixedType
  refine .step fun start => .step fun token => ?_
  split <;> infer_instance

instance reads_joinedTypes (mark : String) {item : Parser Node}
    [hitem : ∀ h, Reads source h bound left item] :
    Reads source h bound left (joinedTypes mark item) := by
  unfold joinedTypes
  infer_instance

instance reads_type : Reads source h bound left (type g) := by
  unfold type
  infer_instance

end ModuleLinkage.Syntax
