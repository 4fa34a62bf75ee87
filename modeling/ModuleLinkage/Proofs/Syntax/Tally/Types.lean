import ModuleLinkage.Proofs.Syntax.Tally.Tokens

/-!
# Patterns and types within their budgets

If the productions of a grammar keep within their budgets, then so do those of patterns, parameters and
types that are made of them.
-/

set_option autoImplicit false
set_option synthInstance.maxSize 100000
set_option synthInstance.maxHeartbeats 200000

namespace ModuleLinkage.Syntax

/-- Whether all productions of a grammar keep within their budgets. -/
class AffordsAll (offset : Nat) (g : Grammar) : Prop where
  affords : ∀ nonterminal, Affords offset 0 (g nonterminal)

variable {offset budget left : Nat} {g : Grammar}

instance leaves_nonterminal [hall : AffordsAll offset g] (nonterminal : Nonterminal) :
    Leaves offset budget (g nonterminal) budget :=
  .of_affords (hall.affords nonterminal)

instance leaves_withInOperator {α : Type} [Tallied α] {parser : Parser α}
    [Leaves offset budget parser left] : Leaves offset budget (withInOperator parser) left := by
  unfold withInOperator
  infer_instance

variable [AffordsAll offset g]

/-! ### Patterns -/

instance leaves_element : Leaves offset budget (element g) budget := by
  unfold element
  infer_instance

instance leaves_typeAnnotation : Leaves offset budget (typeAnnotation? g) budget := by
  unfold typeAnnotation?
  infer_instance

instance leaves_initializer : Leaves offset budget (initializer? g) budget := by
  unfold initializer?
  infer_instance

instance leaves_propertyKey : Leaves offset budget (propertyKey g) budget := by
  unfold propertyKey
  refine .of_affords (.step fun token => ?_)
  split <;> infer_instance

instance leaves_patternElement : Leaves offset budget (patternElement g) budget := by
  unfold patternElement
  infer_instance

instance leaves_restPattern {inner : Parser Node} [Affords offset 0 inner] :
    Leaves offset budget (restPattern inner) budget := by
  unfold restPattern
  infer_instance

instance leaves_arrayPatternElements : Leaves offset budget (arrayPatternElements g) budget := by
  unfold arrayPatternElements
  dsimp only
  infer_instance

instance leaves_propertyPattern : Leaves offset budget (propertyPattern g) budget := by
  unfold propertyPattern
  dsimp only
  refine .of_affords (.step fun start => .step fun isRest => ?_)
  split
  · infer_instance
  refine .step fun token => .step fun key => .step fun colon => ?_
  split
  · infer_instance
  split <;> infer_instance

instance leaves_pattern : Leaves offset budget (pattern g) budget := by
  unfold pattern
  refine .of_affords (.step fun start => .step fun token => ?_)
  split <;> infer_instance

/-! ### Parameters -/

instance leaves_decorator : Leaves offset budget (decorator g) budget := by
  unfold decorator
  infer_instance

instance leaves_decorators : Leaves offset budget (decorators g) budget := by
  unfold decorators
  infer_instance

instance leaves_parameter (owner : ParameterOwner) :
    Leaves offset budget (parameter g owner) budget := by
  unfold parameter
  dsimp only
  infer_instance

instance leaves_thisParameter : Leaves offset budget (thisParameter g) budget := by
  unfold thisParameter
  dsimp only
  infer_instance

instance leaves_parameters (owner : ParameterOwner) :
    Leaves offset budget (parameters g owner) budget := by
  unfold parameters
  dsimp only
  infer_instance

/-! ### Names and arguments -/

instance leaves_isAtTypeOpening : Leaves offset budget isAtTypeOpening budget := by
  refine .of_affords ⟨fun s => LeavesAt.bind (leaves_present.run s) fun token s₁ hpresent => ?_⟩
  cases hpresent
  split
  · exact affords_of_leaves.run s
  · refine LeavesAt.bind (leaves_get.run s) fun state s₂ hget => ?_
    cases hget
    refine LeavesAt.bind (LeavesAt.retold fun _ => ?_) fun _ s₃ _ => affords_of_leaves.run s₃
    exact extends_of_ne_word (Nat.le_succ _) nofun
  · exact affords_of_leaves.run s

instance leaves_beginsFunctionType : Leaves offset budget (beginsFunctionType g) budget := by
  unfold beginsFunctionType
  refine .of_affords (.step fun token => ?_)
  split <;> infer_instance

instance leaves_angleList {item : Parser Node} [Affords offset 0 item] :
    Leaves offset budget (angleList item) budget := by
  unfold angleList
  infer_instance

instance leaves_anyType : Leaves offset budget (anyType g) budget := by
  unfold anyType
  infer_instance

instance leaves_constraintType : Leaves offset budget (constraintType g) budget := by
  unfold constraintType
  infer_instance

instance leaves_typeArguments : Leaves offset budget (typeArguments g) budget := by
  unfold typeArguments
  infer_instance

instance leaves_optionalTypeArguments : Leaves offset budget (typeArguments? g) budget := by
  unfold typeArguments?
  infer_instance

instance leaves_typeParameter : Leaves offset budget (typeParameter g) budget := by
  unfold typeParameter
  infer_instance

instance leaves_typeParameters : Leaves offset budget (typeParameters? g) budget := by
  unfold typeParameters?
  infer_instance

instance leaves_entityName : Leaves offset budget entityName budget := by
  unfold entityName
  dsimp only
  refine .of_affords (.step fun start => .step fun token => ?_)
  split <;> infer_instance

instance leaves_typeReference : Leaves offset budget (typeReference g) budget := by
  unfold typeReference
  infer_instance

instance leaves_typePredicate : Leaves offset budget (typePredicate? g) budget := by
  unfold typePredicate?
  refine .of_affords (.step fun start => .step fun name? => ?_)
  split <;> infer_instance

instance leaves_resultType (mark : String) : Leaves offset budget (resultType g mark) budget := by
  unfold resultType
  refine .of_affords (.step fun _ => .step fun predicate? => ?_)
  split <;> infer_instance

instance leaves_optionalResultType : Leaves offset budget (resultType? g) budget := by
  unfold resultType?
  infer_instance

instance leaves_functionType : Leaves offset budget (functionType g) budget := by
  unfold functionType
  infer_instance

/-! ### Members of object types -/

instance leaves_endTypeMember : Leaves offset budget (endTypeMember) budget := by
  unfold endTypeMember
  infer_instance

instance leaves_indexSignature : Leaves offset budget (indexSignature g) budget := by
  unfold indexSignature
  infer_instance

instance leaves_beginsSignature : Leaves offset budget beginsSignature budget := by
  unfold beginsSignature
  infer_instance

instance leaves_signature (constructs : Bool) :
    Leaves offset budget (signature g constructs) budget := by
  unfold signature
  infer_instance

instance leaves_accessorSignature (accessor : Accessor) :
    Leaves offset budget (accessorSignature g accessor) budget := by
  unfold accessorSignature
  infer_instance

instance leaves_beginsIndexSignature : Leaves offset budget beginsIndexSignature budget := by
  unfold beginsIndexSignature
  infer_instance

instance leaves_typeProperty (modifiers : List String) :
    Leaves offset budget (typeProperty g modifiers) budget := by
  unfold typeProperty
  refine .of_affords (.step fun accessor? => ?_)
  split <;> infer_instance

instance leaves_typeMember : Leaves offset budget (typeMember g) budget := by
  unfold typeMember
  dsimp only
  infer_instance

instance leaves_typeMembers : Leaves offset budget (typeMembers g) budget := by
  unfold typeMembers
  infer_instance

instance leaves_mappedMark {mark : Parser Bool} [Affords offset 0 mark] :
    Leaves offset budget (mappedMark mark) budget := by
  unfold mappedMark
  infer_instance

instance leaves_mappedType : Leaves offset budget (mappedType g) budget := by
  unfold mappedType
  infer_instance

/-! ### Tuple types -/

instance : Tallyless TupleElement := .of TupleElement

instance leaves_tupleElementType : Leaves offset budget (tupleElementType g) budget := by
  unfold tupleElementType
  refine .of_affords (.step fun spread => ?_)
  split
  · infer_instance
  · refine .step fun type => ?_
    split <;> infer_instance

instance leaves_tupleElement : Leaves offset budget (tupleElement g) budget := by
  unfold tupleElement
  dsimp only
  infer_instance

instance takes_firsts {α : Type} [Tallied α] {pairs : List (Node × α)}
    [htakes : Takes offset budget pairs left] : Takes offset budget (pairs.map Prod.fst) left := by
  have hle : tally offset (pairs.map Prod.fst) ≤ tally offset pairs := by
    clear htakes
    induction pairs with
    | nil => exact Nat.le_refl _
    | cons pair rest ih =>
      rw [List.map_cons, tally_cons, tally_cons]
      exact Nat.add_le_add (Nat.le_add_right _ _) ih
  exact ⟨(Nat.add_le_add_right hle _).trans htakes.le⟩

instance leaves_tupleType : Leaves offset budget (tupleType g) budget := by
  unfold tupleType
  infer_instance

/-! ### Other simple types -/

instance leaves_importType : Leaves offset budget (importType g) budget := by
  unfold importType
  infer_instance

instance leaves_typeQuery : Leaves offset budget (typeQuery g) budget := by
  unfold typeQuery
  infer_instance

instance leaves_templateType : Leaves offset budget (templateType g) budget := by
  unfold templateType
  refine .of_affords (.step fun start => .bind (.many (.step fun token => ?_)) fun types => ?_)
  · split <;> infer_instance
  · infer_instance

instance leaves_assertsType : Leaves offset budget (assertsType g) budget := by
  unfold assertsType
  infer_instance

instance leaves_thisType : Leaves offset budget (thisType g) budget := by
  unfold thisType
  infer_instance

instance leaves_questionedType : Leaves offset budget (questionedType g) budget := by
  unfold questionedType
  refine .of_affords (.step fun start => .step fun _ => .step fun token => ?_)
  split <;> infer_instance

instance leaves_wordType (word : String) : Leaves offset budget (wordType g word) budget := by
  unfold wordType
  split <;> infer_instance

instance leaves_simpleType : Leaves offset budget (simpleType g) budget := by
  unfold simpleType
  refine .of_affords (.step fun start => .step fun token => ?_)
  split
  case h_5 =>
    refine .step fun _ => .step fun token => ?_
    split <;> infer_instance
  all_goals infer_instance

instance leaves_markedType : Leaves offset budget (markedType g) budget := by
  unfold markedType
  infer_instance

/-! ### Types with operators -/

instance leaves_beginsBareType : Leaves offset budget beginsBareType budget := by
  unfold beginsBareType
  refine .of_affords (.step fun token => ?_)
  split <;> infer_instance

instance leaves_beginsType : Leaves offset budget beginsType budget := by
  unfold beginsType
  infer_instance

instance leaves_typeSuffix (start : Nat) {type : Node} [Takes offset budget type left] :
    Leaves offset budget (typeSuffix? g start type) left := by
  unfold typeSuffix?
  refine .of_takes type (.step fun newline => ?_)
  split
  · infer_instance
  · refine .step fun token => ?_
    split <;> infer_instance

instance leaves_suffixedType : Leaves offset budget (suffixedType g) budget := by
  unfold suffixedType
  infer_instance

instance leaves_inferConstraint : Leaves offset budget (inferConstraint? g) budget := by
  unfold inferConstraint?
  infer_instance

instance leaves_prefixedType : Leaves offset budget (prefixedType g) budget := by
  unfold prefixedType
  refine .of_affords (.step fun start => .step fun token => ?_)
  split <;> infer_instance

instance leaves_joinedTypes (mark : String) {item : Parser Node}
    [Affords offset 0 item] :
    Leaves offset budget (joinedTypes mark item) budget := by
  unfold joinedTypes
  infer_instance

instance leaves_type : Leaves offset budget (type g) budget := by
  unfold type
  infer_instance

end ModuleLinkage.Syntax

