import ModuleLinkage.Proofs.Syntax.Anchoring.Types
import ModuleLinkage.Proofs.Syntax.Ordering.Tokens

/-!
# Laying patterns and types

If the productions of a grammar lay their nodes in the order of the text, then so do those of patterns,
parameters and types that are made of them.
-/

set_option autoImplicit false
set_option synthInstance.maxSize 1000000000
set_option synthInstance.maxHeartbeats 200000

namespace ModuleLinkage.Syntax

open Text

/-- Whether a nonterminal is read without knowing what stands behind it. -/
@[reducible] def Nonterminal.isPlain : Nonterminal → Bool
  | .markup => false
  | _ => true

/-- A parser that goes on over one token. -/
class PassesOne (parser : Parser Unit) : Prop where
  stop : ∀ s s', parser s = .done () s' → s'.previousStop = s.lexeme.span.stop

/-- Whether all productions of a grammar lay their nodes in the order of a text. The production of
markup does so together with what goes on over its last token. -/
class LaysAll (source : List Char) (markers : Bool) (g : Grammar) : Prop
    extends ReadsAll source g where
  lays : ∀ (h : Prop) (lo left : Nat) (nonterminal : Nonterminal), nonterminal.isPlain = true →
    Lays source markers h lo lo left (g nonterminal)
  laysMarkup : ∀ (h : Prop) (lo left : Nat) (last : Parser Unit) [Reads source True 0 0 last]
    [Steady last] [PassesOne last],
      Lays source markers h lo lo left (g .markup >>= fun node => last >>= fun _ => pure node)

variable {source : List Char} {markers : Bool} {h : Prop} {outset lo left start : Nat} {g : Grammar}

instance lays_nonterminal [hall : LaysAll source markers g] {nonterminal : Nonterminal}
    [hplain : Holds nonterminal.isPlain] [AtMost h outset lo] :
    Lays source markers h outset lo left (g nonterminal) :=
  .widen (hall.lays h lo left nonterminal hplain.eq)

instance outset_withInOperator {α : Type} {parser : Parser α} [Outset parser lo outset] :
    Outset (withInOperator parser) lo outset := ⟨⟩

instance lays_withInOperator {α : Type} [Placed α] {parser : Parser α}
    [Lays source markers h outset lo left parser] :
    Lays source markers h outset lo left (withInOperator parser) := by
  unfold withInOperator
  infer_instance

variable [LaysAll source markers g] [AtMost h outset lo]

/-! ### Patterns -/

instance lays_element : Lays source markers h outset lo left (element g) := by
  unfold element
  infer_instance

instance lays_typeAnnotation : Lays source markers h outset lo left (typeAnnotation? g) := by
  unfold typeAnnotation?
  infer_instance

instance lays_initializer : Lays source markers h outset lo left (initializer? g) := by
  unfold initializer?
  infer_instance

instance lays_propertyKey : Lays source markers h outset lo left (propertyKey g) := by
  unfold propertyKey
  refine .skip fun token => ?_
  split <;> infer_instance

instance lays_patternElement : Lays source markers h outset lo left (patternElement g) := by
  unfold patternElement
  infer_instance

instance lays_restPattern {inner : Parser Node}
    [hinner : ∀ h lo left, Lays source markers h lo lo left inner] :
    Lays source markers h outset lo left (restPattern inner) := by
  unfold restPattern
  infer_instance

instance lays_arrayPatternElements :
    Lays source markers h outset lo left (arrayPatternElements g) := by
  unfold arrayPatternElements
  dsimp only
  infer_instance

/-- A word in front of a property is a key. -/
theorem isKey_of_propertyKey {s s' : State} {key : Node} {word : String} {escaped : Bool}
    (hrun : propertyKey g s = .done key s') (htoken : s.lexeme.token = .word word escaped) :
    key.isKey = true := by
  obtain ⟨token, s₁, hpresent, hrun⟩ := done_of_bind hrun
  cases hpresent
  rw [htoken] at hrun
  obtain ⟨offset, s₂, hoffset, hrun⟩ := done_of_bind hrun
  obtain ⟨-, s₃, hpass, hrun⟩ := done_of_bind hrun
  cases hrun
  rfl

/-- A shorthand is read once, as key and as pattern. -/
instance lays_propertyPattern : Lays source markers h outset lo left (propertyPattern g) := by
  unfold propertyPattern
  dsimp only
  refine .offset fun start => .skip fun isRest => ?_
  split
  · infer_instance
  refine ⟨fun s => .skip fun token s₁ htoken => ?_⟩
  cases htoken
  refine .step fun key s' lo' left' hkey => ?_
  refine .skip fun colon s₂ _ => ?_
  split
  · exact Lays.run s₂
  split
  · next word escaped hword =>
    have hkey {h : Prop} : Entails h (key.isKey = true) :=
      ⟨fun _ => isKey_of_propertyKey hkey hword⟩
    exact Lays.run s₂
  · exact Lays.run s₂

instance lays_pattern : Lays source markers h outset lo left (pattern g) := by
  unfold pattern
  refine .offset fun start => .skip fun token => ?_
  split <;> infer_instance

/-! ### Parameters -/

instance lays_decorator : Lays source markers h outset lo left (decorator g) := by
  unfold decorator
  infer_instance

instance lays_decorators : Lays source markers h outset lo left (decorators g) := by
  unfold decorators
  infer_instance

instance lays_parameter (owner : ParameterOwner) :
    Lays source markers h outset lo left (parameter g owner) := by
  unfold parameter
  dsimp only
  infer_instance

instance lays_thisParameter : Lays source markers h outset lo left (thisParameter g) := by
  unfold thisParameter
  dsimp only
  infer_instance

instance lays_parameters (owner : ParameterOwner) :
    Lays source markers h outset lo left (parameters g owner) := by
  unfold parameters
  dsimp only
  infer_instance

/-! ### Names and arguments -/

instance steady_isAtTypeOpening : Steady isAtTypeOpening := by
  unfold isAtTypeOpening
  refine .step fun token => ?_
  split <;> infer_instance

instance steady_beginsFunctionType : Steady (beginsFunctionType g) := by
  unfold beginsFunctionType
  refine .step fun token => ?_
  split <;> infer_instance

instance lays_anyType : Lays source markers h outset lo left (anyType g) := by
  unfold anyType
  infer_instance

instance lays_constraintType : Lays source markers h outset lo left (constraintType g) := by
  unfold constraintType
  infer_instance

instance lays_typeArguments : Lays source markers h outset lo left (typeArguments g) := by
  unfold typeArguments angleList
  simp only [bind_assoc]
  infer_instance

instance lays_optionalTypeArguments : Lays source markers h outset lo left (typeArguments? g) := by
  unfold typeArguments?
  infer_instance

instance lays_typeParameter : Lays source markers h outset lo left (typeParameter g) := by
  unfold typeParameter
  infer_instance

instance lays_typeParameters : Lays source markers h outset lo left (typeParameters? g) := by
  unfold typeParameters? angleList
  simp only [bind_assoc]
  infer_instance

instance lays_entityName : Lays source markers h outset lo left entityName := by
  unfold entityName
  dsimp only
  refine .offset fun start => .skip fun token => ?_
  split <;> infer_instance

instance lays_typeReference : Lays source markers h outset lo left (typeReference g) := by
  unfold typeReference
  infer_instance

instance lays_typePredicate : Lays source markers h outset lo left (typePredicate? g) := by
  unfold typePredicate?
  refine .offset fun start => .step fun name? lo' left' => ?_
  split <;> infer_instance

instance lays_resultType (mark : String) :
    Lays source markers h outset lo left (resultType g mark) := by
  unfold resultType
  refine .skip fun _ => .step fun predicate? lo' left' => ?_
  split <;> infer_instance

instance lays_optionalResultType : Lays source markers h outset lo left (resultType? g) := by
  unfold resultType?
  infer_instance

instance lays_functionType : Lays source markers h outset lo left (functionType g) := by
  unfold functionType
  infer_instance

/-! ### Members of object types -/

instance steady_endTypeMember : Steady endTypeMember := by
  unfold endTypeMember
  infer_instance

instance steady_beginsSignature : Steady beginsSignature := by
  unfold beginsSignature
  infer_instance

instance steady_beginsIndexSignature : Steady beginsIndexSignature := by
  unfold beginsIndexSignature
  infer_instance

instance lays_indexSignature : Lays source markers h outset lo left (indexSignature g) := by
  unfold indexSignature
  infer_instance

instance lays_signature (constructs : Bool) :
    Lays source markers h outset lo left (signature g constructs) := by
  unfold signature
  infer_instance

instance knows_signature (constructs : Bool) :
    Knows (signature g constructs) fun parts => parts ≠ [] :=
  ⟨.bind fun _ => .bind fun _ => .bind fun _ => .bind fun _ => gives_pure (by simp)⟩

instance lays_accessorSignature (accessor : Accessor) :
    Lays source markers h outset lo left (accessorSignature g accessor) := by
  unfold accessorSignature
  infer_instance

instance lays_typeProperty (modifiers : List String) :
    Lays source markers h outset lo left (typeProperty g modifiers) := by
  unfold typeProperty
  refine .skip fun accessor? => ?_
  split <;> infer_instance

/-- Every member of a type consists of something. -/
instance knows_typeProperty (modifiers : List String) :
    Knows (typeProperty g modifiers) fun parts => parts ≠ [] := by
  refine ⟨.bind fun accessor? => ?_⟩
  split
  · exact .bind fun _ => .bind fun _ => .bind fun _ => .bind fun _ => .bind fun _ =>
      gives_pure (List.cons_ne_nil _ _)
  refine .bind fun isIndex => ?_
  split
  · exact .bind fun _ => gives_pure (List.cons_ne_nil _ _)
  refine .bind fun key => .bind fun _ => .bind fun isSignature => ?_
  split
  · exact .bind fun _ => .bind fun _ => gives_pure (List.cons_ne_nil _ _)
  · exact .bind fun _ => gives_pure (List.cons_ne_nil _ _)

instance lays_typeMember : Lays source markers h outset lo left (typeMember g) := by
  unfold typeMember
  dsimp only
  infer_instance

instance lays_typeMembers : Lays source markers h outset lo left (typeMembers g) := by
  unfold typeMembers
  infer_instance

instance steady_mappedMark {mark : Parser Bool} [Steady mark] : Steady (mappedMark mark) := by
  unfold mappedMark
  infer_instance

instance lays_mappedType : Lays source markers h outset lo left (mappedType g) := by
  unfold mappedType
  dsimp only
  infer_instance

/-! ### Tuple types -/

instance lays_tupleElementType : Lays source markers h outset lo left (tupleElementType g) := by
  unfold tupleElementType
  refine .skip fun spread => ?_
  split
  · infer_instance
  · refine .step fun type lo' left' => ?_
    split <;> infer_instance

instance lays_tupleElement : Lays source markers h outset lo left (tupleElement g) := by
  unfold tupleElement
  dsimp only
  infer_instance

instance lays_tupleType : Lays source markers h outset lo left (tupleType g) := by
  unfold tupleType
  infer_instance

/-! ### Other simple types -/

instance lays_importType : Lays source markers h outset lo left (importType g) := by
  unfold importType
  infer_instance

instance lays_typeQuery : Lays source markers h outset lo left (typeQuery g) := by
  unfold typeQuery
  infer_instance

instance lays_templateType : Lays source markers h outset lo left (templateType g) := by
  unfold templateType
  refine .offset fun start => .bind (.many fun lo' left' => .skip fun token => ?_)
    fun types lo' left' => ?_
  · split <;> infer_instance
  · infer_instance

instance lays_assertsType : Lays source markers h outset lo left (assertsType g) := by
  unfold assertsType
  infer_instance

instance lays_thisType : Lays source markers h outset lo left (thisType g) := by
  unfold thisType
  infer_instance

instance lays_questionedType : Lays source markers h outset lo left (questionedType g) := by
  unfold questionedType
  refine .offset fun start => .pass fun _ passed => .skip fun token => ?_
  split <;> infer_instance

instance lays_wordType (word : String) : Lays source markers h outset lo left (wordType g word) := by
  unfold wordType
  split <;> infer_instance

instance lays_simpleType : Lays source markers h outset lo left (simpleType g) := by
  unfold simpleType typeMembers
  simp only [bind_assoc]
  refine .offset fun start => .skip fun token => ?_
  split
  case h_5 =>
    refine .pass fun _ passed => .skip fun token => ?_
    split <;> infer_instance
  all_goals infer_instance

instance lays_markedType : Lays source markers h outset lo left (markedType g) := by
  unfold markedType
  infer_instance

/-! ### Types with operators -/

instance steady_beginsBareType : Steady beginsBareType := by
  unfold beginsBareType
  refine .step fun token => ?_
  split <;> infer_instance

instance steady_beginsType : Steady beginsType := by
  unfold beginsType
  infer_instance

instance lays_typeSuffix {type : Node} [AtMost h outset start] [AtMost h start left]
    [hleft : AtMost h left lo] [htype : Given source markers h start type left] :
    Lays source markers h outset lo left (typeSuffix? g start type) := by
  have hfound : Found source markers h type start left := ⟨htype.imp⟩
  have hstart : AtMost h start lo := ⟨fun hbefore => (AtMost.imp hbefore).trans (hleft.imp hbefore)⟩
  unfold typeSuffix?
  refine .skip fun newline => ?_
  split
  · infer_instance
  · refine .skip fun token => ?_
    split <;> infer_instance

instance lays_suffixedType : Lays source markers h outset lo left (suffixedType g) := by
  unfold suffixedType
  infer_instance

instance lays_inferConstraint : Lays source markers h outset lo left (inferConstraint? g) := by
  unfold inferConstraint?
  infer_instance

instance lays_prefixedType : Lays source markers h outset lo left (prefixedType g) := by
  unfold prefixedType
  refine .offset fun start => .skip fun token => ?_
  split <;> infer_instance

instance lays_joinedTypes (mark : String) {item : Parser Node}
    [hitem : ∀ h lo left, Lays source markers h lo lo left item] :
    Lays source markers h outset lo left (joinedTypes mark item) := by
  unfold joinedTypes
  infer_instance

instance lays_type : Lays source markers h outset lo left (type g) := by
  unfold type
  dsimp only
  infer_instance

end ModuleLinkage.Syntax
