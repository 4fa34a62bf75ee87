import ModuleLinkage.Proofs.Syntax.Anchoring.Types
import ModuleLinkage.Syntax.Parser.Class

/-!
# Reading functions and classes

If the productions of a grammar read a text, then so do those of functions, of classes and of the
members of classes.
-/

set_option autoImplicit false
set_option synthInstance.maxSize 100000
set_option synthInstance.maxHeartbeats 200000

namespace ModuleLinkage.Syntax

open Text

variable {source : List Char} {h : Prop} {bound left : Nat} {g : Grammar} [ReadsAll source g]

/-! ### Functions -/

instance reads_statements : Reads source h bound left (statements g) := by
  unfold statements
  refine .many (.step fun token => ?_)
  split <;> infer_instance

instance reads_functionBody : Reads source h bound left (functionBody g) := by
  unfold functionBody
  infer_instance

instance : Plain FunctionMarks := .of FunctionMarks

instance reads_insideFunction {α : Type} [Located α] {marks : FunctionMarks} {parser : Parser α}
    [Reads source h bound left parser] :
    Reads source h bound left (insideFunction marks parser) := by
  unfold insideFunction
  infer_instance

instance reads_functionParts (marks : FunctionMarks) (owner : ParameterOwner) :
    Reads source h bound left (functionParts g marks owner) := by
  unfold functionParts
  dsimp only
  infer_instance

instance reads_functionMarks : Reads source h bound left functionMarks := by
  unfold functionMarks
  infer_instance

instance reads_beginsFunction : Reads source h bound left beginsFunction := by
  unfold beginsFunction
  infer_instance

instance reads_functionExpression : Reads source h bound left (functionExpression g) := by
  unfold functionExpression
  dsimp only
  infer_instance

instance reads_functionName (optional : Bool) :
    Reads source h bound left (functionName optional) := by
  unfold functionName
  refine .step fun token => ?_
  split <;> infer_instance

instance reads_functionDeclaration {start : Nat}
    [Entails h (LiesFrom source bound start)] (isAsync ambient nameOptional : Bool) :
    Reads source h bound left (functionDeclaration g start isAsync ambient nameOptional) := by
  unfold functionDeclaration
  dsimp only
  infer_instance

instance reads_functionStatement (place : StatementPlace) :
    Reads source h bound left (functionStatement g place) := by
  unfold functionStatement
  infer_instance

instance reads_methodFunction (marks : FunctionMarks) (owner : ParameterOwner) :
    Reads source h bound left (methodFunction g marks owner) := by
  unfold methodFunction
  infer_instance

/-! ### Members of classes -/

instance reads_staticBlock : Reads source h bound left (staticBlock g) := by
  unfold staticBlock
  infer_instance

instance reads_memberKey (head : MemberHead) : Reads source h bound left (memberKey g head) := by
  unfold memberKey
  refine .step fun token => ?_
  split <;> infer_instance

instance reads_checkMethod (head : MemberHead) (function : Node) :
    Reads source h bound left (checkMethod head function) := by
  unfold checkMethod
  infer_instance

instance reads_accessorMember (head : MemberHead) (accessor : Accessor) :
    Reads source h bound left (accessorMember g head accessor) := by
  unfold accessorMember
  infer_instance

instance reads_beginsConstructor : Reads source h bound left beginsConstructor := by
  unfold beginsConstructor
  refine .step fun token => ?_
  split <;> infer_instance

instance reads_constructorMember (head : MemberHead) :
    Reads source h bound left (constructorMember g head) := by
  unfold constructorMember
  infer_instance

instance reads_checkField (head : MemberHead) (key : Node) (optional definite hasValue : Bool) :
    Reads source h bound left (checkField head key optional definite hasValue) := by
  unfold checkField
  infer_instance

instance reads_field (head : MemberHead) {key : Node}
    [Entails h (key.Anchored source)] (optional : Bool) :
    Reads source h bound left (field g head key optional) := by
  unfold field
  infer_instance

instance reads_methodOrField (head : MemberHead) :
    Reads source h bound left (methodOrField g head) := by
  unfold methodOrField
  infer_instance

instance reads_memberBody (head : MemberHead) : Reads source h bound left (memberBody g head) := by
  unfold memberBody
  refine .step fun accessor? => ?_
  split <;> infer_instance

instance reads_classMember : Reads source h bound left (classMember g) := by
  unfold classMember
  infer_instance

instance reads_classBody : Reads source h bound left (classBody g) := by
  unfold classBody
  infer_instance

/-! ### Classes -/

instance reads_heritageArguments : Reads source h bound left (heritageArguments? g) := by
  unfold heritageArguments?
  infer_instance

instance reads_superclass : Reads source h bound left (superclass g) := by
  unfold superclass
  infer_instance

instance reads_implemented : Reads source h bound left (implemented g) := by
  unfold implemented
  infer_instance

instance locatedHeritage : Located Heritage where
  LiesFrom source _ heritage :=
    AllAnchored source heritage.parents.flatten ∧ AllAnchored source heritage.implemented
  mono _ h := h

section Heritage

variable {parents parents' : List (List Node)} {nodes : List Node} {heritage : Heritage}

instance entails_flattenNil : Entails h (AllAnchored source ([] : List (List Node)).flatten) :=
  ⟨fun _ => AllAnchored.nil⟩

instance entails_flattenCons [hnodes : Entails h (AllAnchored source nodes)]
    [hparents : Entails h (AllAnchored source parents.flatten)] :
    Entails h (AllAnchored source (nodes :: parents).flatten) := by
  refine ⟨fun hbefore => ?_⟩
  rw [List.flatten_cons, AllAnchored.append_iff]
  exact ⟨hnodes.imp hbefore, hparents.imp hbefore⟩

instance entails_flattenAppend [hparents : Entails h (AllAnchored source parents.flatten)]
    [hparents' : Entails h (AllAnchored source parents'.flatten)] :
    Entails h (AllAnchored source (parents ++ parents').flatten) := by
  refine ⟨fun hbefore => ?_⟩
  rw [List.flatten_append, AllAnchored.append_iff]
  exact ⟨hparents.imp hbefore, hparents'.imp hbefore⟩

instance entails_heritage [hparents : Entails h (AllAnchored source parents.flatten)]
    [hnodes : Entails h (AllAnchored source nodes)] :
    Entails h (LiesFrom source bound (Heritage.mk parents nodes)) :=
  ⟨fun hbefore => ⟨hparents.imp hbefore, hnodes.imp hbefore⟩⟩

instance entails_heritageParents :
    Entails (h ∧ LiesFrom source bound heritage) (AllAnchored source heritage.parents.flatten) :=
  ⟨fun hboth => hboth.2.1⟩

instance entails_heritageImplemented :
    Entails (h ∧ LiesFrom source bound heritage) (AllAnchored source heritage.implemented) :=
  ⟨fun hboth => hboth.2.2⟩

end Heritage

instance reads_heritage : Reads source h bound left (heritage g) := by
  unfold heritage
  infer_instance

instance reads_classDefinition {start : Nat}
    [Entails h (LiesFrom source bound start)] {decorators : List Node}
    [Entails h (AllAnchored source decorators)] (modifiers : List String) (style : DefinitionStyle) :
    Reads source h bound left (classDefinition g start decorators modifiers style) := by
  unfold classDefinition
  dsimp only
  infer_instance

end ModuleLinkage.Syntax
