import ModuleLinkage.Proofs.Syntax.Tally.Types
import ModuleLinkage.Syntax.Parser.Class

/-!
# Functions and classes within their budgets

If the productions of a grammar keep within their budgets, then so do those of functions, of classes
and of the members of classes.
-/

set_option autoImplicit false
set_option synthInstance.maxSize 100000
set_option synthInstance.maxHeartbeats 200000

namespace ModuleLinkage.Syntax

variable {offset budget middle left : Nat} {g : Grammar} [AffordsAll offset g]

/-! ### Functions -/

instance leaves_statements : Leaves offset budget (statements g) budget := by
  unfold statements
  refine .many (.step fun token => ?_)
  split <;> infer_instance

theorem tally_withDirectives (statements : List Node) :
    tally offset (withDirectives statements) = tally offset statements := by
  induction statements with
  | nil => rfl
  | cons statement rest ih =>
    rw [withDirectives]
    split
    · next directive hdirective =>
      rw [tally_cons, tally_cons, ih]
      unfold asDirective? at hdirective
      split at hdirective
      · split at hdirective
        · cases hdirective
          rw [tally_mk, tally_mk]
        · cases hdirective
      · cases hdirective
    · rfl

instance takes_withDirectives {statements : List Node}
    [htakes : Takes offset budget statements left] :
    Takes offset budget (withDirectives statements) left :=
  ⟨by rw [tally_withDirectives]; exact htakes.le⟩

instance leaves_functionBody : Leaves offset budget (functionBody g) budget := by
  unfold functionBody
  infer_instance

instance : Tallyless FunctionMarks := .of FunctionMarks

instance leaves_insideFunction {α : Type} [Tallied α] {marks : FunctionMarks} {parser : Parser α}
    [Leaves offset budget parser left] :
    Leaves offset budget (insideFunction marks parser) left := by
  unfold insideFunction
  infer_instance

instance leaves_functionParts (marks : FunctionMarks) (owner : ParameterOwner) :
    Leaves offset budget (functionParts g marks owner) budget := by
  unfold functionParts
  dsimp only
  infer_instance

instance leaves_functionMarks : Leaves offset budget functionMarks budget := by
  unfold functionMarks
  infer_instance

instance leaves_beginsFunction : Leaves offset budget beginsFunction budget := by
  unfold beginsFunction
  infer_instance

instance leaves_functionExpression : Leaves offset budget (functionExpression g) budget := by
  unfold functionExpression
  dsimp only
  infer_instance

instance leaves_functionName (optional : Bool) :
    Leaves offset budget (functionName optional) budget := by
  unfold functionName
  refine .of_affords (.step fun token => ?_)
  split <;> infer_instance

instance leaves_functionDeclaration (start : Nat) (isAsync ambient nameOptional : Bool) :
    Leaves offset budget (functionDeclaration g start isAsync ambient nameOptional) budget := by
  unfold functionDeclaration
  dsimp only
  infer_instance

instance leaves_functionStatement (place : StatementPlace) :
    Leaves offset budget (functionStatement g place) budget := by
  unfold functionStatement
  infer_instance

instance leaves_methodFunction (marks : FunctionMarks) (owner : ParameterOwner) :
    Leaves offset budget (methodFunction g marks owner) budget := by
  unfold methodFunction
  infer_instance

/-! ### Members of classes -/

instance leaves_staticBlock : Leaves offset budget (staticBlock g) budget := by
  unfold staticBlock
  infer_instance

instance leaves_memberKey (head : MemberHead) : Leaves offset budget (memberKey g head) budget := by
  unfold memberKey
  refine .of_affords (.step fun token => ?_)
  split <;> infer_instance

instance leaves_checkMethod (head : MemberHead) (function : Node) :
    Leaves offset budget (checkMethod head function) budget := by
  unfold checkMethod
  infer_instance

instance leaves_accessorMember (head : MemberHead) (accessor : Accessor) :
    Leaves offset budget (accessorMember g head accessor) budget := by
  unfold accessorMember
  infer_instance

instance leaves_beginsConstructor : Leaves offset budget beginsConstructor budget := by
  unfold beginsConstructor
  refine .of_affords (.step fun token => ?_)
  split <;> infer_instance

instance leaves_constructorMember (head : MemberHead) :
    Leaves offset budget (constructorMember g head) budget := by
  unfold constructorMember
  infer_instance

instance leaves_checkField (head : MemberHead) (key : Node) (optional definite hasValue : Bool) :
    Leaves offset budget (checkField head key optional definite hasValue) budget := by
  unfold checkField
  infer_instance

instance leaves_field (head : MemberHead) {key : Node} [Takes offset budget key left]
    (optional : Bool) : Leaves offset budget (field g head key optional) left := by
  unfold field
  exact .of_takes key inferInstance

instance leaves_methodOrField (head : MemberHead) :
    Leaves offset budget (methodOrField g head) budget := by
  unfold methodOrField
  infer_instance

instance leaves_memberBody (head : MemberHead) : Leaves offset budget (memberBody g head) budget := by
  unfold memberBody
  refine .of_affords (.step fun accessor? => ?_)
  split <;> infer_instance

instance leaves_classMember : Leaves offset budget (classMember g) budget := by
  unfold classMember
  infer_instance

instance leaves_classBody : Leaves offset budget (classBody g) budget := by
  unfold classBody
  infer_instance

/-! ### Classes -/

instance leaves_heritageArguments : Leaves offset budget (heritageArguments? g) budget := by
  unfold heritageArguments?
  infer_instance

instance leaves_superclass : Leaves offset budget (superclass g) budget := by
  unfold superclass
  infer_instance

instance leaves_implemented : Leaves offset budget (implemented g) budget := by
  unfold implemented
  infer_instance

instance : Tallied Heritage :=
  ⟨fun offset heritage => tally offset heritage.parents + tally offset heritage.implemented⟩

/-- What a class states of others is put together from two lists. -/
instance takes_heritage {parents : List (List Node)} {nodes : List Node}
    [hparents : Takes offset budget parents middle] [hnodes : Takes offset middle nodes left] :
    Takes offset budget (Heritage.mk parents nodes) left := by
  have htally : tally offset (Heritage.mk parents nodes) = tally offset parents + tally offset nodes :=
    rfl
  have := hparents.le
  have := hnodes.le
  exact ⟨by omega⟩

/-- What is left of one of the two lists is the other. -/
instance (priority := high) takes_heritageParents {heritage : Heritage} :
    Takes offset (budget + tally offset heritage) heritage.parents
      (budget + tally offset heritage.implemented) := by
  have htally : tally offset heritage =
    tally offset heritage.parents + tally offset heritage.implemented := rfl
  exact ⟨by omega⟩

instance leaves_heritage : Leaves offset budget (heritage g) budget := by
  unfold heritage
  infer_instance

instance leaves_classDefinition (start : Nat) {decorators : List Node}
    [Takes offset budget decorators left] (modifiers : List String) (style : DefinitionStyle) :
    Leaves offset budget (classDefinition g start decorators modifiers style) left := by
  unfold classDefinition
  dsimp only
  exact .of_takes decorators inferInstance

end ModuleLinkage.Syntax

