import ModuleLinkage.Proofs.Syntax.Anchoring.Members
import ModuleLinkage.Proofs.Syntax.Ordering.Types

/-!
# Laying functions and classes

If the productions of a grammar lay their nodes in the order of the text, then so do those of functions,
of classes and of the members of classes. The decorators of a class stand before its other parts, and
perhaps before where the class begins.
-/

set_option autoImplicit false
set_option synthInstance.maxSize 1000000000
set_option synthInstance.maxHeartbeats 200000

namespace ModuleLinkage.Syntax

open Text

variable {source : List Char} {markers : Bool} {h : Prop} {outset lo left start hi : Nat} {g : Grammar}

/-! ### Directives -/

theorem Node.Ordered.asDirective {statement directive : Node} (h : statement.Ordered source markers)
    (hdirective : asDirective? statement = some directive) :
    directive.Ordered source markers ∧ directive.span = statement.span ∧
      directive.front = statement.front := by
  unfold asDirective? at hdirective
  split at hdirective
  · next span expression =>
    split at hdirective
    · next value hvalue =>
      obtain rfl := Option.some.inj hdirective
      have hexpression := h.part (List.mem_singleton_self expression)
      have hparts : expression.parts = [] := by
        have harranged := hexpression.arranged
        rwa [hvalue] at harranged
      have hlisting : expression.isListing = true :=
        Node.isListing_iff.mpr ⟨by rw [hvalue]; rfl, by rw [hparts]; exact List.forall_mem_nil _⟩
      refine ⟨?_, rfl, rfl⟩
      cases h with
      | mk hle hwithin hapart harranged hordered =>
        exact .mk hle hwithin hapart (fun part hpart => ⟨List.mem_singleton.mp hpart ▸ hlisting,
          harranged part hpart⟩) hordered
    · cases hdirective
  · cases hdirective

/-- Directives lie where the statements do that they were read as. -/
theorem InLine.withDirectives {nodes : List Node} (h : InLine source markers lo hi nodes) :
    InLine source markers lo hi (withDirectives nodes) := by
  induction nodes generalizing lo with
  | nil => exact h
  | cons statement rest ih =>
    have hmem : statement ∈ statement :: rest := List.mem_cons_self
    unfold ModuleLinkage.Syntax.withDirectives
    split
    · next directive hdirective =>
      obtain ⟨hordered, hspan, hfront⟩ := (h.ordered _ hmem).asDirective hdirective
      refine .cons hordered (hfront ▸ h.front _ hmem) (hspan ▸ h.stop _ hmem) ?_
      rw [hspan]
      exact ih h.tail
    · exact h

instance found_withDirectives {nodes : List Node} [hnodes : Found source markers h nodes lo hi] :
    Found source markers h (withDirectives nodes) lo hi :=
  ⟨fun hbefore => lies_nodes_iff.mpr (lies_nodes_iff.mp (hnodes.imp hbefore)).withDirectives⟩

variable [LaysAll source markers g] [AtMost h outset lo]

/-! ### Functions -/

instance lays_statements : Lays source markers h outset lo left (statements g) := by
  unfold statements
  refine .widen (.many fun lo' left' => .skip fun token => ?_)
  split <;> infer_instance

instance lays_functionBody : Lays source markers h outset lo left (functionBody g) := by
  unfold functionBody
  infer_instance

instance outset_insideFunction {α : Type} {marks : FunctionMarks} {parser : Parser α}
    [Outset parser lo outset] : Outset (insideFunction marks parser) lo outset := ⟨⟩

instance lays_insideFunction {α : Type} [Placed α] {marks : FunctionMarks} {parser : Parser α}
    [Lays source markers h outset lo left parser] :
    Lays source markers h outset lo left (insideFunction marks parser) := by
  unfold insideFunction
  infer_instance

instance lays_functionParts (marks : FunctionMarks) (owner : ParameterOwner) :
    Lays source markers h outset lo left (functionParts g marks owner) := by
  unfold functionParts
  dsimp only
  infer_instance

instance steady_functionMarks : Steady functionMarks := by
  unfold functionMarks
  infer_instance

instance steady_beginsFunction : Steady beginsFunction := by
  unfold beginsFunction
  infer_instance

instance lays_functionExpression :
    Lays source markers h outset lo left (functionExpression g) := by
  unfold functionExpression functionMarks
  simp only [bind_assoc, pure_bind]
  infer_instance

instance lays_functionName (optional : Bool) :
    Lays source markers h outset lo left (functionName optional) := by
  unfold functionName
  refine .skip fun token => ?_
  split <;> infer_instance

instance lays_functionDeclaration [AtMost h outset start] [AtMost h start lo]
    (isAsync ambient nameOptional : Bool) :
    Lays source markers h outset lo left
      (functionDeclaration g start isAsync ambient nameOptional) := by
  unfold functionDeclaration functionMarks
  simp only [bind_assoc, pure_bind]
  infer_instance

instance steady_checkStatementPlace : Steady (Parser.lookAhead functionMarks) := inferInstance

instance lays_functionStatement (place : StatementPlace) :
    Lays source markers h outset lo left (functionStatement g place) := by
  unfold functionStatement
  infer_instance

instance knows_functionParts (marks : FunctionMarks) (owner : ParameterOwner) :
    Knows (functionParts g marks owner) fun parts => parts ≠ [] := by
  unfold functionParts insideFunction
  refine ⟨gives_within (.bind fun _ => .bind fun _ => .bind fun _ => .bind fun isBody => ?_)⟩
  split
  · exact .bind fun _ => .bind fun _ => gives_pure (by simp)
  · exact .bind fun _ => .bind fun _ => .bind fun _ => .bind fun _ => gives_pure (by simp)

instance lays_methodFunction (marks : FunctionMarks) (owner : ParameterOwner) :
    Lays source markers h outset lo left (methodFunction g marks owner) := by
  unfold methodFunction
  infer_instance

/-! ### Members of classes -/

instance lays_staticBlock : Lays source markers h outset lo left (staticBlock g) := by
  unfold staticBlock
  infer_instance

instance lays_memberKey (head : MemberHead) :
    Lays source markers h outset lo left (memberKey g head) := by
  unfold memberKey
  refine .skip fun token => ?_
  split <;> infer_instance

instance steady_checkMethod (head : MemberHead) (function : Node) :
    Steady (checkMethod head function) := by
  unfold checkMethod
  infer_instance

instance lays_accessorMember (head : MemberHead) (accessor : Accessor) :
    Lays source markers h outset lo left (accessorMember g head accessor) := by
  unfold accessorMember
  infer_instance

instance steady_beginsConstructor : Steady beginsConstructor := by
  unfold beginsConstructor
  refine .step fun token => ?_
  split <;> infer_instance

instance lays_constructorMember (head : MemberHead) :
    Lays source markers h outset lo left (constructorMember g head) := by
  unfold constructorMember
  infer_instance

instance steady_checkField (head : MemberHead) (key : Node) (optional definite hasValue : Bool) :
    Steady (checkField head key optional definite hasValue) := by
  unfold checkField
  infer_instance

instance lays_field (head : MemberHead) {key : Node} [AtMost h left lo]
    [hkey : Given source markers h outset key left] (optional : Bool) :
    Lays source markers h outset lo left (field g head key optional) := by
  have hfound : Found source markers h key outset left := ⟨hkey.imp⟩
  unfold field
  infer_instance

instance lays_methodOrField (head : MemberHead) :
    Lays source markers h outset lo left (methodOrField g head) := by
  unfold methodOrField
  infer_instance

instance lays_memberBody (head : MemberHead) :
    Lays source markers h outset lo left (memberBody g head) := by
  unfold memberBody
  refine .skip fun accessor? => ?_
  split <;> infer_instance

/-- Every member of a class consists of something. -/
instance knows_memberBody (head : MemberHead) :
    Knows (memberBody g head) fun parts => parts ≠ [] := by
  refine ⟨.bind fun accessor? => ?_⟩
  split
  · exact .bind fun _ => .bind fun _ => .bind fun _ => .bind fun _ => .bind fun _ => .bind fun _ =>
      .bind fun _ => .bind fun _ => gives_pure (List.cons_ne_nil _ _)
  refine .bind fun isConstructor => ?_
  split
  · exact .bind fun _ => .bind fun _ => .bind fun _ => .bind fun _ => gives_pure (List.cons_ne_nil _ _)
  refine .bind fun isIndex => ?_
  split
  · exact .bind fun _ => .bind fun _ => .bind fun _ => .bind fun _ => gives_pure (List.cons_ne_nil _ _)
  refine gives_within (.bind fun _ => .bind fun _ => .bind fun _ => .bind fun isMethod => ?_)
  split
  · exact .bind fun _ => .bind fun _ => .bind fun _ => .bind fun _ => gives_pure (List.cons_ne_nil _ _)
  · exact .bind fun _ => .bind fun _ => .bind fun _ => .bind fun _ => .bind fun _ =>
      gives_pure (List.cons_ne_nil _ _)

instance lays_classMember : Lays source markers h outset lo left (classMember g) := by
  unfold classMember
  infer_instance

instance lays_classBody : Lays source markers h outset lo left (classBody g) := by
  unfold classBody
  infer_instance

/-! ### Classes -/

instance lays_heritageArguments : Lays source markers h outset lo left (heritageArguments? g) := by
  unfold heritageArguments?
  infer_instance

instance lays_superclass : Lays source markers h outset lo left (superclass g) := by
  unfold superclass
  infer_instance

instance lays_implemented : Lays source markers h outset lo left (implemented g) := by
  unfold implemented
  infer_instance

instance : Holding Heritage := ⟨fun heritage => heritage.parents.flatten ++ heritage.implemented⟩

/-- Superclasses are found first. -/
instance given_parents {heritage : Heritage} {first : List Node} {rest : List (List Node)}
    {middle : Nat}
    [hnone : Entails h ((heritage.parents.isEmpty && heritage.implemented.isEmpty) = true)]
    [hrow : Rows source markers h lo 0 (first ++ rest.flatten) middle] [hhi : AtMost h middle hi] :
    Given source markers h lo
      (Heritage.mk (heritage.parents ++ first :: rest) heritage.implemented) hi := by
  refine ⟨fun hbefore => ?_⟩
  obtain ⟨hparents, himplemented⟩ : heritage.parents = [] ∧ heritage.implemented = [] := by
    simpa using hnone.imp hbefore
  obtain ⟨-, hline, -⟩ := hrow.imp hbefore
  have hline := hline.mono (Nat.le_refl _) (hhi.imp hbefore)
  unfold Lies placedHolding Holding.nodes instHoldingHeritage
  simpa [hparents, himplemented] using hline

/-- Interfaces are found behind superclasses. -/
instance given_implemented {heritage : Heritage} {interfaces : List Node} {lo' hi' middle : Nat}
    [hnone : Entails h (heritage.implemented.isEmpty = true)]
    [hheritage : Found source markers h heritage lo' hi'] [hlo : AtMost h lo lo']
    [hrow : Rows source markers h lo hi' interfaces middle] [hhi : AtMost h middle hi] :
    Given source markers h lo
      (Heritage.mk heritage.parents (heritage.implemented ++ interfaces)) hi := by
  refine ⟨fun hbefore => ?_⟩
  have himplemented : heritage.implemented = [] := by simpa using hnone.imp hbefore
  obtain ⟨hle, hline, hbehind⟩ := hrow.imp hbefore
  have hparents : InLine source markers lo' hi' (heritage.parents.flatten ++ heritage.implemented) :=
    hheritage.imp hbefore
  rw [himplemented, List.append_nil] at hparents
  have hboth := (hparents.mono (hlo.imp hbefore) (Nat.le_refl _)).append_behind hline hbehind hle
  have hboth := hboth.mono (Nat.le_refl _) (hhi.imp hbefore)
  unfold Lies placedHolding Holding.nodes instHoldingHeritage
  simpa only [himplemented, List.nil_append] using hboth

/-- What reads superclasses behind the word `extends`. -/
def superclasses (g : Grammar) (heritage : Heritage) : Parser (Option Heritage) := do
  Parser.check (heritage.parents.isEmpty && heritage.implemented.isEmpty)
  let first ← superclass g
  let rest ← Parser.many do
    if ← eat "," then return some (← superclass g)
    return none
  return some { heritage with parents := heritage.parents ++ first :: rest }

/-- What reads interfaces behind the word `implements`. -/
def interfaces (g : Grammar) (heritage : Heritage) : Parser (Option Heritage) := do
  Parser.check heritage.implemented.isEmpty
  let interfaces ← commaSequence (implemented g)
  return some { heritage with implemented := heritage.implemented ++ interfaces }

/-- What reads one more kind of what a class states of others, if there is one. -/
def oneKind (g : Grammar) (heritage : Heritage) : Parser (Option Heritage) := do
  if ← eatWord "extends" then superclasses g heritage
  else if ← eatWord "implements" then interfaces g heritage
  else return none

theorem heritage_eq (g : Grammar) : heritage g = Parser.iterate (oneKind g) {} := rfl

section Kinds

variable {heritage : Heritage}

theorem lays_superclasses [Found source markers h heritage outset left] :
    Lays source markers h outset lo left (superclasses g heritage) :=
  .of_check inferInstance

theorem lays_interfaces [Found source markers h heritage outset left] [AtMost h left lo] :
    Lays source markers h outset lo left (interfaces g heritage) := by
  refine .of_check ?_
  unfold commaSequence
  infer_instance

theorem lays_oneKind [Found source markers h heritage outset left] [AtMost h left lo] :
    Lays source markers h outset lo left (oneKind g heritage) := by
  refine .skip fun extends' => ?_
  split
  · exact lays_superclasses
  refine .skip fun implements => ?_
  split
  · exact lays_interfaces
  · infer_instance

end Kinds

instance lays_heritage : Lays source markers h outset lo left (heritage g) := by
  rw [heritage_eq]
  exact .iterate (fun _ => .nil) fun heritage lo' left' => lays_oneKind

/-- The parts of a class from its superclasses on. -/
instance rows_heritage {heritage : Heritage} {rest : List Node} {behind lo' hi' : Nat}
    [hheritage : Found source markers h heritage lo' hi'] [hlo : AtMost h lo lo']
    [hbehind : AtMost h behind lo'] [hbehind' : AtMost h behind hi']
    [hrest : Rows source markers h lo hi' rest hi] : Rows source markers h lo behind
      (heritage.parents.flatten ++ (heritage.implemented ++ rest)) hi := by
  refine ⟨fun hbefore => ?_⟩
  obtain ⟨hle, hline, hrest⟩ := hrest.imp hbefore
  have hfirst : InLine source markers lo' hi' (heritage.parents.flatten ++ heritage.implemented) :=
    hheritage.imp hbefore
  rw [← List.append_assoc]
  refine ⟨(hbehind'.imp hbefore).trans hle,
    (hfirst.mono (hlo.imp hbefore) (Nat.le_refl _)).append_behind hline hrest hle, ?_⟩
  exact List.forall_mem_append.mpr
    ⟨fun node hnode => (hbehind.imp hbefore).trans (hfirst.front node hnode),
      fun node hnode => (hbehind'.imp hbefore).trans (hrest node hnode)⟩

/-- The parts of a class behind the word `class`. -/
def classParts (g : Grammar) (modifiers : List String) : Parser (List Node) := do
  checkModifiers ["abstract", "declare"] modifiers
  let named ← pure !(← isAtWord "implements") <&&> isAtName
  let name ← if named then pure [← bindingName] else pure []
  let typeParameters ← typeParameters? g
  let heritage ← heritage g
  Parser.check (heritage.parents.length ≤ 1)
  let body ← classBody g
  return name ++ (typeParameters ++ (heritage.parents.flatten ++ (heritage.implemented ++ [body])))

theorem classDefinition_eq (g : Grammar) (start : Nat) (decorators : List Node)
    (modifiers : List String) (style : DefinitionStyle) :
    classDefinition g start decorators modifiers style = (do
      expectWord "class"
      let parts ← classParts g modifiers
      finish start (.classDefinition style (modifiers.contains "declare")) (decorators ++ parts)) := by
  unfold classDefinition classParts
  simp only [bind_assoc, List.append_assoc]
  refine bind_congr fun _ => bind_congr fun _ => bind_congr fun _ => bind_congr fun named => ?_
  split <;> simp only [bind_assoc, pure_bind]

instance lays_classParts (modifiers : List String) :
    Lays source markers h outset lo left (classParts g modifiers) := by
  unfold classParts
  infer_instance

instance knows_classParts (modifiers : List String) :
    Knows (classParts g modifiers) fun parts => parts ≠ [] := by
  have hsome (name typeParameters parents implemented : List Node) (body : Node) :
      name ++ (typeParameters ++ (parents ++ (implemented ++ [body]))) ≠ [] := by simp
  refine ⟨.bind fun _ => .bind fun _ => .bind fun named => ?_⟩
  split
  · exact .bind fun _ => .bind fun _ => .bind fun _ => .bind fun _ => .bind fun _ => .bind fun _ =>
      gives_pure (hsome _ _ _ _ _)
  · exact .bind fun _ => .bind fun _ => .bind fun _ => .bind fun _ => .bind fun _ =>
      gives_pure (hsome _ _ _ _ _)

instance lays_classDeclaration {decorators : List Node} [AtMost h outset start] [AtMost h start lo]
    [AtMost h left lo] [hdecorators : Given source markers h outset decorators left]
    (modifiers : List String) :
    Lays source markers h outset lo left
      (classDefinition g start decorators modifiers .declaration) := by
  have hfound : Found source markers h decorators outset left := ⟨hdecorators.imp⟩
  rw [classDefinition_eq]
  infer_instance

/-- The decorators of a class that is an expression stand behind where it begins. -/
instance lays_classOperand {decorators : List Node} [AtMost h outset start] [AtMost h start lo]
    [AtMost h left lo] [hdecorators : Given source markers h start decorators left]
    (modifiers : List String) :
    Lays source markers h outset lo left
      (classDefinition g start decorators modifiers .expression) := by
  have hfound : Found source markers h decorators start left := ⟨hdecorators.imp⟩
  rw [classDefinition_eq]
  infer_instance

end ModuleLinkage.Syntax
