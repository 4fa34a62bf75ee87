import ModuleLinkage.Syntax.Parser.Function

/-!
Classes and their members. The marks of the grammar with types (modifiers, question and exclamation
marks, interfaces) are read in every grammar, since none of them can mean anything else.
-/

set_option autoImplicit false

namespace ModuleLinkage.Syntax

/-- A block that runs when a class is made. -/
def staticBlock (g : Grammar) : Parser Node := do
  let start ← offset
  expectWord "static"
  expect "\x7b"
  let items ← Parser.within
    (fun context =>
      { context with inOperator := true, inFunction := false, await := true, yield := false })
    (statements g)
  expect "\x7d"
  finish start .staticBlock items

/-- What is known of a class member when its key is read. -/
structure MemberHead where
  decorators : List Node
  modifiers : List String
  deriving Inhabited

/-- Whether a member has a modifier. -/
def MemberHead.has (head : MemberHead) (modifier : String) : Bool :=
  head.modifiers.contains modifier

/-- The modifiers that mean something in front of some member. -/
def memberModifierWords : List String :=
  ["abstract", "accessor", "async", "declare", "override", "readonly", "static"] ++ accessWords

/-- The key of a class member. A private name has no access modifier and is not `constructor`. -/
def memberKey (g : Grammar) (head : MemberHead) : Parser Node := do
  match ← present with
  | .privateName name =>
    Parser.check !((← typescript) && head.modifiers.any accessWords.contains)
    Parser.check (name != "constructor")
    leaf (.privateName name)
  | _ => propertyKey g

/-- Whether a key is the plain name `name`, as a word or as a string. -/
def isPlainKey (name : String) (key : Node) : Bool :=
  match key.form with
  | .propertyName found | .string found => found == name
  | _ => false

/-- Notes the faults of a method or accessor: an abstract one has no body, one without a body has
no decorators, and none is read-only. -/
def checkMethod (head : MemberHead) (function : Node) : Parser Unit := do
  Parser.check !(head.has "abstract" && hasBody function)
  Parser.check (head.decorators.isEmpty || hasBody function)
  Parser.check !(head.has "readonly")

/-- A getter or setter, behind its word. -/
def accessorMember (g : Grammar) (head : MemberHead) (accessor : Accessor) :
    Parser (List Node) := do
  let key ← memberKey g head
  let function ← methodFunction g {} .method
  checkMethod head function
  Parser.check (accessor.fits (← typescript) function)
  Parser.check !(head.has "async")
  Parser.check !(isPlainKey "constructor" key && !head.has "static")
  Parser.check !(isPlainKey "prototype" key && head.has "static")
  return [key, function]

/-- Whether the constructor of a class begins here. -/
def beginsConstructor : Parser Bool := do
  match ← present with
  | .word "constructor" _ => nextSees beginsSignature
  | .string value => if value.text == "constructor" then nextSees (isAt "(") else return false
  | _ => return false

/-- Whether a function has type parameters or a parameter for `this`. -/
def isGenericOrBound (function : Node) : Bool :=
  function.parts.any fun part =>
    match part.form with
    | .typeParameters => true
    | .parameters => hasThisParameter part
    | _ => false

/-- A constructor. It has no modifiers but one that says from where it may be used, no decorators,
no type parameters and no type of `this`. -/
def constructorMember (g : Grammar) (head : MemberHead) : Parser (List Node) := do
  let key ← propertyKey g
  let function ← methodFunction g {} .constructor
  checkModifiers accessWords head.modifiers
  Parser.check (head.decorators.isEmpty && !isGenericOrBound function)
  return [key, function]

/-- Notes the faults of a field. Where a class is only described, a field may have the names that
the class gives a meaning of its own. -/
def checkField (head : MemberHead) (key : Node) (optional definite hasValue : Bool) :
    Parser Unit := do
  Parser.check !(optional && definite)
  Parser.check !(head.has "async" || (head.has "abstract" && hasValue))
  if head.has "accessor" then
    Parser.check !(optional || head.has "readonly" || head.has "declare")
  else if !head.has "declare" && !(← context).ambient then
    Parser.check !(isPlainKey "constructor" key)
    Parser.check !(isPlainKey "prototype" key && head.has "static")

/-- A field behind its key. -/
def field (g : Grammar) (head : MemberHead) (key : Node) (optional : Bool) :
    Parser (List Node) := do
  let definite ← eat "!"
  let type ← typeAnnotation? g
  let value ← insideFunction {} (initializer? g)
  checkField head key optional definite !value.isEmpty
  semicolon
  return key :: (type ++ value)

/-- A method or field. -/
def methodOrField (g : Grammar) (head : MemberHead) : Parser (List Node) := do
  let generator ← eat "*"
  let key ← memberKey g head
  let optional ← eat "?"
  if generator || (← beginsSignature) then
    let function ← methodFunction g { async := head.has "async", generator } .method
    checkMethod head function
    Parser.check !(isPlainKey "constructor" key && !head.has "static")
    Parser.check !(isPlainKey "prototype" key && head.has "static")
    return [key, function]
  field g head key optional

/-- A member of a class behind its modifiers. -/
def memberBody (g : Grammar) (head : MemberHead) : Parser (List Node) := do
  if let some accessor ← accessor? then accessorMember g head accessor
  else if !head.has "static" && (← beginsConstructor) then constructorMember g head
  else if ← beginsIndexSignature then
    checkModifiers ["readonly", "static"] head.modifiers
    Parser.check head.decorators.isEmpty
    let signature ← indexSignature g
    endTypeMember
    return [signature]
  else
    Parser.within
      (fun context => { context with ambient := context.ambient || head.has "declare" })
      (methodOrField g head)

/-- A member of a class. A static block has neither decorators nor modifiers. -/
def classMember (g : Grammar) : Parser Node := do
  let start ← offset
  let decorators ← decorators g
  let modifiers ← memberModifiers
  if (← isAtWord "static") && (← nextSees (isAt "\x7b")) then
    Parser.check (decorators.isEmpty && modifiers.isEmpty)
    staticBlock g
  else
    checkModifiers memberModifierWords modifiers
    let parts ← memberBody g { decorators, modifiers }
    finish start .classMember (decorators ++ parts)

/-- The members of a class, in braces. -/
def classBody (g : Grammar) : Parser Node := do
  let start ← offset
  expect "\x7b"
  let members ← Parser.many do
    if ← isAt "\x7d" then return none
    if ← eat ";" then return some []
    return some [← classMember g]
  expect "\x7d"
  finish start .classBody members.flatten

/-- Types in angle brackets behind the name of a superclass or interface. -/
def heritageArguments? (g : Grammar) : Parser (List Node) := do
  if ← isAt "<" then return [← typeArguments g]
  return []

/-- A superclass with its type arguments. -/
def superclass (g : Grammar) : Parser (List Node) := do
  let parent ← g .leftHandSide
  return parent :: (← heritageArguments? g)

/-- An interface of a class. -/
def implemented (g : Grammar) : Parser Node := do
  let start ← offset
  let name ← entityName
  let arguments ← heritageArguments? g
  finish start (.type .other) (name :: arguments)

/-- What a class or interface states of others. -/
structure Heritage where
  /-- The superclasses, each with its type arguments. -/
  parents : List (List Node) := []
  /-- The interfaces. -/
  implemented : List Node := []
  deriving Inhabited

/-- The superclasses and interfaces, each kind stated once and the superclasses first. -/
def heritage (g : Grammar) : Parser Heritage :=
  Parser.iterate
    (fun (heritage : Heritage) => do
      if ← eatWord "extends" then
        Parser.check (heritage.parents.isEmpty && heritage.implemented.isEmpty)
        let first ← superclass g
        let rest ← Parser.many do
          if ← eat "," then return some (← superclass g)
          return none
        return some { heritage with parents := heritage.parents ++ first :: rest }
      if ← eatWord "implements" then
        Parser.check heritage.implemented.isEmpty
        let interfaces ← commaSequence (implemented g)
        return some { heritage with implemented := heritage.implemented ++ interfaces }
      return none)
    {}

/-- A class behind its decorators and modifiers, which begin at `start`. -/
def classDefinition (g : Grammar) (start : Nat) (decorators : List Node) (modifiers : List String)
    (style : DefinitionStyle) : Parser Node := do
  expectWord "class"
  checkModifiers ["abstract", "declare"] modifiers
  let named ← pure !(← isAtWord "implements") <&&> isAtName
  let name ← if named then pure [← bindingName] else pure []
  let typeParameters ← typeParameters? g
  let heritage ← heritage g
  Parser.check (heritage.parents.length ≤ 1)
  let body ← classBody g
  finish start (.classDefinition style (modifiers.contains "declare"))
    (decorators ++ name ++ typeParameters ++ heritage.parents.flatten ++ heritage.implemented ++
      [body])

end ModuleLinkage.Syntax
