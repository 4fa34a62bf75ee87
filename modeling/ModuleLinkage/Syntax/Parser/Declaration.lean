import ModuleLinkage.Syntax.Parser.Expression

/-!
Declarations of variables, and the declarations of the grammar with types: interfaces, type
aliases, enumerations and namespaces.
-/

set_option autoImplicit false

namespace ModuleLinkage.Syntax

/-! ### Variables -/

/-- Whether a node binds a single name. -/
def isBinding (node : Node) : Bool :=
  node.boundName?.isSome

/-- Whether a declaration of the given kind may leave out the value of a pattern. -/
def mayLackValue (kind : VariableKind) (pattern : Node) : Bool :=
  match kind with
  | .var | .let => isBinding pattern
  | .const | .using | .awaitUsing => false

/-- Whether a declaration of the given kind manages a resource. -/
def VariableKind.isResource : VariableKind → Bool
  | .using | .awaitUsing => true
  | .var | .let | .const => false

/-- One variable or pattern of a declaration, with its type and value. An exclamation mark behind a
plain name says that a value will be there: it stands in place of the value and before a type.
`inHead` says that the declaration stands in the head of a loop. -/
def declarator (g : Grammar) (kind : VariableKind) (inHead : Bool) : Parser Node := do
  let start ← offset
  let pattern ← g .pattern
  Parser.check (isBinding pattern || !kind.isResource)
  let definite ←
    if (← typescript) && isBinding pattern && !(← onNewLine) then eat "!" else pure false
  let type ← typeAnnotation? g
  let value ← initializer? g
  Parser.check !(definite && (type.isEmpty || !value.isEmpty))
  let mayLack := inHead || (← context).ambient || mayLackValue kind pattern
  Parser.check (mayLack || !value.isEmpty)
  finish start .declarator (pattern :: (type ++ value))

/-- The variables of a declaration behind its keyword. -/
def variableDeclaration (g : Grammar) (start : Nat) (kind : VariableKind) (inHead ambient : Bool) :
    Parser Node := do
  let declarators ← commaSequence (declarator g kind inHead)
  finish start (.variableDeclaration kind ambient) declarators

/-- A declaration of variables behind its keyword, as a statement. -/
def variableStatement (g : Grammar) (start : Nat) (kind : VariableKind) (ambient : Bool) :
    Parser Node := do
  let node ← withInOperator (variableDeclaration g start kind false ambient)
  semicolon
  finish start node.form node.parts

/-! ### Types -/

/-- What an alias of a type stands for: a type, or the word for one that is built in. -/
def aliasedType (g : Grammar) : Parser Node := do
  if (← isAtWord "intrinsic") && !(← nextSees (isAt ".")) then leaf (.type .other) else g .type

/-- An alias of a type. -/
def typeAlias (g : Grammar) (start : Nat) : Parser Node := do
  expectWord "type"
  let name ← bindingName
  let typeParameters ← typeParameters? g
  expect "="
  let type ← aliasedType g
  semicolon
  finish start .typeAlias (name :: (typeParameters ++ [type]))

/-- Whether an expression is the name of an entity. -/
def isEntity : Node → Bool
  | .mk _ form parts =>
    match form, parts with
    | .reference _, _ => true
    | .member, object :: _ => isEntity object
    | .instantiation, entity :: _ => isEntity entity
    | _, _ => false

/-- An interface. It extends entities and implements none. -/
def interfaceDeclaration (g : Grammar) (start : Nat) : Parser Node := do
  expectWord "interface"
  let name ← bindingName
  let typeParameters ← typeParameters? g
  let heritage ← heritage g
  Parser.check heritage.implemented.isEmpty
  Parser.check (heritage.parents.all fun parent => parent.head?.all isEntity)
  let members ← typeMembers g
  finish start .interface (name :: (typeParameters ++ heritage.parents.flatten ++ members))

/-! ### Enumerations and namespaces -/

/-- A member of an enumeration. -/
def enumMember (g : Grammar) : Parser Node := do
  let start ← offset
  let key ←
    match ← present with
    | .word word _ => nameLeaf (.propertyName word)
    | .string value => leaf (.string value.text)
    | .punctuator "[" =>
      advance
      let key ← match ← present with
        | .string value => leaf (.string value.text)
        | .template true _ => leaf .template
        | _ => Parser.fail
      expect "]"
      pure key
    | _ => Parser.fail
  let value ← if ← eat "=" then pure [← element g] else pure []
  finish start .enumMember (key :: value)

/-- An enumeration. -/
def enumeration (g : Grammar) (start : Nat) (ambient : Bool) : Parser Node := do
  expectWord "enum"
  let name ← bindingName
  expect "\x7b"
  let members ← commaListUntil "\x7d" (enumMember g)
  finish start (.enumeration ambient) (name :: members)

/-- The statements of a namespace, in braces. -/
def namespaceBody (g : Grammar) : Parser Node := do
  let start ← offset
  expect "\x7b"
  let items ← statements g
  expect "\x7d"
  finish start .namespaceBody items

/-- The name and body of a namespace: behind a period a namespace inside it is named, which has the
body. -/
def namespaceRest (g : Grammar) : Parser Node := do
  let start ← offset
  let name ← bindingName
  let body ← if ← eat "." then g .namespaceRest else namespaceBody g
  finish start (.namespaceDeclaration false) [name, body]

/-- The declaration of a module that a string names, which may leave out its body. -/
def namedModule (g : Grammar) (start : Nat) (ambient : Bool) : Parser Node := do
  let name ← stringAs .string
  let body ←
    if ← isAt "\x7b" then pure [← namespaceBody g]
    else
      semicolon
      pure []
  finish start (.namespaceDeclaration ambient) (name :: body)

/-- A namespace, or the declaration of a module that a string names. -/
def namespaceDeclaration (g : Grammar) (start : Nat) (ambient : Bool) : Parser Node := do
  let mayBeNamed ← isAtWord "module"
  advance
  if mayBeNamed && (← isAtString) then namedModule g start ambient
  else
    let inner ← namespaceRest g
    finish start (.namespaceDeclaration ambient) inner.parts

/-- A declaration of global entities. -/
def globalDeclaration (g : Grammar) (start : Nat) : Parser Node := do
  expectWord "global"
  let body ← namespaceBody g
  finish start .globalDeclaration [body]

/-! ### Aliases of imports -/

/-- Another name for an entity or a module, behind the name itself. -/
def importAlias (start : Nat) (name : Node) : Parser Node := do
  expect "="
  let entity ←
    if ← eatWord "require" then
      expect "("
      let source ← stringAs .moduleSource
      expect ")"
      pure source
    else entityName
  semicolon
  finish start .importAlias [name, entity]

/-- Another name for an entity or a module, behind the word `import`. -/
def aliasDeclaration (start : Nat) : Parser Node := do
  expectWord "import"
  let isType ← isAtWord "type" <&&> nextSees isAtName
  if isType then advance
  let name ← bindingName
  importAlias start name

/-! ### Any declaration -/

/-- The modifiers that a declaration may stand behind. -/
def beforeDeclaration : List String :=
  ["abstract", "accessor", "async", "declare", "private", "protected", "public", "readonly"]

/-- Whether a declaration begins here, perhaps behind modifiers; `some none` where that still hangs
on what follows. -/
def declarationStep : Parser (Option (Option Bool)) := do
  match ← present with
  | .word word _ =>
    if ["var", "let", "const", "function", "class", "enum"].contains word then
      return some (some true)
    advance
    let sameLine := !(← onNewLine)
    match word with
    | "interface" | "type" => return some (some ((← isAtName) && sameLine))
    | "module" | "namespace" =>
      return some (some (((← isAtName) || (← isAtString)) && sameLine))
    | "global" =>
      match ← present with
      | .punctuator "\x7b" | .word "export" _ => return some (some true)
      | .word next _ => return some (some !(isKeyword next))
      | _ => return some (some false)
    | "import" =>
      return some (some
        ((← isAtString) || (← isAt "*") || (← isAt "\x7b") || (← isAtIdentifier)))
    | "static" => return some none
    | _ =>
      if beforeDeclaration.contains word && sameLine then return some none
      return some (some false)
  | _ => return some (some false)

/-- Whether a declaration of the grammar with types begins here, perhaps behind modifiers. -/
def beginsDeclaration : Parser Bool := do
  let found ← Parser.iterate
    (fun (found : Option Bool) => if found.isSome then return none else declarationStep) none
  return found.getD false

/-- A declaration behind its modifiers, the first of which begins at `start`, and decorators, which
only classes have. -/
def declarationBody (g : Grammar) (start : Nat) (decorators : List Node)
    (modifiers : List String) : Parser Node := do
  let types ← typescript
  let ambient := modifiers.contains "declare"
  let only (allowed : List String) : Parser Unit := do
    Parser.check decorators.isEmpty
    checkModifiers allowed modifiers
  let declared (kind : VariableKind) : Parser Node := do
    only ["declare"]
    advance
    variableStatement g start kind ambient
  match ← present with
  | .word "var" _ => declared .var
  | .word "let" _ => declared .let
  | .word "const" _ => declared .const
  | .word "class" _ => classDefinition g start decorators modifiers .declaration
  | .word word _ =>
    if ← beginsFunction then
      only ["async", "declare"]
      functionDeclaration g start (modifiers.contains "async") ambient false
    else
      Parser.require types
      if word == "enum" then
        only ["const", "declare"]
        enumeration g start ambient
      else
        only ["declare"]
        match word with
        | "interface" => interfaceDeclaration g start
        | "type" => typeAlias g start
        | "namespace" | "module" => namespaceDeclaration g start ambient
        | "global" => globalDeclaration g start
        | "import" => aliasDeclaration start
        | _ => Parser.fail
  | _ => Parser.fail

/-- A declaration with its modifiers, in which `await` is an operator if `awaits` says so. The
answer tells too whether `declare` stands in front of it: then it only describes what exists
elsewhere. -/
def declaration (g : Grammar) (start : Nat) (decorators : List Node) (awaits : Bool) :
    Parser (Node × Bool) := do
  let modifiers ← if ← typescript then declarationModifiers else pure []
  let ambient := modifiers.contains "declare"
  let node ← Parser.within
    (fun context => { context with ambient := context.ambient || ambient, await := awaits })
    (declarationBody g start decorators modifiers)
  return (node, ambient)

end ModuleLinkage.Syntax
