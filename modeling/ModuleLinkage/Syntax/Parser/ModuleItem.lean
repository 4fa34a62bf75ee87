import ModuleLinkage.Syntax.Parser.Declaration

/-!
Import and export declarations.
-/

set_option autoImplicit false

namespace ModuleLinkage.Syntax

/-- The name of an export: any word, or a string in which no surrogate stands alone. -/
def exportedName : Parser Node := do
  match ← present with
  | .word word _ => nameLeaf (.propertyName word)
  | .string value =>
    Parser.check value.wellFormed
    leaf (.string value.text)
  | _ => Parser.fail

/-- Whether the name of an export stands here. -/
def isAtExportedName : Parser Bool := do
  return (← isAtAnyWord) || (← isAtString)

/-- An item of a list of imports or exports: the name before `as`, the name behind it, which may be
the same, and whether the item is of types only. -/
structure NamePair where
  first : Node
  second : Node
  typeOnly : Bool := false
  deriving Inhabited

/-- The name behind `as`, if there is one. -/
def renamed (first : Node) (typeOnly : Bool) : Parser NamePair := do
  if ← eatWord "as" then return { first, second := ← exportedName, typeOnly }
  return { first, second := first, typeOnly }

/-- An item that begins with the word `type`, which may be its name or make it one of types: what
follows decides, since `as` may be a name too. -/
def typeNamePair (type : Node) : Parser NamePair := do
  if ← isAtWord "as" then
    let firstAs ← exportedName
    if ← isAtWord "as" then
      let secondAs ← exportedName
      if ← isAtExportedName then
        return { first := firstAs, second := ← exportedName, typeOnly := true }
      return { first := type, second := secondAs }
    if ← isAtExportedName then return { first := type, second := ← exportedName }
    return { first := firstAs, second := firstAs, typeOnly := true }
  if ← isAtExportedName then
    let first ← exportedName
    renamed first true
  else return { first := type, second := type }

/-- An item of a list of imports or exports, where `typeOnly` says that the whole list is one of
types, so that none of its items says so once more. -/
def namePair (typeOnly : Bool) : Parser NamePair := do
  let mayBeType := (← typescript) && (← isAtWord "type")
  let first ← exportedName
  let pair ← if mayBeType then typeNamePair first else renamed first false
  Parser.check !(typeOnly && pair.typeOnly)
  return pair

/-- The variable that an item of a list of imports binds. Its name is reserved nowhere. -/
def localBinding (node : Node) : Parser Node := do
  match node.form with
  | .propertyName name =>
    Parser.check !(isReservedSomewhere name)
    return .mk node.span (.binding name) []
  | _ => Parser.fail

/-- An item of a list of imports. -/
def importSpecifier (typeOnly : Bool) : Parser Node := do
  let start ← offset
  let pair ← namePair typeOnly
  let binding ← localBinding pair.second
  finish start (.importName pair.typeOnly) [pair.first, binding]

/-- An item of a list of exports. -/
def exportSpecifier (typeOnly : Bool) : Parser Node := do
  let start ← offset
  let pair ← namePair typeOnly
  finish start (.exportName pair.typeOnly) [pair.first, pair.second]

/-- Whether no name stands in a list twice. -/
def allDistinct : List String → Bool
  | [] => true
  | name :: rest => !rest.contains name && allDistinct rest

/-- A key and a value of the attributes of an import. -/
def importAttribute : Parser Node := do
  let start ← offset
  let key ← match ← present with
    | .word word _ => nameLeaf (.propertyName word)
    | .string value => leaf (.string value.text)
    | _ => Parser.fail
  expect ":"
  let value ← stringAs .string
  finish start .property [key, value]

/-- The attributes of an import or of an export from another module, if there are any. No key
stands there twice. -/
def attributes? : Parser (List Node) := do
  let start ← offset
  if (← isAtWord "with") || ((← isAtWord "assert") && !(← onNewLine)) then
    advance
    expect "\x7b"
    let parts ← commaListUntil "\x7d" importAttribute
    Parser.check (allDistinct (parts.filterMap fun part => part.parts.head?.bind Node.name?))
    return [← finish start .importAttributes parts]
  return []

/-- The specifier of another module with its attributes. -/
def moduleSource : Parser (List Node) := do
  let source ← stringAs .moduleSource
  return source :: (← attributes?)

/-- All of another module under one name. -/
def namespaceSpecifier : Parser Node := do
  let start ← offset
  expect "*"
  expectWord "as"
  let binding ← bindingName
  finish start .importNamespace [binding]

/-- A list of imports in braces. -/
def importSpecifiers (typeOnly : Bool) : Parser (List Node) := do
  expect "\x7b"
  commaListUntil "\x7d" (importSpecifier typeOnly)

/-- What an import binds, behind its default import if it has one, and where it comes from. One of
types has a default or others, but not both. -/
def importRest (typeOnly : Bool) (default : List Node) : Parser (List Node) := do
  let hasMore ← pure default.isEmpty <||> eat ","
  Parser.check !(typeOnly && hasMore && !default.isEmpty)
  let more ←
    if !hasMore then pure []
    else if ← isAt "*" then pure [← namespaceSpecifier]
    else importSpecifiers typeOnly
  expectWord "from"
  return default ++ more ++ (← moduleSource)

/-- Reads a word that says when an import is evaluated, where one stands. -/
def importPhase : Parser Unit := do
  let isPhase ←
    if ← isAtWord "defer" then nextSees (isAt "*")
    else if ← isAtWord "source" then
      nextSees do
        if ← isAtWord "from" then nextSees (isAtWord "from") else isAtName
    else pure false
  if isPhase then advance

/-- Reads the word `type` where it makes an import one of types. -/
def importOfTypes : Parser Bool := do
  if !(← typescript) || !(← isAtWord "type") then return false
  let isModifier ← nextSees do
    if ← isAtWord "from" then nextSees do return (← isAtWord "from") || (← isAt "=")
    else return (← isAtName) || (← isAt "\x7b") || (← isAt "*")
  if isModifier then advance
  return isModifier

/-- An import, behind the word `import`. -/
def importBody (start : Nat) : Parser Node := do
  if ← isAtString then
    let source ← moduleSource
    semicolon
    return ← finish start (.importDeclaration false) source
  importPhase
  let typeOnly ← importOfTypes
  let default ← do
    if ← isAtName then
      let start ← offset
      let binding ← bindingName
      pure [← finish start .importDefault [binding]]
    else pure []
  match default with
  | [name] =>
    if (← typescript) && (← isAt "=") then
      importAlias start (name.parts.headD name)
    else
      let parts ← importRest typeOnly default
      semicolon
      finish start (.importDeclaration typeOnly) parts
  | _ =>
    let parts ← importRest typeOnly default
    semicolon
    finish start (.importDeclaration typeOnly) parts

/-- Whether a module may export `node` as a variable of its own. -/
def isExportable (node : Node) : Bool :=
  match node.form with
  | .exportName _ =>
    match node.parts.map Node.form with
    | .propertyName name :: _ => !notExportable name
    | _ => false
  | _ => true

/-- Where a list of exports comes from, if the word `from` and a string follow. Without the string
the word says nothing, but no other literal may stand in its place. -/
def exportSource? : Parser (List Node) := do
  if !(← eatWord "from") then return []
  match ← present with
  | .string _ => moduleSource
  | .number | .bigint | .word "null" _ | .word "true" _ | .word "false" _ => Parser.fail
  | _ => return []

/-- A list of exports in braces, which may come from another module. -/
def exportList (start : Nat) (typeOnly : Bool) : Parser Node := do
  expect "\x7b"
  let names ← commaListUntil "\x7d" (exportSpecifier typeOnly)
  let source ← exportSource?
  Parser.check (!source.isEmpty || names.all isExportable)
  semicolon
  finish start (.exportNames typeOnly) (names ++ source)

/-- An export of all of another module. -/
def exportStar (start : Nat) (typeOnly : Bool) : Parser Node := do
  expect "*"
  let name ← if ← eatWord "as" then pure [← exportedName] else pure []
  expectWord "from"
  let source ← moduleSource
  semicolon
  finish start (.exportAll typeOnly) (name ++ source)

/-- The decorators `before` in front of `export` or those behind it, which are not both there. -/
def exportedDecorators (g : Grammar) (before : List Node) : Parser (List Node) := do
  let own ← decorators g
  Parser.check (before.isEmpty || own.isEmpty)
  return before ++ own

/-- Whether a class begins here, perhaps an abstract one. -/
def beginsClass : Parser Bool := do
  if ← isAtWord "abstract" then nextOnLineSees (isAtWord "class") else isAtWord "class"

/-- What a default export gives, behind its decorators, which only a class has. -/
def defaultBody (g : Grammar) (inner : Nat) (decorators : List Node) : Parser Node := do
  if ← beginsClass then
    let modifiers ← plainModifiers
    return ← classDefinition g inner decorators modifiers .declaration
  Parser.check decorators.isEmpty
  if ← isAtWord "interface" <&&> nextOnLineSees (pure true) then interfaceDeclaration g inner
  else if ← beginsFunction then functionDeclaration g inner false false true
  else
    let expression ← element g
    semicolon
    return expression

/-- The default export of a module, behind the word `default`. -/
def exportDefault (g : Grammar) (start : Nat) (before : List Node) : Parser Node := do
  let inner ← offset
  let decorators ← exportedDecorators g before
  let node ← defaultBody g inner decorators
  finish start .exportDefault [node]

/-- An export of what a declaration declares. -/
def exportDeclaration (g : Grammar) (start : Nat) (before : List Node) : Parser Node := do
  let inner ← offset
  let decorators ← exportedDecorators g before
  let (node, typeOnly) ← declaration g inner decorators (← context).await
  finish start (.exportDeclaration typeOnly) [node]

/-- An export of a further name for an entity or module. -/
def exportImport (start : Nat) : Parser Node := do
  let inner ← offset
  expectWord "import"
  let node ← importBody inner
  match node.form with
  | .importAlias => finish start (.exportDeclaration false) [node]
  | _ => Parser.fail

/-- An expression in place of all exports. -/
def exportAssignment (g : Grammar) (start : Nat) : Parser Node := do
  expect "="
  let expression ← element g
  semicolon
  finish start .exportAssignment [expression]

/-- The global name of a module. -/
def exportGlobalName (start : Nat) : Parser Node := do
  expectWord "as"
  expectWord "namespace"
  let name ← propertyWord
  semicolon
  finish start .exportGlobalName [name]

/-- An export of types only, or of a declaration that begins with the word `type`. -/
def exportOfTypes (g : Grammar) (start : Nat) (before : List Node) : Parser Node := do
  if ← nextSees do return (← isAt "\x7b") || (← isAt "*") then
    expectWord "type"
    if ← isAt "*" then exportStar start true else exportList start true
  else exportDeclaration g start before

/-- An export, behind the word `export`. The decorators `before` stand in front of it; a list of
exports drops them. -/
def exportBody (g : Grammar) (start : Nat) (before : List Node) : Parser Node := do
  match ← present with
  | .word "default" _ =>
    advance
    exportDefault g start before
  | .punctuator "\x7b" => exportList start false
  | .punctuator "*" => exportStar start false
  | token =>
    if !(← typescript) then return ← exportDeclaration g start before
    match token with
    | .punctuator "=" => exportAssignment g start
    | .word "as" _ => exportGlobalName start
    | .word "import" _ => exportImport start
    | .word "type" _ => exportOfTypes g start before
    | _ => exportDeclaration g start before

end ModuleLinkage.Syntax
