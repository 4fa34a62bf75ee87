import ModuleLinkage.Syntax.Parser.Pattern

/-!
Types. They are erased when a program runs; their nodes keep what stands in them, in order: bound
names, references to entities, and expressions.
-/

set_option autoImplicit false

namespace ModuleLinkage.Syntax

/-- Reads less-than as the opening of type arguments, also where it begins a longer operator. -/
def isAtTypeOpening : Parser Bool := do
  match ← present with
  | .punctuator "<" => return true
  | .punctuator "<<" =>
    let state ← Parser.get
    replaceToken (.punctuator "<") ⟨'<' :: state.lexeme.next.rest, state.lexeme.span.start + 1⟩
    return true
  | _ => return false

/-- One or more items in angle brackets, separated by commas. -/
def angleList (item : Parser Node) : Parser (List Node) := do
  Parser.require (← isAtTypeOpening)
  advance
  let items ← commaListUntil ">" item
  Parser.require !items.isEmpty
  return items

/-- A type that may be a conditional one, whatever stands around it. -/
def anyType (g : Grammar) : Parser Node :=
  Parser.within (fun context => { context with noConditionalType := false }) (g .type)

/-- A type that is no conditional one. -/
def constraintType (g : Grammar) : Parser Node :=
  Parser.within (fun context => { context with noConditionalType := true }) (g .type)

/-- Types in angle brackets. -/
def typeArguments (g : Grammar) : Parser Node := do
  let start ← offset
  let types ← angleList (g .type)
  finish start .typeArguments types

/-- Types in angle brackets on the same line, if there are any. -/
def typeArguments? (g : Grammar) : Parser (List Node) := do
  if !(← onNewLine) && ((← isAt "<") || (← isAt "<<")) then return [← typeArguments g]
  return []

/-- A parameter of a generic entity, with its constraint and default. -/
def typeParameter (g : Grammar) : Parser Node := do
  let start ← offset
  checkModifiers ["const", "in", "out"] (← typeParameterModifiers)
  let name ← bindingName
  let bound ← if ← eatWord "extends" then pure [← g .type] else pure []
  let default ← if ← eat "=" then pure [← g .type] else pure []
  finish start .typeParameter (name :: (bound ++ default))

/-- Type parameters in angle brackets, if there are any. -/
def typeParameters? (g : Grammar) : Parser (List Node) := do
  if (← typescript) && (← isAt "<") then
    let start ← offset
    let items ← angleList (typeParameter g)
    return [← finish start .typeParameters items]
  return []

/-- The name of an entity: a name and the names of members of it, separated by periods. Any word
may be such a name. -/
def entityName : Parser Node := do
  let start ← offset
  let first ←
    match ← present with
    | .word "this" _ => leaf .thisExpression
    | .word word _ => nameLeaf (.reference word)
    | _ => Parser.fail
  Parser.iterate
    (fun name => do
      if ← eat "." then
        let member ← propertyWord
        return some (← finish start (.type .other) [name, member])
      return none)
    first

/-- A reference to a type, with type arguments. -/
def typeReference (g : Grammar) : Parser Node := do
  let start ← offset
  let name ← entityName
  let arguments ← typeArguments? g
  finish start (.type .other) (name :: arguments)

/-- The test that a function's result type may state of a parameter: `x is T`. -/
def typePredicate? (g : Grammar) : Parser (Option Node) := do
  let start ← offset
  let name? ← Parser.attempt do
    Parser.require (← isAtName)
    let name ← propertyWord
    Parser.require !(← onNewLine)
    expectWord "is"
    return name
  match name? with
  | some name =>
    let type ← g .type
    return some (← finish start (.type .other) [name, type])
  | none => return none

/-- The type that a function gives, behind `mark`, or the test that it makes. -/
def resultType (g : Grammar) (mark : String) : Parser Node := do
  expect mark
  match ← typePredicate? g with
  | some predicate => return predicate
  | none => g .type

/-- The result type behind a colon, if there is one. -/
def resultType? (g : Grammar) : Parser (List Node) := do
  if (← typescript) && (← isAt ":") then return [← resultType g ":"]
  return []

/-- Whether the present token, which stands behind an opening parenthesis, begins a parameter of a
function type, rather than a type in parentheses. -/
def beginsParameters (g : Grammar) : Parser Bool := do
  if (← isAt ")") || (← isAt "...") then return true
  discard plainModifiers
  if (← isAtIdentifier) || (← isAtWord "this") then pass
  else
    Parser.require ((← isAt "[") || (← isAt "\x7b"))
    discard (g .pattern)
    Parser.require !(← Parser.get).faulty
  match ← present with
  | .punctuator ":" | .punctuator "," | .punctuator "?" | .punctuator "=" => return true
  | .punctuator ")" =>
    advance
    isAt "=>"
  | _ => return false

/-- Whether a function or constructor type begins here. -/
def beginsFunctionType (g : Grammar) : Parser Bool := do
  match ← present with
  | .punctuator "<" | .word "new" _ => return true
  | .punctuator "(" => nextSees (beginsParameters g)
  | .word "abstract" _ => nextSees (isAtWord "new")
  | _ => return false

/-- A function or constructor type. A constructor has no type of `this`. -/
def functionType (g : Grammar) : Parser Node := do
  let start ← offset
  discard (eatWord "abstract")
  let constructs ← eatWord "new"
  let typeParameters ← typeParameters? g
  let parameters ← parameters g .function
  Parser.check !(constructs && hasThisParameter parameters)
  let result ← resultType g "=>"
  finish start (.type .other) (typeParameters ++ [parameters, result])

/-! ### Members of object types -/

/-- The end of a member of a type: a comma, a semicolon, or nothing. -/
def endTypeMember : Parser Unit := do
  if !(← eat ",") then discard (eat ";")

/-- Judges by the tokens from an opening bracket whether it begins a signature for all names of a
kind, rather than a name in brackets. -/
def opensIndexSignature : Parser Bool := do
  expect "["
  match ← present with
  | .punctuator "..." | .punctuator "[" => return true
  | .word word _ =>
    advance
    if isModifierWord word then
      if ← isAtIdentifier then return true
    else Parser.require !(isReservedSomewhere word)
  | _ => Parser.fail
  match ← present with
  | .punctuator ":" | .punctuator "," => return true
  | .punctuator "?" => nextSees do return (← isAt ":") || (← isAt ",") || (← isAt "]")
  | _ => return false

/-- Whether a signature for all names of a kind begins here. -/
def beginsIndexSignature : Parser Bool :=
  Parser.sees opensIndexSignature

/-- A signature for all names of a kind: `[name: T]: U`. -/
def indexSignature (g : Grammar) : Parser Node := do
  let start ← offset
  expect "["
  let name ← propertyWord
  let key ← typeAnnotation? g
  expect "]"
  let type ← typeAnnotation? g
  Parser.require !(key.isEmpty || type.isEmpty)
  finish start (.type .other) (name :: (key ++ type))

/-- Whether parameters or type parameters begin here. -/
def beginsSignature : Parser Bool := do
  return (← isAt "(") || (← isAt "<")

/-- The type parameters, parameters and result type of a signature. A constructor has no type of
`this`. -/
def signature (g : Grammar) (constructs : Bool) : Parser (List Node) := do
  let typeParameters ← typeParameters? g
  let parameters ← parameters g .function
  Parser.check !(constructs && hasThisParameter parameters)
  let result ← resultType? g
  return typeParameters ++ [parameters] ++ result

/-- An accessor of a type, behind its word. A setter gives nothing. -/
def accessorSignature (g : Grammar) (accessor : Accessor) : Parser (List Node) := do
  let key ← propertyKey g
  let parameters ← parameters g .function
  let result ← resultType? g
  Parser.check (accessor == .getter || result.isEmpty)
  return key :: parameters :: result

/-- A property, method or signature of a type, behind its modifiers. Methods are not read-only. -/
def typeProperty (g : Grammar) (modifiers : List String) : Parser (List Node) := do
  if let some accessor ← accessor? then
    Parser.check modifiers.isEmpty
    accessorSignature g accessor
  else if ← beginsIndexSignature then return [← indexSignature g]
  else
    let key ← propertyKey g
    discard (eat "?")
    if ← beginsSignature then
      Parser.check modifiers.isEmpty
      return key :: (← signature g false)
    return key :: (← typeAnnotation? g)

/-- A member of an object type or interface. -/
def typeMember (g : Grammar) : Parser Node := do
  let start ← offset
  let parts ←
    if ← beginsSignature then signature g false
    else if (← isAtWord "new") && (← nextSees beginsSignature) then
      advance
      signature g true
    else
      let modifiers ← plainModifiers
      checkModifiers ["readonly"] modifiers
      typeProperty g modifiers
  endTypeMember
  finish start (.type .other) parts

/-- The members of an object type or interface, in braces. -/
def typeMembers (g : Grammar) : Parser (List Node) := do
  expect "\x7b"
  let members ← Parser.many do
    if ← isAt "\x7d" then return none
    return some (← typeMember g)
  expect "\x7d"
  return members

/-- Whether a mapped type begins here. -/
def beginsMappedType : Parser Bool := do
  advance
  if (← isAt "+") || (← isAt "-") then return ← nextSees (isAtWord "readonly")
  discard (eatWord "readonly")
  expect "["
  Parser.require (← isAtIdentifier)
  nextSees (isAtWord "in")

/-- Reads `readonly` or a question mark, which a sign may precede. -/
def mappedMark (mark : Parser Bool) : Parser Unit := do
  if ← eat "+" <||> eat "-" then Parser.require (← mark)
  else discard mark

/-- An object type with one property for each name of a type. -/
def mappedType (g : Grammar) : Parser Node := do
  let start ← offset
  expect "\x7b"
  mappedMark (eatWord "readonly")
  expect "["
  let name ← bindingName
  expectWord "in"
  let keys ← g .type
  let renamed ← if ← eatWord "as" then pure [← g .type] else pure []
  expect "]"
  mappedMark (eat "?")
  let type ← typeAnnotation? g
  discard (eat ";")
  expect "\x7d"
  finish start (.type .other) (name :: keys :: (renamed ++ type))

/-! ### Tuple types -/

/-- What an element of a tuple type asks of those behind it. -/
inductive TupleElement where
  | required
  | optional
  /-- Elements of a list; no optional ones and no further list may follow. -/
  | list
  /-- Elements of a tuple or of a type that is not known to be a list. -/
  | spread
  deriving Repr, DecidableEq

/-- Whether an element may stand behind others. -/
def TupleElement.mayFollow (element : TupleElement) (others : List TupleElement) : Bool :=
  match element with
  | .required => !others.contains .optional
  | .optional | .list => !others.contains .list
  | .spread => true

/-- Whether each of the elements may stand behind those before it. -/
def isTuple (elements : List TupleElement) : Bool :=
  (List.range elements.length).all fun index =>
    match elements[index]? with
    | some element => element.mayFollow (elements.take index)
    | none => true

/-- Whether a type is spelled as that of a list. -/
def isListType : Node → Bool
  | .mk _ form parts =>
    match form, parts.map Node.form with
    | .type .list, _ => true
    | .type .other, .reference name :: _ => name == "Array"
    | _, _ => false

/-- An element of a tuple type behind its name, if it has one. -/
def tupleElementType (g : Grammar) : Parser (Node × TupleElement) := do
  if ← eat "..." then
    let type ← g .type
    return (type, if isListType type then .list else .spread)
  let type ← g .type
  match type.form with
  | .type .optional => return (type, .optional)
  | _ => return (type, .required)

/-- Whether an element of a tuple type with a name follows. -/
def beginsNamedElement : Parser Bool := do
  discard (eat "...")
  Parser.require (← isAtAnyWord)
  pass
  discard (eat "?")
  isAt ":"

/-- An element of a tuple type. One with a name is spread or optional in front of its colon, but
not both. -/
def tupleElement (g : Grammar) : Parser (Node × TupleElement) := do
  let start ← offset
  if ← Parser.sees beginsNamedElement then
    let isSpread ← eat "..."
    let name ← propertyWord
    let isOptional ← eat "?"
    Parser.check !(isSpread && isOptional)
    expect ":"
    let (type, element) ← tupleElementType g
    let node ← finish start (.type .other) [name, type]
    if isSpread then return (node, if isListType type then .list else .spread)
    return (node, if isOptional then .optional else element)
  else
    let (type, element) ← tupleElementType g
    return (← finish start (.type .other) [type], element)

/-- A tuple type. -/
def tupleType (g : Grammar) : Parser Node := do
  let start ← offset
  expect "["
  let elements ← commaListUntil "]" (tupleElement g)
  Parser.check (isTuple (elements.map Prod.snd))
  finish start (.type .tuple) (elements.map Prod.fst)

/-! ### Other simple types -/

/-- The type of an imported module or of an entity in it. -/
def importType (g : Grammar) : Parser Node := do
  let start ← offset
  expectWord "import"
  expect "("
  let source ← stringAs .string
  let options ←
    if ← eat "," then pure [← g .objectLiteral] else pure []
  expect ")"
  let names ← Parser.many do
    if ← eat "." then return some (← propertyWord)
    return none
  let arguments ← typeArguments? g
  finish start (.type .other) (source :: (options ++ names ++ arguments))

/-- The type of an entity. -/
def typeQuery (g : Grammar) : Parser Node := do
  let start ← offset
  expectWord "typeof"
  if ← isAtWord "import" then
    let type ← importType g
    finish start (.type .other) [type]
  else
    let name ← entityName
    let arguments ← typeArguments? g
    finish start (.type .other) (name :: arguments)

/-- A template of types. -/
def templateType (g : Grammar) : Parser Node := do
  let start ← offset
  let types ← Parser.many do
    match ← present with
    | .template last _ =>
      if last then return none
      advance
      let type ← g .type
      Parser.require (← isAt "\x7d")
      continueTemplate
      return some type
    | _ => Parser.fail
  advance
  finish start (.type .other) types

/-- The test of a parameter that a function throws on, or a reference to a type of that name. -/
def assertsType (g : Grammar) : Parser Node := do
  let start ← offset
  if ← nextOnLineSees do return (← isAtIdentifier) || (← isAtWord "this") then
    advance
    let name ← propertyWord
    let type ← if ← eatWord "is" then pure [← g .type] else pure []
    finish start (.type .other) (name :: type)
  else typeReference g

/-- The type of `this`, or the test of it that a function makes. -/
def thisType (g : Grammar) : Parser Node := do
  let start ← offset
  let this ← leaf .thisExpression
  if (← isAtWord "is") && !(← onNewLine) then
    advance
    let type ← g .type
    finish start (.type .other) [this, type]
  else finish start (.type .other) [this]

/-- A type behind a question mark: any type at all if none follows. -/
def questionedType (g : Grammar) : Parser Node := do
  let start ← offset
  expect "?"
  match ← present with
  | .punctuator "," | .punctuator "\x7d" | .punctuator ")" | .punctuator ">" | .punctuator "="
  | .punctuator "|" => finish start (.type .other) []
  | _ =>
    let type ← g .type
    finish start (.type .other) [type]

/-- The words that are types of their own unless a period follows. -/
def typeWords : List String :=
  ["any", "bigint", "boolean", "never", "number", "object", "string", "symbol", "undefined",
    "unknown"]

/-- The words that are types of their own whatever follows. -/
def constantTypeWords : List String :=
  ["void", "null", "true", "false"]

/-- A type that begins with a word. -/
def wordType (g : Grammar) (word : String) : Parser Node := do
  match word with
  | "this" => thisType g
  | "typeof" => typeQuery g
  | "import" => importType g
  | "asserts" => assertsType g
  | _ =>
    if constantTypeWords.contains word then leaf (.type .other)
    else if typeWords.contains word && !(← nextSees (isAt ".")) then leaf (.type .other)
    else typeReference g

/-- A type that no operator and no brackets belong to. -/
def simpleType (g : Grammar) : Parser Node := do
  let start ← offset
  match ← present with
  | .punctuator "\x7b" =>
    if ← Parser.sees beginsMappedType then mappedType g
    else
      let members ← typeMembers g
      finish start (.type .other) members
  | .punctuator "[" => tupleType g
  | .punctuator "(" =>
    advance
    let type ← g .type
    expect ")"
    finish start (.type .other) [type]
  | .punctuator "?" => questionedType g
  | .punctuator "-" =>
    advance
    match ← present with
    | .number | .bigint => leaf (.type .other)
    | _ => Parser.fail
  | .string _ | .number | .bigint => leaf (.type .other)
  | .template _ _ => templateType g
  | .word word _ => wordType g word
  | _ => Parser.fail

/-- A simple type, behind any number of exclamation marks. -/
def markedType (g : Grammar) : Parser Node := do
  let start ← offset
  let marks ← Parser.many do
    if ← eat "!" then return some ()
    return none
  let type ← simpleType g
  if marks.isEmpty then return type
  finish start (.type .other) [type]

/-! ### Types with operators -/

/-- The reserved words that types begin with. -/
def typeStartWords : List String :=
  ["false", "function", "import", "new", "null", "this", "true", "typeof", "void"]

/-- Whether a type can begin with the present token, unless that is a parenthesis. -/
def beginsBareType : Parser Bool := do
  match ← present with
  | .string _ | .number | .bigint | .template _ _ => return true
  | .word word _ => return !isReservedSomewhere word || typeStartWords.contains word
  | .punctuator "-" =>
    nextSees do
      match ← present with
      | .number | .bigint => return true
      | _ => return false
  | .punctuator mark => return ["\x7b", "[", "<", "|", "&", "*", "?"].contains mark
  | _ => return false

/-- Whether a type can begin here. In parentheses a parameter can begin too, or nothing stand. -/
def beginsType : Parser Bool := do
  if !(← isAt "(") then return ← beginsBareType
  Parser.sees do
    discard <| Parser.many do
      if ← eat "(" then return some ()
      return none
    match ← present with
    | .punctuator ")" | .punctuator "..." | .punctuator "@" => return true
    | .word word _ => return isModifierWord word || (← beginsBareType)
    | _ => beginsBareType

/-- What stands behind a type on the same line: brackets that make a list of it or a member of it,
an exclamation mark, or a question mark that no type follows. -/
def typeSuffix? (g : Grammar) (start : Nat) (type : Node) : Parser (Option Node) := do
  if ← onNewLine then return none
  match ← present with
  | .punctuator "!" =>
    advance
    return some (← finish start (.type .other) [type])
  | .punctuator "?" =>
    if ← nextSees beginsType then return none
    advance
    return some (← finish start (.type .optional) [type])
  | .punctuator "[" =>
    advance
    if ← beginsType then
      let key ← g .type
      expect "]"
      return some (← finish start (.type .other) [type, key])
    expect "]"
    return some (← finish start (.type .list) [type])
  | _ => return none

/-- A simple type with what stands behind it. -/
def suffixedType (g : Grammar) : Parser Node := do
  let start ← offset
  Parser.within (fun context => { context with noConditionalType := false }) do
    let first ← markedType g
    Parser.iterate (typeSuffix? g start) first

/-- The constraint of an inferred type, if what follows is one rather than a condition. -/
def inferConstraint? (g : Grammar) : Parser (List Node) := do
  let found ← Parser.attempt do
    expectWord "extends"
    let type ← constraintType g
    Parser.require ((← context).noConditionalType || !(← isAt "?"))
    return type
  return found.toList

/-- Whether a type is spelled with brackets, as only those that can be read-only are. -/
def isBracketed (type : Node) : Bool :=
  match type.form with
  | .type .list | .type .tuple => true
  | _ => false

/-- A type with the words that operate on it. -/
def prefixedType (g : Grammar) : Parser Node := do
  let start ← offset
  match ← present with
  | .word "keyof" _ | .word "unique" _ =>
    advance
    let type ← g .prefixedType
    finish start (.type .other) [type]
  | .word "readonly" _ =>
    advance
    let type ← g .prefixedType
    Parser.check (isBracketed type)
    finish start (.type .other) [type]
  | .word "infer" _ =>
    advance
    let inner ← offset
    let name ← bindingName
    let bound ← inferConstraint? g
    let parameter ← finish inner .typeParameter (name :: bound)
    finish start (.type .other) [parameter]
  | _ => suffixedType g

/-- Types joined by `mark`, which may also stand before the first. -/
def joinedTypes (mark : String) (item : Parser Node) : Parser Node := do
  let start ← offset
  let leading ← eat mark
  let first ← item
  let rest ← Parser.many do
    if ← eat mark then return some (← item)
    return none
  if rest.isEmpty && !leading then return first
  finish start (.type .other) (first :: rest)

/-- A function type, a union or a conditional type. -/
def type (g : Grammar) : Parser Node := do
  let start ← offset
  if ← beginsFunctionType g then functionType g
  else
    let checked ← joinedTypes "|" (joinedTypes "&" (g .prefixedType))
    let mayBeConditional := !(← context).noConditionalType && !(← onNewLine)
    if ← pure mayBeConditional <&&> eatWord "extends" then
      let bound ← constraintType g
      expect "?"
      let first ← anyType g
      expect ":"
      let second ← anyType g
      finish start (.type .other) [checked, bound, first, second]
    else return checked

end ModuleLinkage.Syntax
