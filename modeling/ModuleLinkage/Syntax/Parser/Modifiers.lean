import ModuleLinkage.Syntax.Parser.Tokens

/-!
Modifiers: the words in front of a declaration, class member, parameter or type that change what it
is. A word is a modifier only if what follows can be modified; elsewhere it is a name. Which
modifiers belong where is checked when it is known what they modify.
-/

set_option autoImplicit false

namespace ModuleLinkage.Syntax

/-- Whether the present token can begin the name of a property. -/
def isAtPropertyKey : Parser Bool := do
  match ← present with
  | .word _ _ | .string _ | .number | .bigint | .privateName _ | .punctuator "[" => return true
  | _ => return false

/-- Whether a modifier can stand before the present token. -/
def isModifiable : Parser Bool := do
  match ← present with
  | .punctuator "[" | .punctuator "\x7b" | .punctuator "*" | .punctuator "..." => return true
  | _ => isAtPropertyKey

/-- Whether the present token begins what the modifier `default` can stand before. -/
def beginsDefault : Parser Bool := do
  match ← present with
  | .punctuator "@" => return true
  | .word "class" _ | .word "function" _ | .word "interface" _ => return true
  | .word "abstract" _ => nextOnLineSees (isAtWord "class")
  | .word "async" _ => nextOnLineSees (isAtWord "function")
  | _ => return false

/-- Whether the modifier `export` can stand before the present token. -/
def beginsExported : Parser Bool := do
  match ← present with
  | .punctuator "@" => return true
  | .punctuator "*" | .punctuator "\x7b" | .word "as" _ => return false
  | .word "default" _ => nextSees beginsDefault
  | _ => isModifiable

/-- Whether what follows makes the modifier word `word`, which stands here, a modifier. -/
def modifies (word : String) : Parser Bool :=
  match word with
  | "const" => nextSees (isAtWord "enum")
  | "export" => nextSees beginsExported
  | "default" => nextSees beginsDefault
  | "static" => nextSees isModifiable
  | _ => nextOnLineSees isModifiable

/-- The words that say from where a class member may be used. -/
def accessWords : List String :=
  ["public", "private", "protected"]

/-- Whether a modifier may stand behind others: none stands there twice, and only one of them says
from where the member may be used. -/
def mayFollow (modifier : String) (others : List String) : Bool :=
  !others.contains modifier &&
    !(accessWords.contains modifier && others.any accessWords.contains)

/-- Reads modifiers as long as `isNext`, which is told those before, says that a word is one. -/
def modifiersWhile (isNext : List String → String → Parser Bool) : Parser (List String) :=
  Parser.iterate
    (fun modifiers => do
      match ← present with
      | .word word _ =>
        if isModifierWord word && (← isNext modifiers word) then
          Parser.check (mayFollow word modifiers)
          advance
          return some (modifiers ++ [word])
        return none
      | _ => return none)
    []

/-- The modifiers in front of a declaration. -/
def declarationModifiers : Parser (List String) :=
  modifiersWhile fun _ word => modifies word

/-- The modifiers in front of a parameter or of a member of a type. There `const` is none, and
neither is a second `static`. -/
def plainModifiers : Parser (List String) :=
  modifiersWhile fun before word =>
    if word == "const" || (word == "static" && before.contains "static") then pure false
    else modifies word

/-- The modifiers in front of a type parameter, where `const` modifies any name. -/
def typeParameterModifiers : Parser (List String) :=
  modifiersWhile fun before word =>
    if word == "const" then nextOnLineSees isModifiable
    else if word == "static" && before.contains "static" then pure false
    else modifies word

/-- The modifiers in front of a class member: those of a type parameter, but `static` in front of
a block is none. -/
def memberModifiers : Parser (List String) :=
  modifiersWhile fun before word =>
    if word == "const" then nextOnLineSees isModifiable
    else if word == "static" then do
      if before.contains "static" || (← nextSees (isAt "\x7b")) then return false
      modifies word
    else modifies word

/-- Notes a fault if `modifiers` holds others than those `allowed`. -/
def checkModifiers (allowed modifiers : List String) : Parser Unit :=
  Parser.check (modifiers.all allowed.contains)

/-- The accessors of properties. -/
inductive Accessor where
  | getter
  | setter
  deriving Repr, DecidableEq

/-- The accessor that a word in front of a key makes of a property. -/
def accessor? : Parser (Option Accessor) := do
  if (← isAtWord "get") && (← nextSees isAtPropertyKey) then
    advance
    return some .getter
  if (← isAtWord "set") && (← nextSees isAtPropertyKey) then
    advance
    return some .setter
  return none

end ModuleLinkage.Syntax
