import ModuleLinkage.Syntax.Token

/-!
Words with a fixed role, and the operators with their binding strength.
-/

set_option autoImplicit false

namespace ModuleLinkage.Syntax

/-- The words that are never names of variables. -/
def reservedWords : List String :=
  ["break", "case", "catch", "class", "const", "continue", "debugger", "default", "delete", "do",
    "else", "enum", "export", "extends", "false", "finally", "for", "function", "if", "import",
    "in", "instanceof", "new", "null", "return", "super", "switch", "this", "throw", "true", "try",
    "typeof", "var", "void", "while", "with"]

/-- The words that are names of variables only where they are no operators. -/
def operatorWords : List String :=
  ["await", "yield"]

/-- The words that older rules keep free. They are names of variables like any other, except in a
list of exports. -/
def futureReservedWords : List String :=
  ["implements", "interface", "let", "package", "private", "protected", "public", "static"]

/-- The other words that have a role at some place. -/
def contextualWords : List String :=
  ["abstract", "accessor", "any", "as", "assert", "asserts", "async", "bigint", "boolean",
    "constructor", "declare", "defer", "from", "get", "global", "infer", "intrinsic", "is", "keyof",
    "meta", "module", "namespace", "never", "number", "object", "of", "out", "override", "readonly",
    "require", "satisfies", "set", "source", "string", "symbol", "target", "type", "undefined",
    "unique", "unknown", "using"]

/-- Whether `word` is never the name of a variable, whatever the context. -/
def isReserved (word : String) : Bool :=
  reservedWords.contains word

/-- Whether `word` is reserved at some place at least. -/
def isReservedSomewhere (word : String) : Bool :=
  isReserved word || operatorWords.contains word

/-- Whether `word` has a role at some place. In its role it is written without escapes. -/
def isKeyword (word : String) : Bool :=
  isReservedSomewhere word || futureReservedWords.contains word || contextualWords.contains word

/-- The words that a list of exports may not take from the scope of the module. -/
def notExportable (word : String) : Bool :=
  isReservedSomewhere word || futureReservedWords.contains word

/-- How strongly a binary operator binds; a greater number binds more tightly. -/
def binaryLevel? (operator : String) : Option Nat :=
  match operator with
  | "??" => some 1
  | "||" => some 2
  | "&&" => some 3
  | "|" => some 4
  | "^" => some 5
  | "&" => some 6
  | "==" | "!=" | "===" | "!==" => some 7
  | "<" | ">" | "<=" | ">=" | "instanceof" | "in" | "as" | "satisfies" => some 8
  | "<<" | ">>" | ">>>" => some 9
  | "+" | "-" => some 10
  | "*" | "/" | "%" => some 11
  | "**" => some 12
  | _ => none

/-- The operators that read their right operand only if the left one asks for it. -/
def isLogicalOperator (operator : String) : Bool :=
  ["&&", "||", "??"].contains operator

/-- The punctuators that are binary operators and always read both operands. -/
def isEagerOperator (mark : String) : Bool :=
  (binaryLevel? mark).isSome && !isLogicalOperator mark

/-- The operators that assign. -/
def isAssignmentOperator (operator : String) : Bool :=
  ["=", "+=", "-=", "*=", "/=", "%=", "**=", "<<=", ">>=", ">>>=", "&=", "|=", "^=", "&&=", "||=",
    "??="].contains operator

/-- The punctuators that are unary operators. -/
def isUnaryPunctuator (mark : String) : Bool :=
  ["+", "-", "~", "!"].contains mark

/-- The words that are unary operators. -/
def isUnaryWord (word : String) : Bool :=
  ["delete", "void", "typeof"].contains word

/-- The words that may stand before a declaration or a class member and change what it is. -/
def isModifierWord (word : String) : Bool :=
  ["abstract", "accessor", "async", "const", "declare", "default", "export", "in", "out",
    "override", "private", "protected", "public", "readonly", "static"].contains word

end ModuleLinkage.Syntax
