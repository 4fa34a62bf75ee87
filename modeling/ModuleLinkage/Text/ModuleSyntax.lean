import ModuleLinkage.Unicode.Class

/-!
A textual test for module syntax: does the text contain `import` or `export` as a word that no
period precedes? Words in comments and strings count too, so the test may answer yes too often.
-/

set_option autoImplicit false

namespace ModuleLinkage.Text

open Unicode

/-- Whether no word goes on across the start of `rest`. -/
def endsWord : List Char → Bool
  | [] => true
  | c :: _ => !isWordCharacter c

/-- Whether `rest` begins with `import` or `export` as a whole word. -/
def startsWithModuleKeyword : List Char → Bool
  | 'i' :: 'm' :: 'p' :: 'o' :: 'r' :: 't' :: rest => endsWord rest
  | 'e' :: 'x' :: 'p' :: 'o' :: 'r' :: 't' :: rest => endsWord rest
  | _ => false

/-- Whether a word that counts may begin after `previous`. -/
def allowsModuleKeyword : Option Char → Bool
  | none => true
  | some c => c != '.' && !isWordCharacter c

/-- Whether the text `rest`, which `previous` precedes, contains module syntax. -/
def hasModuleSyntaxAfter (previous : Option Char) : List Char → Bool
  | [] => false
  | c :: rest =>
    (allowsModuleKeyword previous && startsWithModuleKeyword (c :: rest)) ||
      hasModuleSyntaxAfter (some c) rest

/-- Whether `text` mentions `import` or `export` as a word, not preceded by a period. -/
def hasModuleSyntax (text : List Char) : Bool :=
  hasModuleSyntaxAfter none text

end ModuleLinkage.Text
