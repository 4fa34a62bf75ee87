import ModuleLinkage.Syntax.Parser.Statement
import ModuleLinkage.Scope.BoundNames

/-!
Whole programs. Here the grammar is tied: every nonterminal is read by its production, with the
grammar one level down for what stands inside it. Each level reads a token or goes on to one of a
fixed number of further productions, so the length of the text bounds how many levels are needed.
-/

set_option autoImplicit false

namespace ModuleLinkage.Syntax

/-- The production of each nonterminal. -/
def production (g : Grammar) : Grammar
  | .expression => expression g
  | .assignment resultTypes => assignment g resultTypes
  | .operators above => operators g above
  | .unary => unary g
  | .leftHandSide => leftHandSide g
  | .member => member g
  | .objectLiteral => objectLiteral g
  | .statement place => statement g place
  | .pattern => pattern g
  | .type => type g
  | .prefixedType => prefixedType g
  | .markup => markup g
  | .namespaceRest => namespaceRest g

/-- The grammar with a bound on how deep productions nest. -/
def grammar : Nat → Grammar
  | 0, _ => Parser.fail
  | depth + 1, nonterminal => production (grammar depth) nonterminal

/-- The names under which a program exports, in order and with repetition. -/
def exportedNames (statement : Node) : List String :=
  match statement.form with
  | .exportDefault => ["default"]
  | .exportDeclaration _ => statement.parts.flatMap Scope.declarationNames
  | .exportNames _ =>
    statement.parts.flatMap fun part =>
      match part.form, part.parts with
      | .exportName _, [_, exported] => exported.name?.toList
      | _, _ => []
  | .exportAll _ =>
    match statement.parts with
    | [] => []
    | first :: _ =>
      match first.form with
      | .moduleSource _ => []
      | _ => first.name?.toList
  | _ => []

/-- What no production can judge alone: default values stand in targets only, and, in the grammar
without types, no two exports have one name, where those inside other statements do not count. -/
def isSound (settings : Settings) (program : Node) : Bool :=
  !program.hasStrayDefault &&
    (settings.typescript || allDistinct (program.parts.flatMap exportedNames))

/-- The whole text as a program. -/
def program (g : Grammar) : Parser Node := do
  let start ← Parser.get
  let items ← statements g
  Parser.require ((← present) == .endOfText)
  let state ← Parser.get
  let node := Node.mk ⟨0, start.total⟩ .program (withDirectives items)
  Parser.require (!state.faulty && isSound start.settings node)
  return node

/-- How deep productions may nest in a text of `length` bytes. -/
def depthBound (length : Nat) : Nat :=
  32 * (length + 1)

/-- Reads a text as a program; where it is none, the offset of a token that does not fit. -/
def parse (settings : Settings) (text : List Char) : Except Nat Node :=
  let total := Text.width text
  let start : State :=
    { settings
      context := { await := settings.module }
      lexeme := readLexeme (!settings.module) true ⟨text, 0⟩
      previousStop := 0
      total
      notArrows := [] }
  match program (grammar (depthBound total)) start with
  | .done node _ => .ok node
  | .failed offset _ => .error offset

end ModuleLinkage.Syntax
