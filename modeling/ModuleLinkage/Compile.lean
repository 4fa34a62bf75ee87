import ModuleLinkage.Lowering.Hoisted
import ModuleLinkage.Lowering.ModuleItems
import ModuleLinkage.Lowering.Writes
import ModuleLinkage.Options
import ModuleLinkage.Syntax.Parser
import ModuleLinkage.Text.ModuleSyntax

/-!
Compilation of one source text: module declarations become calls of the module reference, and every
other character stays where it is. A text without module syntax is returned unchanged.
-/

set_option autoImplicit false

namespace ModuleLinkage

open Text Syntax Lowering

/-- Why a text is not compiled. -/
inductive CompileError where
  /-- The text is no program; the offset of a token that does not fit. -/
  | unreadable (offset : Nat)
  | invalidAlias (reference : String)
  | malformedOptions
  deriving Repr, DecidableEq

/-- Compiled text, and what it is to be run as. -/
structure CompileOutput where
  code : List Char
  kind : SourceKind
  deriving Repr, DecidableEq

/-- What stands behind the first line feed, that included. -/
def fromLineFeed (text : List Char) : List Char :=
  text.dropWhile (· != '\n')

/-- The text without the line that names an interpreter, if it begins with one; the line feed that
ends that line stays. -/
def withoutInterpreterLine : List Char → List Char
  | '#' :: '!' :: rest => fromLineFeed rest
  | text => text

/-- The grammars to read a text with. -/
def CompileOptions.settings (options : CompileOptions) (asModule : Bool) : Settings :=
  { typescript := options.typescript, jsx := options.jsx, module := asModule }

/-- Whether a text is to be read as a module at first. -/
def CompileOptions.wantsModule (options : CompileOptions) (text : List Char) : Bool :=
  match options.sourceGoal with
  | .script => false
  | .module => true
  | .unambiguous => hasModuleSyntax text

/-- Whether a text with module syntax may still turn out to be a script. -/
def CompileOptions.isUnambiguous (options : CompileOptions) : Bool :=
  options.sourceGoal == .unambiguous

/-- Whether a directive is part of a program's beginning. -/
def isDirective (node : Node) : Bool :=
  match node.form with
  | .directive => true
  | _ => false

/-- The last of the directives that a program begins with. -/
def lastDirective? (program : Node) : Option Node :=
  (program.parts.filter isDirective).getLast?

/-- Whether a text, blanks at its end left aside, ends with a semicolon. -/
def endsWithSemicolon (text : List Char) : Bool :=
  (text.reverse.dropWhile Unicode.isBlank).head? == some ';'

/-- The edit that puts generated code ahead of a program, behind its directives. A directive
without a semicolon gets one. -/
def hoistingEdit (source : List Char) (program : Node) (code : List Char) : Edit :=
  match lastDirective? program with
  | some directive =>
    if endsWithSemicolon (slice source directive.span) then .hoisting directive.span.stop code
    else .hoisting directive.span.stop (';' :: code)
  | none => .hoisting 0 code

/-- The declarations of variables that stand at the top level, exported or not. -/
def topLevelVariables (program : Node) : List Node :=
  program.parts.filterMap fun statement =>
    match statement.form, statement.parts with
    | .variableDeclaration _ _, _ => some statement
    | .exportDeclaration _, [declaration] =>
      match declaration.form with
      | .variableDeclaration _ _ => some declaration
      | _ => none
    | _, _ => none

/-- Whether the variables of a declaration never change. -/
def isConstant (declaration : Node) : Bool :=
  match declaration.form with
  | .variableDeclaration .var _ | .variableDeclaration .let _ => false
  | _ => true

/-- The names of the variables at the top level that never change. -/
def constantNames (program : Node) : List String :=
  (topLevelVariables program).flatMap fun declaration =>
    if isConstant declaration then Scope.variableNames declaration else []

/-- The edits that lower a program: those of its module declarations, then those of the writes to
its exports, and at last the generated code. A program without module declarations has none. -/
def loweringEdits (subject : Subject) (program : Node) : List Edit :=
  let found := programFindings subject program
  let exports := found.filterMap Finding.export?
  let requests := found.filterMap Finding.request?
  let edits := found.filterMap Finding.edit?
  if edits.isEmpty then []
  else
    let exported := exports.map Export.localName
    let code := hoistedCode subject.reference (constantNames program) exports requests
    edits ++ programWraps subject.reference exported program ++
      (if code.isEmpty then [] else [hoistingEdit subject.source program code])

/-- Lowers a program that was read as a module. -/
def lowerModule (options : CompileOptions) (source : List Char) (program : Node) :
    CompileOutput :=
  let reference := String.ofList (uniqueName options.moduleAlias.toList source)
  let edits := loweringEdits ⟨source, reference⟩ program
  let code := ((EditList.ofSource source).recordAll edits).render
  let kind := if edits.isEmpty && options.isUnambiguous then .script else .module
  ⟨code, kind⟩

/-- Compiles a text that has no interpreter line. -/
def compileText (options : CompileOptions) (text : List Char) :
    Except CompileError CompileOutput :=
  if options.wantsModule text then
    match parse (options.settings true) text with
    | .ok program => .ok (lowerModule options text program)
    | .error offset =>
      if options.isUnambiguous then
        match parse (options.settings false) text with
        | .ok _ => .ok ⟨text, .script⟩
        | .error _ => .error (.unreadable offset)
      else .error (.unreadable offset)
  else
    match parse (options.settings false) text with
    | .ok _ => .ok ⟨text, .script⟩
    | .error offset => .error (.unreadable offset)

/-- Compiles a source text. The alias is checked first. -/
def compile (options : CompileOptions) (source : List Char) :
    Except CompileError CompileOutput :=
  match options.validate with
  | .ok () => compileText options (withoutInterpreterLine source)
  | .error (.invalidAlias name) => .error (.invalidAlias name)
  | .error .malformed => .error .malformedOptions

/-- Compiles texts one by one. -/
def compileAll (options : CompileOptions) (sources : List (List Char)) :
    List (Except CompileError CompileOutput) :=
  sources.map (compile options)

end ModuleLinkage
