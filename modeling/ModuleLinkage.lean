import ModuleLinkage.Compile
import ModuleLinkage.Decimal.Numeral
import ModuleLinkage.Decimal.Shortest
import ModuleLinkage.Document
import ModuleLinkage.Ledger.Description
import ModuleLinkage.Ledger.Effect
import ModuleLinkage.Ledger.Entries
import ModuleLinkage.Ledger.Error
import ModuleLinkage.Ledger.Evaluation
import ModuleLinkage.Ledger.Execution
import ModuleLinkage.Ledger.Lifetime
import ModuleLinkage.Ledger.Linking
import ModuleLinkage.Ledger.Naming
import ModuleLinkage.Ledger.Program
import ModuleLinkage.Ledger.Propagation
import ModuleLinkage.Ledger.Report
import ModuleLinkage.Ledger.Snapshot
import ModuleLinkage.Ledger.Store
import ModuleLinkage.Ledger.Table
import ModuleLinkage.Ledger.Value
import ModuleLinkage.Ledger.World
import ModuleLinkage.Lowering.Hoisted
import ModuleLinkage.Lowering.ModuleItems
import ModuleLinkage.Lowering.Registration
import ModuleLinkage.Lowering.Writes
import ModuleLinkage.Options
import ModuleLinkage.Proofs.DefaultDeclarations
import ModuleLinkage.Proofs.HoistedCode
import ModuleLinkage.Proofs.Imports
import ModuleLinkage.Proofs.InjectedNames
import ModuleLinkage.Proofs.Ledger.Commands
import ModuleLinkage.Proofs.Ledger.Course.Acting
import ModuleLinkage.Proofs.Ledger.Course.Completion
import ModuleLinkage.Proofs.Ledger.Course.Hearing
import ModuleLinkage.Proofs.Ledger.Course.Move
import ModuleLinkage.Proofs.Ledger.Course.Reach
import ModuleLinkage.Proofs.Ledger.Course.Running
import ModuleLinkage.Proofs.Ledger.Course.Scoping
import ModuleLinkage.Proofs.Ledger.Course.Sight
import ModuleLinkage.Proofs.Ledger.Course.Stages
import ModuleLinkage.Proofs.Ledger.Delivery
import ModuleLinkage.Proofs.Ledger.DynamicImport.Apart
import ModuleLinkage.Proofs.Ledger.DynamicImport.Live
import ModuleLinkage.Proofs.Ledger.DynamicImport.Mirror
import ModuleLinkage.Proofs.Ledger.DynamicImport.Rounds
import ModuleLinkage.Proofs.Ledger.DynamicImport.View
import ModuleLinkage.Proofs.Ledger.Frame
import ModuleLinkage.Proofs.Ledger.ImportGraph.Drift
import ModuleLinkage.Proofs.Ledger.ImportGraph.Loading
import ModuleLinkage.Proofs.Ledger.ImportGraph.Opening
import ModuleLinkage.Proofs.Ledger.ImportGraph.Progress
import ModuleLinkage.Proofs.Ledger.ImportGraph.Rounds
import ModuleLinkage.Proofs.Ledger.ImportGraph.Settling
import ModuleLinkage.Proofs.Ledger.ImportGraph.Shape
import ModuleLinkage.Proofs.Ledger.ImportGraph.Subscribing
import ModuleLinkage.Proofs.Ledger.ImportGraph.Wired
import ModuleLinkage.Proofs.Ledger.Intake
import ModuleLinkage.Proofs.Ledger.Outcome
import ModuleLinkage.Proofs.Ledger.Reentry.Attached
import ModuleLinkage.Proofs.Ledger.Reentry.Outlet
import ModuleLinkage.Proofs.Ledger.Reentry.Overtaking
import ModuleLinkage.Proofs.Ledger.Registrations
import ModuleLinkage.Proofs.Ledger.Replacement.History
import ModuleLinkage.Proofs.Ledger.Replacement.Recording
import ModuleLinkage.Proofs.Ledger.Replacement.Repetition
import ModuleLinkage.Proofs.Ledger.Replacement.Undoing
import ModuleLinkage.Proofs.Ledger.Replacement.Writing
import ModuleLinkage.Proofs.Ledger.Round
import ModuleLinkage.Proofs.Ledger.Rounds.Abort
import ModuleLinkage.Proofs.Ledger.Rounds.Constants
import ModuleLinkage.Proofs.Ledger.Rounds.Deliveries
import ModuleLinkage.Proofs.Ledger.Rounds.Evaluation
import ModuleLinkage.Proofs.Ledger.Rounds.Reference
import ModuleLinkage.Proofs.Ledger.Rounds.Steps
import ModuleLinkage.Proofs.Ledger.SameValue
import ModuleLinkage.Proofs.Ledger.ScopedKey
import ModuleLinkage.Proofs.Ledger.StarExports
import ModuleLinkage.Proofs.Ledger.Tables
import ModuleLinkage.Proofs.Ledger.Unfolding
import ModuleLinkage.Proofs.Lowering.Ambient
import ModuleLinkage.Proofs.Lowering.Arrangement
import ModuleLinkage.Proofs.Lowering.Changes
import ModuleLinkage.Proofs.Lowering.DefaultNames
import ModuleLinkage.Proofs.Lowering.Demands
import ModuleLinkage.Proofs.Lowering.Emptied
import ModuleLinkage.Proofs.Lowering.Exports
import ModuleLinkage.Proofs.Lowering.GeneratedLine
import ModuleLinkage.Proofs.Lowering.GeneratedParts
import ModuleLinkage.Proofs.Lowering.Hygiene
import ModuleLinkage.Proofs.Lowering.LineTokens
import ModuleLinkage.Proofs.Lowering.Lines
import ModuleLinkage.Proofs.Lowering.Linkage
import ModuleLinkage.Proofs.Lowering.Methods
import ModuleLinkage.Proofs.Lowering.PieceTokens
import ModuleLinkage.Proofs.Lowering.Preservation
import ModuleLinkage.Proofs.Lowering.Regions
import ModuleLinkage.Proofs.Lowering.Requests
import ModuleLinkage.Proofs.Lowering.Retention
import ModuleLinkage.Proofs.Lowering.Shadowing
import ModuleLinkage.Proofs.Lowering.SoleNames
import ModuleLinkage.Proofs.Lowering.Standing
import ModuleLinkage.Proofs.Lowering.Statements
import ModuleLinkage.Proofs.Lowering.TopLevel
import ModuleLinkage.Proofs.Lowering.Wrapping
import ModuleLinkage.Proofs.Lowering.Writes
import ModuleLinkage.Proofs.ModuleWords
import ModuleLinkage.Proofs.OutputKind
import ModuleLinkage.Proofs.Recompiling
import ModuleLinkage.Proofs.Scope.Places
import ModuleLinkage.Proofs.Scope.Resolution
import ModuleLinkage.Proofs.SettledTexts
import ModuleLinkage.Proofs.Syntax.Anchoring.Boundaries
import ModuleLinkage.Proofs.Syntax.Anchoring.Declarations
import ModuleLinkage.Proofs.Syntax.Anchoring.Expressions
import ModuleLinkage.Proofs.Syntax.Anchoring.Keywords
import ModuleLinkage.Proofs.Syntax.Anchoring.Lexemes
import ModuleLinkage.Proofs.Syntax.Anchoring.Members
import ModuleLinkage.Proofs.Syntax.Anchoring.Programs
import ModuleLinkage.Proofs.Syntax.Anchoring.Rules
import ModuleLinkage.Proofs.Syntax.Anchoring.Tokens
import ModuleLinkage.Proofs.Syntax.Anchoring.Tree
import ModuleLinkage.Proofs.Syntax.Anchoring.Types
import ModuleLinkage.Proofs.Syntax.Headings
import ModuleLinkage.Proofs.Syntax.Insertion
import ModuleLinkage.Proofs.Syntax.Keys
import ModuleLinkage.Proofs.Syntax.Layout
import ModuleLinkage.Proofs.Syntax.Name
import ModuleLinkage.Proofs.Syntax.Numeral
import ModuleLinkage.Proofs.Syntax.Prologue
import ModuleLinkage.Proofs.Syntax.Quotation
import ModuleLinkage.Proofs.Syntax.Reading
import ModuleLinkage.Proofs.Syntax.Tally.Declarations
import ModuleLinkage.Proofs.Syntax.Tally.Expressions
import ModuleLinkage.Proofs.Syntax.Tally.Members
import ModuleLinkage.Proofs.Syntax.Tally.Programs
import ModuleLinkage.Proofs.Syntax.Tally.Rules
import ModuleLinkage.Proofs.Syntax.Tally.Tokens
import ModuleLinkage.Proofs.Syntax.Tally.Types
import ModuleLinkage.Proofs.Text.Faithfulness
import ModuleLinkage.Proofs.Text.FreshNames
import ModuleLinkage.Proofs.Text.Inserting
import ModuleLinkage.Proofs.Text.Lines
import ModuleLinkage.Proofs.Text.Nesting
import ModuleLinkage.Proofs.Text.Numerals
import ModuleLinkage.Proofs.Text.Rearranging
import ModuleLinkage.Proofs.Text.Rendering
import ModuleLinkage.Proofs.Text.Slices
import ModuleLinkage.Proofs.Unicode.Tables
import ModuleLinkage.Scope.BoundNames
import ModuleLinkage.Scope.DeclaredNames
import ModuleLinkage.Scope.TargetNames
import ModuleLinkage.Syntax.Lexer
import ModuleLinkage.Syntax.Lexer.Escape
import ModuleLinkage.Syntax.Lexer.Gap
import ModuleLinkage.Syntax.Lexer.Name
import ModuleLinkage.Syntax.Lexer.Numeral
import ModuleLinkage.Syntax.Lexer.Quotation
import ModuleLinkage.Syntax.Node
import ModuleLinkage.Syntax.Parser
import ModuleLinkage.Syntax.Parser.Class
import ModuleLinkage.Syntax.Parser.Declaration
import ModuleLinkage.Syntax.Parser.Expression
import ModuleLinkage.Syntax.Parser.Function
import ModuleLinkage.Syntax.Parser.Markup
import ModuleLinkage.Syntax.Parser.Modifiers
import ModuleLinkage.Syntax.Parser.ModuleItem
import ModuleLinkage.Syntax.Parser.Pattern
import ModuleLinkage.Syntax.Parser.State
import ModuleLinkage.Syntax.Parser.Statement
import ModuleLinkage.Syntax.Parser.Tokens
import ModuleLinkage.Syntax.Parser.Type
import ModuleLinkage.Syntax.Parser.Words
import ModuleLinkage.Syntax.Target
import ModuleLinkage.Syntax.Token
import ModuleLinkage.Text.Edit
import ModuleLinkage.Text.ModuleSyntax
import ModuleLinkage.Text.Quoted
import ModuleLinkage.Text.Span
import ModuleLinkage.Text.UniqueName
import ModuleLinkage.Unicode.Class
import ModuleLinkage.Unicode.Displayed
import ModuleLinkage.Unicode.IdentifierContinue
import ModuleLinkage.Unicode.IdentifierStart
import ModuleLinkage.Unicode.ToggleTable
import ModuleLinkage.Unicode.WordCharacter
import ModuleLinkage.Proofs.Scope.Declarations
import ModuleLinkage.Proofs.Scope.Targets
