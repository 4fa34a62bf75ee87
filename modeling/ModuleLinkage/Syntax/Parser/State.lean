import ModuleLinkage.Syntax.Lexer
import ModuleLinkage.Syntax.Node

/-!
Parsers: functions from a state to an outcome. The state is the present token, the place behind it,
and what the context allows. A parser that fails changes nothing except for the record of
parentheses known not to begin an arrow function, which saves reading them twice.

A text is refused in one of two ways. Where no reading goes on, the parser fails, and another
reading may be tried. Where a rule is broken that decides nothing about the reading, a fault is
noted and the reading goes on; a text with a fault is no program. A fault is forgotten with the
reading that noted it, if that was only tried.

Grammars are tied by a knot: a production is handed the grammar one level down, as a function from
nonterminals to parsers, so that no production refers to itself.
-/

set_option autoImplicit false

namespace ModuleLinkage.Syntax

open Text (Span)

/-- The grammars that are switched on. -/
structure Settings where
  typescript : Bool
  jsx : Bool
  /-- Whether the text is read as a module. -/
  module : Bool
  deriving Repr, DecidableEq, Inhabited

/-- What the surroundings of the present token allow. -/
structure Context where
  /-- `in` is an operator. -/
  inOperator : Bool := true
  /-- `await` is an operator. -/
  await : Bool
  /-- `yield` is an operator. -/
  yield : Bool := false
  /-- `return` is allowed. -/
  inFunction : Bool := false
  /-- The declarations only describe what exists elsewhere. -/
  ambient : Bool := false
  /-- A bracket does not continue an expression, because a class member may begin with it. -/
  decorating : Bool := false
  /-- The word `extends` does not continue a type. -/
  noConditionalType : Bool := false
  deriving Repr, DecidableEq, Inhabited

structure State where
  settings : Settings
  context : Context
  lexeme : Lexeme
  /-- Where the token before the present one ends. -/
  previousStop : Nat
  /-- The length of the whole text. -/
  total : Nat
  /-- Whether a rule has been broken. -/
  faulty : Bool := false
  /-- The offsets of parentheses and angle brackets known not to begin an arrow function. -/
  notArrows : List Nat
  deriving Repr, Inhabited

/-- What a parser comes to. -/
inductive Outcome (α : Type) where
  | done (value : α) (state : State)
  /-- No parse; the offset of the token that does not fit, and the record to keep. -/
  | failed (offset : Nat) (notArrows : List Nat)
  deriving Inhabited

def Parser (α : Type) : Type :=
  State → Outcome α

namespace Parser

variable {α β : Type}

@[inline] protected def pure (value : α) : Parser α :=
  fun state => .done value state

@[inline] protected def bind (first : Parser α) (next : α → Parser β) : Parser β :=
  fun state =>
    match first state with
    | .done value state => next value state
    | .failed offset notArrows => .failed offset notArrows

instance : Monad Parser where
  pure := Parser.pure
  bind := Parser.bind

/-- The present token does not fit. -/
def fail : Parser α :=
  fun state => .failed state.lexeme.span.start state.notArrows

def get : Parser State :=
  fun state => .done state state

def modify (change : State → State) : Parser Unit :=
  fun state => .done () (change state)

/-- Fails unless `condition` holds. -/
def require (condition : Bool) : Parser Unit :=
  if condition then pure () else fail

/-- Notes a fault unless `condition` holds. -/
def check (condition : Bool) : Parser Unit :=
  if condition then pure () else modify fun state => { state with faulty := true }

/-- Runs `parser` and then goes back to where it began, also if it fails, in which case there is
no answer. -/
def lookAhead (parser : Parser α) : Parser (Option α) :=
  fun state =>
    match parser state with
    | .done value after => .done (some value) { state with notArrows := after.notArrows }
    | .failed _ notArrows => .done none { state with notArrows }

/-- Runs `parser`; if it fails, goes back to where it began and gives no answer. -/
def attempt (parser : Parser α) : Parser (Option α) :=
  fun state =>
    match parser state with
    | .done value after => .done (some value) after
    | .failed _ notArrows => .done none { state with notArrows }

/-- Whether `test` succeeds and answers yes; nothing is read. -/
def sees (test : Parser Bool) : Parser Bool := do
  return (← lookAhead test).getD false

/-- Runs `parser` in a changed context. -/
def within (change : Context → Context) (parser : Parser α) : Parser α :=
  fun state =>
    match parser { state with context := change state.context } with
    | .done value after => .done value { after with context := state.context }
    | .failed offset notArrows => .failed offset notArrows

/-- Runs `step` on what it gave before until it gives nothing, at most `bound` times. -/
def iterateUpTo : Nat → (α → Parser (Option α)) → α → Parser α
  | 0, _, _ => fail
  | bound + 1, step, value => do
    match ← step value with
    | some value => iterateUpTo bound step value
    | none => return value

/-- Runs `step` on what it gave before until it gives nothing. Every step but the last has to read
a token, so the rest of the text bounds their number. -/
def iterate (step : α → Parser (Option α)) (value : α) : Parser α := do
  let state ← get
  iterateUpTo (state.total + 3 - state.lexeme.span.start) step value

/-- What `step` gives until it gives nothing, in order. -/
def many (step : Parser (Option α)) : Parser (List α) := do
  let reversed ← iterate
    (fun values => do
      match ← step with
      | some value => return some (value :: values)
      | none => return none)
    []
  return reversed.reverse

end Parser

/-- The statements among which a statement may stand decide which are allowed. -/
inductive StatementPlace where
  /-- In a list of statements, where declarations are allowed. -/
  | list
  /-- As the single statement that a label, condition or loop governs. -/
  | single
  deriving Repr, DecidableEq, Inhabited

/-- The parts of the grammar that refer to each other in circles. -/
inductive Nonterminal where
  | expression
  /-- An expression without commas; `resultTypes` says that an arrow function may state its
  result type though no colon follows it. -/
  | assignment (resultTypes : Bool)
  /-- Operators that bind more tightly than the given level. -/
  | operators (above : Nat)
  | unary
  | leftHandSide
  | member
  | objectLiteral
  | statement (place : StatementPlace)
  | pattern
  | type
  | prefixedType
  | markup
  | namespaceRest
  deriving Repr, DecidableEq, Inhabited

/-- A parser for each nonterminal. -/
abbrev Grammar := Nonterminal → Parser Node

end ModuleLinkage.Syntax
