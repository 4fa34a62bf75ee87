import ModuleLinkage.Proofs.Syntax.Anchoring.Rules

/-!
# Each declaration is read once

A declaration that requests a module is known by the offset where it begins, so no two of them may
begin at one offset. What holds them apart is the reading: a parser that goes past an offset gives
at most one of them that begins there, and one that does not gives none. For that an offset is
fixed, and a `tally` is kept of the declarations that begin there. A parser is handed a budget, the
tally of what it puts its value together from, and what it gives counts no more than the budget and
what it has gone past (`Affords`); what it does not need of the budget it leaves to those behind it
(`Leaves`). Like `Reads`, these are classes whose instances are the rules for putting parsers
together.

The budget is a sum with one summand for each value that has been read, and a value can be taken from it
once (`Takes`), so a node in which a part stood twice would not be accounted for.
-/

set_option autoImplicit false

namespace ModuleLinkage.Syntax

open Text

/-! ### Counting declarations -/

/-- Whether a declaration of a form may request another module. -/
@[reducible] def Form.mayRequest : Form → Bool
  | .importDeclaration _ | .exportNames _ | .exportAll _ => true
  | _ => false

/-- One, if two offsets are the same. -/
def tallyStart (offset start : Nat) : Nat :=
  if start = offset then 1 else 0

mutual

/-- How many declarations that may request a module begin at an offset in a tree. -/
def Node.tally (offset : Nat) : Node → Nat
  | .mk span form parts =>
    (if form.mayRequest then tallyStart offset span.start else 0) + Node.listTally offset parts

def Node.listTally (offset : Nat) : List Node → Nat
  | [] => 0
  | node :: rest => node.tally offset + Node.listTally offset rest

end

/-- Values in which declarations are counted that begin at an offset. -/
class Tallied (α : Type) where
  tally : Nat → α → Nat

export Tallied (tally)

instance : Tallied Node := ⟨Node.tally⟩

/-- The beginning of a declaration that has yet to be read. -/
structure Beginning where
  start : Nat

instance : Tallied Beginning := ⟨fun offset beginning => tallyStart offset beginning.start⟩

instance {α : Type} [Tallied α] : Tallied (Option α) :=
  ⟨fun offset value? => (value?.map (tally offset)).getD 0⟩

instance {α : Type} [Tallied α] : Tallied (List α) :=
  ⟨fun offset values => values.foldr (fun value count => tally offset value + count) 0⟩

instance {α β : Type} [Tallied α] [Tallied β] : Tallied (α × β) :=
  ⟨fun offset pair => tally offset pair.1 + tally offset pair.2⟩

/-- Values that no declaration stands in. -/
class Tallyless (α : Type) extends Tallied α where
  tally_eq : ∀ (offset : Nat) (value : α), tally offset value = 0

/-- Values of a type that has no place for a node. -/
@[reducible] def Tallyless.of (α : Type) : Tallyless α where
  tally _ _ := 0
  tally_eq _ _ := rfl

instance : Tallyless Unit := .of Unit
instance : Tallyless Bool := .of Bool
instance : Tallyless Nat := .of Nat
instance : Tallyless String := .of String
instance : Tallyless State := .of State
instance : Tallyless Settings := .of Settings
instance : Tallyless Context := .of Context
instance : Tallyless Token := .of Token
instance : Tallyless Place := .of Place

section Tallies

variable {α β : Type} [Tallied α] [Tallied β] {offset : Nat}

@[simp] theorem tally_none : tally offset (none : Option α) = 0 := rfl

@[simp] theorem tally_some (value : α) : tally offset (some value) = tally offset value := rfl

@[simp] theorem tally_nil : tally offset ([] : List α) = 0 := rfl

@[simp] theorem tally_cons (value : α) (values : List α) :
    tally offset (value :: values) = tally offset value + tally offset values := by
  simp [tally]

@[simp] theorem tally_append (first second : List α) :
    tally offset (first ++ second) = tally offset first + tally offset second := by
  induction first with
  | nil => simp
  | cons value rest ih => rw [List.cons_append, tally_cons, tally_cons, ih, Nat.add_assoc]

@[simp] theorem tally_reverse (values : List α) :
    tally offset values.reverse = tally offset values := by
  induction values with
  | nil => rfl
  | cons value rest ih =>
    rw [List.reverse_cons, tally_append, ih, tally_cons, tally_cons, tally_nil, Nat.add_zero,
      Nat.add_comm]

@[simp] theorem tally_flatten (lists : List (List α)) :
    tally offset lists.flatten = tally offset lists := by
  induction lists with
  | nil => rfl
  | cons values rest ih => rw [List.flatten_cons, tally_append, tally_cons, ih]

@[simp] theorem tally_pair (first : α) (second : β) :
    tally offset (first, second) = tally offset first + tally offset second := rfl

theorem listTally_eq (offset : Nat) (nodes : List Node) :
    Node.listTally offset nodes = tally offset nodes := by
  induction nodes with
  | nil => rfl
  | cons node rest ih =>
    rw [Node.listTally, ih, tally_cons]
    rfl

/-- What is counted in a tree is its root, if it may request a module, and what is counted in its
parts. -/
theorem tally_mk (offset : Nat) (span : Span) (form : Form) (parts : List Node) :
    tally offset (Node.mk span form parts) =
      (if form.mayRequest then tallyStart offset span.start else 0) + tally offset parts := by
  rw [← listTally_eq]
  rfl

theorem tally_parts_le (offset : Nat) (node : Node) : tally offset node.parts ≤ tally offset node := by
  obtain ⟨span, form, parts⟩ := node
  rw [tally_mk]
  exact Nat.le_add_left _ _

instance {α : Type} [Tallyless α] : Tallyless (Option α) where
  tally_eq offset value? := by
    cases value? with
    | none => rfl
    | some value => exact Tallyless.tally_eq offset value

instance {α : Type} [Tallyless α] : Tallyless (List α) where
  tally_eq offset values := by
    induction values with
    | nil => rfl
    | cons value rest ih => rw [tally_cons, ih, Tallyless.tally_eq]

end Tallies

/-! ### Taking values from a budget -/

/-- What is left of a budget when a value has been taken from it. -/
class Takes {α : Type} [Tallied α] (offset budget : Nat) (value : α) (left : outParam Nat) :
    Prop where
  le : tally offset value + left ≤ budget

/-- A Boolean that evaluates to false. -/
class Denies (test : Bool) : Prop where
  eq : test = false

instance : Denies false := ⟨rfl⟩

section Takes

variable {α β : Type} [Tallied α] [Tallied β] {offset budget middle left : Nat}

instance (priority := high) takes_last {value : α} :
    Takes offset (budget + tally offset value) value budget :=
  ⟨(Nat.add_comm _ _).le⟩

instance (priority := high) takes_lastSome {value : α} :
    Takes offset (budget + tally offset (some value)) value budget :=
  ⟨(Nat.add_comm _ _).le⟩

instance (priority := high) takes_tallyless {α : Type} [Tallyless α] {value : α} :
    Takes offset budget value budget :=
  ⟨by rw [Tallyless.tally_eq, Nat.zero_add]⟩

/-- A value that was read earlier. -/
instance (priority := low) takes_before {value : α} {other : β} [htakes : Takes offset budget value left] :
    Takes offset (budget + tally offset other) value (left + tally offset other) :=
  ⟨by have := htakes.le; omega⟩

instance takes_none : Takes offset budget (none : Option α) budget :=
  ⟨by rw [tally_none, Nat.zero_add]⟩

instance takes_some {value : α} [htakes : Takes offset budget value left] :
    Takes offset budget (some value) left :=
  ⟨htakes.le⟩

instance takes_pair {first : α} {second : β} [hfirst : Takes offset budget first middle]
    [hsecond : Takes offset middle second left] : Takes offset budget (first, second) left :=
  ⟨by have := hfirst.le; have := hsecond.le; rw [tally_pair]; omega⟩

instance takes_fst {pair : α × β} [htakes : Takes offset budget pair left] :
    Takes offset budget pair.1 left :=
  ⟨(Nat.add_le_add_right (Nat.le_add_right _ _) _).trans htakes.le⟩

instance takes_nil : Takes offset budget ([] : List α) budget :=
  ⟨by rw [tally_nil, Nat.zero_add]⟩

instance takes_cons {value : α} {values : List α} [hvalue : Takes offset budget value middle]
    [hvalues : Takes offset middle values left] : Takes offset budget (value :: values) left :=
  ⟨by have := hvalue.le; have := hvalues.le; rw [tally_cons]; omega⟩

instance takes_append {first second : List α} [hfirst : Takes offset budget first middle]
    [hsecond : Takes offset middle second left] : Takes offset budget (first ++ second) left :=
  ⟨by have := hfirst.le; have := hsecond.le; rw [tally_append]; omega⟩

instance takes_reverse {values : List α} [htakes : Takes offset budget values left] :
    Takes offset budget values.reverse left :=
  ⟨by rw [tally_reverse]; exact htakes.le⟩

instance takes_flatten {lists : List (List α)} [htakes : Takes offset budget lists left] :
    Takes offset budget lists.flatten left :=
  ⟨by rw [tally_flatten]; exact htakes.le⟩

instance takes_toList {value? : Option α} [htakes : Takes offset budget value? left] :
    Takes offset budget value?.toList left := by
  refine ⟨?_⟩
  have := htakes.le
  cases value? <;> simpa using this

instance takes_parts {node : Node} [htakes : Takes offset budget node left] :
    Takes offset budget node.parts left :=
  ⟨(Nat.add_le_add_right (tally_parts_le offset node) _).trans htakes.le⟩

/-- A tree whose root requests no module counts what its parts do. -/
instance takes_mk {span : Span} {form : Form} {parts : List Node} [hform : Denies form.mayRequest]
    [htakes : Takes offset budget parts left] : Takes offset budget (Node.mk span form parts) left :=
  ⟨by rw [tally_mk, if_neg (by simp [hform.eq]), Nat.zero_add]; exact htakes.le⟩

end Takes

/-! ### Going past an offset -/

/-- Whether a token does not end before it begins, nor where it begins if it is a word. -/
structure Lexeme.Extends (lexeme : Lexeme) : Prop where
  le : lexeme.span.start ≤ lexeme.next.offset
  lt : ∀ name escaped, lexeme.token = .word name escaped → lexeme.span.start < lexeme.next.offset

/-- One, if the present token lies behind an offset. -/
def State.passed (offset : Nat) (s : State) : Nat :=
  if offset < s.lexeme.span.start then 1 else 0

theorem passed_mono (offset : Nat) {s s' : State}
    (hle : s.lexeme.span.start ≤ s'.lexeme.span.start) : s.passed offset ≤ s'.passed offset := by
  unfold State.passed
  split_ifs <;> omega

/-- Who goes on from where a declaration begins goes past that. -/
theorem tallyStart_add_passed (offset : Nat) {s s' : State}
    (hlt : s.lexeme.span.start < s'.lexeme.span.start) :
    tallyStart offset s.lexeme.span.start + s.passed offset ≤ s'.passed offset := by
  unfold State.passed tallyStart
  split_ifs <;> omega

/-! ### Budgets of parsers -/

section Budgets

variable {α β : Type} [Tallied α] [Tallied β] {offset budget middle left : Nat} {parser : Parser α}
  {next : α → Parser β} {s : State}

/-- Whether the run of a parser from a state does not go back past an offset and gives no more that
begins there than a budget and what it has gone past, so that some of the budget is left. -/
def LeavesAt (offset budget left : Nat) (s : State) (parser : Parser α) : Prop :=
  ∀ value s', parser s = .done value s' → s.lexeme.Extends →
    s'.lexeme.Extends ∧ s.passed offset ≤ s'.passed offset ∧
      tally offset value + left + s.passed offset ≤ budget + s'.passed offset

/-- Whether all runs of a parser leave so much of a budget. -/
class Leaves (offset budget : Nat) (parser : Parser α) (left : outParam Nat) : Prop where
  run : ∀ s, LeavesAt offset budget left s parser

/-- Whether all runs of a parser keep within a budget. -/
class Affords (offset budget : Nat) (parser : Parser α) : Prop where
  run : ∀ s, LeavesAt offset budget 0 s parser

theorem LeavesAt.forget (hparser : LeavesAt offset budget left s parser) :
    LeavesAt offset budget 0 s parser := by
  intro value s' hrun hextends
  obtain ⟨hextends', hpassed, hle⟩ := hparser value s' hrun hextends
  exact ⟨hextends', hpassed, by omega⟩

/-- A parser that needs nothing leaves the whole budget. -/
instance (priority := low) leaves_of_affords [hparser : Affords offset 0 parser] :
    Leaves offset budget parser budget := by
  refine ⟨fun s value s' hrun hextends => ?_⟩
  obtain ⟨hextends', hpassed, hle⟩ := hparser.run s value s' hrun hextends
  exact ⟨hextends', hpassed, by omega⟩

theorem Leaves.of_affords (hparser : Affords offset 0 parser) :
    Leaves offset budget parser budget :=
  leaves_of_affords

/-- A parser that needs some of the budget may be granted all of it. -/
instance (priority := 50) leaves_nothing [hparser : Affords offset budget parser] :
    Leaves offset budget parser 0 :=
  ⟨hparser.run⟩

instance (priority := low) affords_of_leaves [hparser : Leaves offset budget parser left] :
    Affords offset budget parser :=
  ⟨fun s => (hparser.run s).forget⟩

/-- A parser that needs what it puts its value together from leaves the rest. -/
theorem Leaves.of_takes (value : β) [htakes : Takes offset budget value left]
    (hparser : Affords offset (0 + tally offset value) parser) :
    Leaves offset budget parser left := by
  refine ⟨fun s value s' hrun hextends => ?_⟩
  obtain ⟨hextends', hpassed, hle⟩ := hparser.run s value s' hrun hextends
  have := htakes.le
  exact ⟨hextends', hpassed, by omega⟩

/-! ### Rules -/

theorem LeavesAt.bind (hparser : LeavesAt offset budget middle s parser)
    (hnext : ∀ value s', parser s = .done value s' →
      LeavesAt offset (middle + tally offset value) left s' (next value)) :
    LeavesAt offset budget left s (parser >>= next) := by
  intro value s' hrun hextends
  obtain ⟨first, between, hfirst, hrest⟩ := done_of_bind hrun
  obtain ⟨hbetween, hpassed, hle⟩ := hparser first between hfirst hextends
  obtain ⟨hextends', hpassed', hle'⟩ := hnext first between hfirst value s' hrest hbetween
  exact ⟨hextends', hpassed.trans hpassed', by omega⟩

/-- What follows a parser has what that leaves, and what that has read. -/
theorem Affords.bind (hparser : Leaves offset budget parser middle)
    (hnext : ∀ value, Affords offset (middle + tally offset value) (next value)) :
    Affords offset budget (parser >>= next) :=
  ⟨fun s => (hparser.run s).bind fun value s' _ => (hnext value).run s'⟩

/-- What follows a parser of which it is known what that leaves. -/
theorem Affords.step [hparser : Leaves offset budget parser middle]
    (hnext : ∀ value, Affords offset (middle + tally offset value) (next value)) :
    Affords offset budget (parser >>= next) :=
  .bind hparser hnext

/-- A parser that gives nothing has used nothing of the budget. -/
theorem Affords.stepOption {parser : Parser (Option α)} {next : Option α → Parser β}
    (hparser : Affords offset budget parser)
    (hsome : ∀ value, Affords offset (0 + tally offset value) (next (some value)))
    (hnone : Affords offset budget (next none)) : Affords offset budget (parser >>= next) := by
  refine ⟨fun s value s' hrun hextends => ?_⟩
  obtain ⟨value?, between, hfirst, hrest⟩ := done_of_bind hrun
  obtain ⟨hbetween, hpassed, hle⟩ := hparser.run s value? between hfirst hextends
  cases value? with
  | none =>
    obtain ⟨hextends', hpassed', hle'⟩ := hnone.run between value s' hrest hbetween
    exact ⟨hextends', hpassed.trans hpassed', by omega⟩
  | some found =>
    obtain ⟨hextends', hpassed', hle'⟩ := (hsome found).run between value s' hrest hbetween
    rw [tally_some] at hle
    exact ⟨hextends', hpassed.trans hpassed', by omega⟩

/-- What follows a parser of whose value something is known. -/
theorem Affords.step_of {known : α → Prop} (hknown : Gives parser known)
    [hparser : Leaves offset budget parser middle]
    (hnext : ∀ value, known value → Affords offset (middle + tally offset value) (next value)) :
    Affords offset budget (parser >>= next) :=
  ⟨fun s => (hparser.run s).bind fun value s' hrun =>
    (hnext value (hknown s value s' hrun)).run s'⟩

instance affords_bind [Leaves offset budget parser middle]
    [hnext : ∀ value, Affords offset (middle + tally offset value) (next value)] :
    Affords offset budget (parser >>= next) :=
  .step hnext

instance leaves_pure {value : α} [htakes : Takes offset budget value left] :
    Leaves offset budget (pure value : Parser α) left := by
  refine ⟨fun s value' s' hrun hextends => ?_⟩
  cases hrun
  have := htakes.le
  exact ⟨hextends, Nat.le_refl _, by omega⟩

instance affords_ite {condition : Prop} [Decidable condition] {first second : Parser α}
    [hfirst : Affords offset budget first] [hsecond : Affords offset budget second] :
    Affords offset budget (if condition then first else second) := by
  split
  · exact hfirst
  · exact hsecond

instance affords_andM {first second : Parser Bool} [Affords offset 0 first]
    [hsecond : Affords offset 0 second] : Affords offset 0 (first <&&> second) := by
  refine .step fun value => ?_
  cases value with
  | false => exact (affords_of_leaves : Affords offset 0 (pure false))
  | true => exact hsecond

instance affords_orM {first second : Parser Bool} [Affords offset 0 first]
    [hsecond : Affords offset 0 second] : Affords offset 0 (first <||> second) := by
  refine .step fun value => ?_
  cases value with
  | false => exact hsecond
  | true => exact (affords_of_leaves : Affords offset 0 (pure true))

instance affords_fail : Affords offset budget (Parser.fail : Parser α) :=
  ⟨fun _ _ _ hrun => nomatch hrun⟩

/-- A parser that leaves the present token in its place, and gives no node. -/
theorem leaves_of_stays {α : Type} [Tallyless α] {parser : Parser α} [hstays : Stays parser] :
    Leaves offset budget parser budget := by
  refine ⟨fun s value s' hrun hextends => ?_⟩
  have hlexeme := hstays.lexeme s value s' hrun
  have hpassed : s'.passed offset = s.passed offset := by rw [State.passed, hlexeme, State.passed]
  rw [hlexeme, hpassed, Tallyless.tally_eq, Nat.zero_add]
  exact ⟨hextends, Nat.le_refl _, Nat.le_refl _⟩

instance leaves_get : Leaves offset budget Parser.get budget := leaves_of_stays

instance leaves_require (condition : Bool) :
    Leaves offset budget (Parser.require condition) budget := leaves_of_stays

instance leaves_check (condition : Bool) :
    Leaves offset budget (Parser.check condition) budget := leaves_of_stays

instance leaves_sees (test : Parser Bool) :
    Leaves offset budget (Parser.sees test) budget := leaves_of_stays

instance leaves_lookAhead {α : Type} [Tallyless α] (parser : Parser α) :
    Leaves offset budget parser.lookAhead budget := by
  have hstays : Stays parser.lookAhead := by
    refine ⟨fun s value s' hrun => ?_⟩
    obtain ⟨notArrows, rfl⟩ := still_of_lookAhead hrun
    exact ⟨rfl, rfl⟩
  exact leaves_of_stays

/-- What is tried is read, or nothing is. -/
instance leaves_attempt [hparser : Affords offset 0 parser] :
    Leaves offset budget parser.attempt budget := by
  refine ⟨fun s value s' hrun hextends => ?_⟩
  unfold Parser.attempt at hrun
  split at hrun
  · next hfound =>
    obtain ⟨hextends', hpassed, hle⟩ := hparser.run _ _ _ hfound hextends
    cases hrun
    exact ⟨hextends', hpassed, by rw [tally_some]; omega⟩
  · cases hrun
    exact ⟨hextends, Nat.le_refl _, by rw [tally_none, Nat.zero_add]; rfl⟩

/-- The context makes no difference. -/
instance leaves_within {change : Context → Context} [hparser : Leaves offset budget parser left] :
    Leaves offset budget (Parser.within change parser) left := by
  refine ⟨fun s value s' hrun hextends => ?_⟩
  unfold Parser.within at hrun
  split at hrun
  · next hfound =>
    have hkept := hparser.run _ _ _ hfound hextends
    cases hrun
    exact hkept
  · cases hrun

instance affords_discard [Affords offset 0 parser] : Affords offset 0 (discard parser) := by
  have hbind : Affords offset 0 (parser >>= fun _ => pure ()) := inferInstance
  exact hbind

/-! ### Repetition -/

theorem affords_iterateUpTo {step : α → Parser (Option α)} (count : Nat) {value : α}
    (hstep : ∀ value, Affords offset (0 + tally offset value) (step value)) :
    Affords offset (0 + tally offset value) (Parser.iterateUpTo count step value) := by
  induction count generalizing value with
  | zero => exact affords_fail
  | succ count ih =>
    exact .stepOption (hstep value) (fun next => ih)
      (affords_of_leaves : Affords offset (0 + tally offset value) (pure value))

/-- What each step affords, all steps do. -/
theorem Leaves.iterate {step : α → Parser (Option α)} {value : α}
    [Takes offset budget value left]
    (hstep : ∀ value, Affords offset (0 + tally offset value) (step value)) :
    Leaves offset budget (Parser.iterate step value) left := by
  refine .of_takes value ?_
  unfold Parser.iterate
  exact .step fun state => affords_iterateUpTo _ hstep

instance leaves_iterate {step : α → Parser (Option α)} {value : α} [Takes offset budget value left]
    [hstep : ∀ value, Affords offset (0 + tally offset value) (step value)] :
    Leaves offset budget (Parser.iterate step value) left :=
  .iterate hstep

/-- What is read many times is counted each time. -/
theorem Leaves.many {step : Parser (Option α)} (hstep : Affords offset 0 step) :
    Leaves offset budget (Parser.many step) budget := by
  have hreversed (values : List α) : Affords offset (0 + tally offset values) (oneMore step values) := by
    refine .step fun value? => ?_
    split
    · exact affords_of_leaves
    · exact affords_of_leaves
  have hmany : Affords offset 0 (Parser.many step) := by
    rw [many_eq]
    have hiterate : Leaves offset 0 (Parser.iterate _ ([] : List α)) 0 := .iterate hreversed
    exact .step fun values => affords_of_leaves
  exact .of_affords hmany

instance leaves_many {step : Parser (Option α)} [hstep : Affords offset 0 step] :
    Leaves offset budget (Parser.many step) budget :=
  .many hstep

end Budgets

end ModuleLinkage.Syntax
