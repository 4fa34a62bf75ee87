import ModuleLinkage.Proofs.Text.Rearranging
import ModuleLinkage.Syntax.Node

/-!
# How a tree lies over its text

A parser gives every node the span of the text that it was read from. `laid` says what this means for
the spans of a tree: they begin and end between characters, a part lies within the node that it is
part of, parts lie beside each other, and a node that begins with a keyword covers that keyword. Two
things are less regular than that. Decorators may be written before the `export` of the class that
they decorate, so that an exported class begins at its first decorator (`lead`). And a few nodes have
parts that share a span, like the key and the value of a shorthand property, or that are listed in
another order; for parts that do nothing (`isQuiet`) this does not matter, and parts listed out of
order must not touch.

Ambient namespaces describe other modules, and nothing is said about what is in them.
-/

set_option autoImplicit false

namespace ModuleLinkage.Syntax

open Text

namespace Node

/-- A node occurs in itself and in every node that it occurs in a part of, except that nothing occurs
in an ambient namespace. -/
inductive Occurs (node : Node) : Node → Prop
  | self : Occurs node node
  | inside {outer part : Node} (hform : outer.form ≠ .namespaceDeclaration true)
      (hpart : part ∈ outer.parts) (h : Occurs node part) : Occurs node outer

/-! ### Nodes that do nothing -/

/-- Whether a form writes a variable, loads a module or declares a link to one. -/
def isActive : Form → Bool
  | .importDeclaration _ | .exportDeclaration _ | .exportNames _ | .exportDefault | .exportAll _ => true
  | .importCall | .assignment _ | .update _ => true
  | _ => false

mutual

/-- Whether nothing active occurs in a node. -/
def isQuiet : Node → Bool
  | .mk _ form parts =>
    match form with
    | .namespaceDeclaration true => true
    | _ => !isActive form && allQuiet parts

def allQuiet : List Node → Bool
  | [] => true
  | node :: rest => isQuiet node && allQuiet rest

end

/-! ### Where a node begins -/

/-- Where a node begins if the decorators of a class are counted in. -/
def decoratedStart (node : Node) : Nat :=
  match node.form with
  | .classDefinition _ _ =>
    node.parts.foldl (fun start part => min start part.span.start) node.span.start
  | _ => node.span.start

/-- Where a node begins if the decorators before an `export` are counted in. -/
def lead (node : Node) : Nat :=
  match node.form, node.parts with
  | .exportDeclaration _, [declaration] => min node.span.start declaration.decoratedStart
  | .exportDefault, [declaration] => min node.span.start declaration.decoratedStart
  | _, _ => node.decoratedStart

/-- What a node covers if the decorators before an `export` are counted in. -/
def extent (node : Node) : Span :=
  ⟨node.lead, node.span.stop⟩

/-- Whether a node and one listed behind it lie beside each other. -/
def isBeside (first second : Node) : Bool :=
  first.span.stop ≤ second.lead || second.span.stop < first.lead

/-- Whether all of a node but what ends at `offset` or earlier lies behind its beginning. Only the
decorators of a class do. -/
def isClearOf (offset : Nat) (node : Node) : Bool :=
  match node.form with
  | .classDefinition _ _ =>
    node.parts.all fun part => part.span.stop ≤ offset || node.span.start ≤ part.lead
  | _ => node.span.start ≤ node.lead

/-- Whether a default export of a node leaves a declaration. -/
def isDeclared (node : Node) : Bool :=
  match node.form with
  | .function .declaration _ | .classDefinition .declaration _ | .interface => true
  | _ => false

/-! ### Trees over texts -/

/-- Whether a span begins and ends at boundaries of a text. -/
def spanFits (source : List Char) (span : Span) : Bool :=
  isBoundary source span.start && isBoundary source span.stop && span.start ≤ span.stop

/-- Whether a node covers what its form is written with. -/
def coversText (source : List Char) (node : Node) : Bool :=
  match node.form, node.parts with
  | .importDeclaration _, parts => node.span.start < node.span.stop && allQuiet parts
  | .exportNames _, parts => node.span.start < node.span.stop && allQuiet parts
  | .exportAll _, parts => node.span.start < node.span.stop && allQuiet parts
  | .exportDeclaration _, [declaration] =>
    node.span.start < declaration.span.start && declaration.isClearOf node.span.start
  | .exportDefault, [inner] =>
    node.span.start < inner.span.start &&
      (if inner.isDeclared then inner.isClearOf node.span.start
      else inner.span.start ≤ inner.lead && inner.span.start < inner.span.stop)
  | .importCall, parts =>
    "import".toList.isPrefixOf (dropBytes node.span.start source) &&
      (node.span.start + "import".length ≤ node.span.stop &&
        parts.all fun part => node.span.start + "import".length ≤ part.lead)
  | .assignment _, _ => node.span.start < node.span.stop
  | .update _, _ => node.span.start < node.span.stop
  | _, _ => true

mutual

/-- Whether a tree lies over a text as parsers lay it. -/
def laid (source : List Char) : Node → Bool
  | .mk span form parts =>
    let node := Node.mk span form parts
    spanFits source span &&
      match form with
      | .namespaceDeclaration true => true
      | _ =>
        coversText source node &&
          parts.all (fun part => node.lead ≤ part.lead && part.span.stop ≤ span.stop) &&
          decide (parts.Pairwise fun first second =>
            (first.isQuiet || second.isQuiet || first.isBeside second) = true) &&
          allLaid source parts

def allLaid (source : List Char) : List Node → Bool
  | [] => true
  | node :: rest => laid source node && allLaid source rest

end

theorem allQuiet_eq (nodes : List Node) : allQuiet nodes = nodes.all isQuiet := by
  induction nodes with
  | nil => rfl
  | cons node rest ih => rw [allQuiet, ih, List.all_cons]

theorem allLaid_eq (source : List Char) (nodes : List Node) :
    allLaid source nodes = nodes.all (laid source) := by
  induction nodes with
  | nil => rfl
  | cons node rest ih => rw [allLaid, ih, List.all_cons]

theorem decoratedStart_le (node : Node) : node.decoratedStart ≤ node.span.start := by
  have hfold (parts : List Node) (start : Nat) :
      parts.foldl (fun start part => min start part.span.start) start ≤ start := by
    induction parts generalizing start with
    | nil => exact Nat.le_refl _
    | cons part rest ih => exact (ih _).trans (Nat.min_le_left _ _)
  unfold decoratedStart
  split
  · exact hfold _ _
  · exact Nat.le_refl _

theorem lead_le (node : Node) : node.lead ≤ node.span.start := by
  unfold lead
  split
  · exact Nat.min_le_left _ _
  · exact Nat.min_le_left _ _
  · exact decoratedStart_le node

theorem isQuiet_iff {node : Node} (hform : node.form ≠ .namespaceDeclaration true) :
    node.isQuiet = true ↔ isActive node.form = false ∧ ∀ part ∈ node.parts, part.isQuiet = true := by
  obtain ⟨span, form, parts⟩ := node
  conv_lhs => unfold isQuiet
  split
  · exact absurd rfl hform
  · simp [allQuiet_eq]

variable {source : List Char}

/-- What a tree that lies over its text is made of. -/
theorem laid_iff {node : Node} (hform : node.form ≠ .namespaceDeclaration true) :
    node.laid source = true ↔ spanFits source node.span = true ∧ node.coversText source = true ∧
      (∀ part ∈ node.parts, node.lead ≤ part.lead ∧ part.span.stop ≤ node.span.stop) ∧
      node.parts.Pairwise (fun first second =>
        first.isQuiet = true ∨ second.isQuiet = true ∨ first.isBeside second = true) ∧
      ∀ part ∈ node.parts, part.laid source = true := by
  obtain ⟨span, form, parts⟩ := node
  conv_lhs => unfold laid
  dsimp only
  split
  · exact absurd rfl hform
  · simp [allLaid_eq, and_assoc, or_assoc]

theorem spanFits_of_laid {node : Node} (hlaid : node.laid source = true) :
    spanFits source node.span = true := by
  obtain ⟨span, form, parts⟩ := node
  unfold laid at hlaid
  exact (Bool.and_eq_true_iff.mp hlaid).1

theorem start_le_stop_of_laid {node : Node} (hlaid : node.laid source = true) :
    node.span.start ≤ node.span.stop := by
  have hfits := spanFits_of_laid hlaid
  simp only [spanFits, Bool.and_eq_true, decide_eq_true_eq] at hfits
  exact hfits.2

theorem boundary_of_laid {node : Node} (hlaid : node.laid source = true) :
    isBoundary source node.span.start = true ∧ isBoundary source node.span.stop = true := by
  have hfits := spanFits_of_laid hlaid
  simp only [spanFits, Bool.and_eq_true] at hfits
  exact hfits.1

/-- Whatever occurs in a tree lies over the text like the tree. -/
theorem laid_of_occurs {node root : Node} (hoccurs : node.Occurs root)
    (hlaid : root.laid source = true) : node.laid source = true := by
  induction hoccurs with
  | self => exact hlaid
  | inside hform hpart _ ih => exact ih (((laid_iff hform).mp hlaid).2.2.2.2 _ hpart)

end Node

end ModuleLinkage.Syntax
