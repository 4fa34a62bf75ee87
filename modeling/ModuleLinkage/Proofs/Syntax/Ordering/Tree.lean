import ModuleLinkage.Proofs.Syntax.Anchoring.Tree
import ModuleLinkage.Proofs.Syntax.Layout

/-!
# Trees in the order of their text

A tree is `Ordered` if every node of it ends where its parts have ended, parts lie beside each other,
and no part lies before the node begins. Three things are less regular than that. The decorators of a
class may stand before it, even before its `export`, so that what a node covers is told from its
`front`. A name that is read once may be listed twice, as key and as value of a shorthand property, so
nothing is said of what lies beside a key. And a cast in angle brackets lists its type behind its
operand, so parts lie beside each other in either order.

What stands at the head of a default declaration is part of this too (`Headed`), since a name may have
to be put there.
-/

set_option autoImplicit false

namespace ModuleLinkage.Syntax

open Text (Span)

/-! ### Where nodes begin -/

mutual

/-- Where the first of a node and all that stands in it begins. -/
def Node.front : Node → Nat
  | .mk span _ parts => min span.start (listFront span.start parts)

/-- Where the first of some nodes begins, or `start` if that is before all of them. -/
def Node.listFront (start : Nat) : List Node → Nat
  | [] => start
  | node :: rest => min node.front (Node.listFront start rest)

end

theorem Node.le_listFront_iff {bound start : Nat} {nodes : List Node} :
    bound ≤ Node.listFront start nodes ↔ bound ≤ start ∧ ∀ node ∈ nodes, bound ≤ node.front := by
  induction nodes with
  | nil => simp [Node.listFront]
  | cons node rest ih =>
    rw [Node.listFront, Nat.le_min, ih, List.forall_mem_cons]
    exact and_left_comm

theorem Node.le_front_iff {bound : Nat} {node : Node} :
    bound ≤ node.front ↔ bound ≤ node.span.start ∧ ∀ part ∈ node.parts, bound ≤ part.front := by
  obtain ⟨span, form, parts⟩ := node
  rw [Node.front, Nat.le_min, Node.le_listFront_iff]
  exact ⟨And.right, fun h => ⟨h.1, h⟩⟩

theorem Node.front_le_start (node : Node) : node.front ≤ node.span.start :=
  (Node.le_front_iff.mp (Nat.le_refl _)).1

theorem Node.front_le_front {node part : Node} (hpart : part ∈ node.parts) :
    node.front ≤ part.front :=
  (Node.le_front_iff.mp (Nat.le_refl _)).2 part hpart

theorem Node.start_le_front {node : Node} (h : ∀ part ∈ node.parts, node.span.start ≤ part.front) :
    node.span.start ≤ node.front :=
  Node.le_front_iff.mpr ⟨Nat.le_refl _, h⟩

/-! ### Nodes that only name something -/

/-- The forms of names, and of what lists names in an import or export. -/
def Form.isListing : Form → Bool
  | .binding _ | .reference _ | .propertyName _ | .string _ | .moduleSource _ => true
  | .importDefault | .importNamespace | .importName _ | .exportName _ => true
  | .importAttributes | .property => true
  | _ => false

mutual

/-- Whether a node only names something. -/
def Node.isListing : Node → Bool
  | .mk _ form parts => form.isListing && allListing parts

def Node.allListing : List Node → Bool
  | [] => true
  | node :: rest => node.isListing && Node.allListing rest

end

theorem Node.allListing_iff {nodes : List Node} :
    Node.allListing nodes = true ↔ ∀ node ∈ nodes, node.isListing = true := by
  induction nodes with
  | nil => simp [Node.allListing]
  | cons node rest ih => simp [Node.allListing, ih]

theorem Node.isListing_iff {node : Node} :
    node.isListing = true ↔
      node.form.isListing = true ∧ ∀ part ∈ node.parts, part.isListing = true := by
  obtain ⟨span, form, parts⟩ := node
  rw [Node.isListing, Bool.and_eq_true, Node.allListing_iff]
  rfl

/-- Whatever stands in a node that only names something is such a node too. -/
theorem Node.Within.isListing {node root : Node} (hwithin : node.Within root)
    (h : root.isListing = true) : node.isListing = true := by
  induction hwithin with
  | self => exact h
  | part hpart _ ih => exact ih ((Node.isListing_iff.mp h).2 _ hpart)

theorem Node.isListing_of_isKey {node : Node} (h : node.isKey = true) : node.isListing = true := by
  unfold Node.isKey at h
  refine Node.isListing_iff.mpr ?_
  split at h
  · next hform hparts => exact ⟨by rw [hform]; rfl, by rw [hparts]; exact nofun⟩
  · next hform hparts => exact ⟨by rw [hform]; rfl, by rw [hparts]; exact nofun⟩
  · cases h

/-! ### Heads of declarations -/

/-- Whether some tokens follow each other from one on, each read behind the one before it, up to
another. -/
inductive Lexeme.Precedes (markers : Bool) : Lexeme → List Token → Lexeme → Prop
  | self (lexeme : Lexeme) : Precedes markers lexeme [] lexeme
  | next {first last : Lexeme} {tokens : List Token}
      (h : Precedes markers (readLexeme markers false first.next) tokens last) :
      Precedes markers first (first.token :: tokens) last

/-- A word that is written without escapes. -/
def Token.plain (word : String) : Token :=
  .word word false

/-- What a function may begin with if it has no name. -/
def functionHeads : List (List Token) :=
  [[.plain "function"], [.plain "function", .punctuator "*"], [.plain "async", .plain "function"],
    [.plain "async", .plain "function", .punctuator "*"]]

/-- Whether a token is what is read where it stands. -/
def Lexeme.IsFresh (source : List Char) (lexeme : Lexeme) : Prop :=
  ∃ place : Place, place.Apart source ∧ place.offset = lexeme.span.start ∧
    readToken place = (lexeme.token, lexeme.next)

/-- Whether a node begins with a bracket, and what stands in it behind that. -/
structure Lexeme.Brackets (lexeme : Lexeme) (node : Node) : Prop where
  form : node.form ∈ [.typeParameters, .parameters, .classBody]
  start : node.span.start = lexeme.span.start
  stop : lexeme.next.offset ≤ node.span.stop
  inside : ∀ part ∈ node.parts, lexeme.next.offset ≤ part.front

/-- Whether each of some nodes begins behind a token or with it, if that is a bracket. -/
def Lexeme.Opens (lexeme : Lexeme) (nodes : List Node) : Prop :=
  ∀ node ∈ nodes, lexeme.Brackets node ∨ lexeme.next.offset ≤ node.front

/-- How a function without a name begins: with the words and marks of one, behind which its type
parameters or parameters stand. -/
structure FunctionHead (source : List Char) (markers : Bool) (function : Node) (first last : Lexeme)
    (tokens : List Token) (part : Node) (rest : List Node) : Prop where
  stands : first.Stands source
  fresh : first.IsFresh source
  start : first.span.start = function.span.start
  words : tokens ∈ functionHeads
  precedes : first.Precedes markers tokens last
  opening : last.token ∈ [.punctuator "<", .punctuator "("]
  parts : function.parts = part :: rest
  form : part.form = .typeParameters ∨ part.form = .parameters
  brackets : last.Brackets part
  opens : last.Opens function.parts

/-- Whether a function begins as one without a name. -/
def HeadedFunction (source : List Char) (markers : Bool) (function : Node) : Prop :=
  ∃ first last tokens part rest, FunctionHead source markers function first last tokens part rest

/-- Whether a class begins with a token behind its decorators, if there are any. Those may stand before
the class itself. -/
def Lexeme.BeginsClass (source : List Char) (markers : Bool) (definition : Node) (decorators : List Node)
    (first : Lexeme) : Prop :=
  first.span.start = definition.span.start ∧ first.IsFresh source ∨
    ∃ last ∈ decorators.getLast?, definition.span.start ≤ last.span.stop ∧
      first.IsNext source markers last.span.stop

/-- What follows the word `class` if the class has no name. -/
def classTails : List Token :=
  [.punctuator "<", .plain "extends", .plain "implements", .punctuator "\x7b"]

/-- How a class begins: the word `class` stands, perhaps behind modifiers, between its decorators and its
other parts. -/
structure ClassHead (source : List Char) (markers : Bool) (definition : Node) (first keyword : Lexeme)
    (modifiers : List String) (decorators rest : List Node) : Prop where
  stands : first.Stands source
  start : definition.span.start ≤ first.span.start
  begins : first.BeginsClass source markers definition decorators
  precedes : first.Precedes markers (modifiers.map .plain) keyword
  word : keyword.token = .plain "class"
  allowed : ∀ modifier ∈ modifiers, modifier ∈ ["abstract", "declare"]
  parts : definition.parts = decorators ++ rest
  stop : keyword.next.offset ≤ definition.span.stop
  ahead : ∀ part ∈ decorators, part.form = .decorator ∧ part.span.stop ≤ first.span.start
  sorted : decorators.Pairwise fun first second => first.span.stop ≤ second.front
  behind : ∀ part ∈ rest, part.form ≠ .decorator ∧ keyword.next.offset ≤ part.front
  tail : definition.ownName? = none → (readLexeme markers false keyword.next).token ∈ classTails ∧
    (readLexeme markers false keyword.next).Opens rest ∧ rest ≠ []

/-- Whether a class begins with the words of one. -/
def HeadedClass (source : List Char) (markers : Bool) (definition : Node) : Prop :=
  ∃ first keyword modifiers decorators rest,
    ClassHead source markers definition first keyword modifiers decorators rest

/-- Whether a function or class that is exported as the default begins with the words of one. -/
def Headed (source : List Char) (markers : Bool) (inner : Node) : Prop :=
  match inner.form with
  | .function .declaration _ => inner.ownName? = none → HeadedFunction source markers inner
  | .classDefinition .declaration _ => HeadedClass source markers inner
  | _ => True

/-! ### Ordered trees -/

/-- Whether all parts of a node stand behind where it begins, but those that end at `offset` or
earlier. -/
def Node.IsClearOf (node : Node) (offset : Nat) : Prop :=
  ∀ part ∈ node.parts, part.span.stop ≤ offset ∨ node.span.start ≤ part.front

/-- Where the parts of a node begin. -/
def Arranged (source : List Char) (markers : Bool) (span : Span) (form : Form) (parts : List Node) :
    Prop :=
  match form, parts with
  | .exportDeclaration _, [inner] => span.start ≤ inner.span.start ∧ inner.IsClearOf span.start
  | .exportDefault, [inner] =>
    (span.start ≤ inner.span.start ∧ inner.IsClearOf span.start) ∧ Headed source markers inner
  | .exportDeclaration _, _ | .exportDefault, _ | .classDefinition .declaration _, _ => True
  | .importCall, parts =>
    span.start + "import".length ≤ span.stop ∧
      ∀ part ∈ parts, span.start + "import".length ≤ part.front
  | .importDeclaration _, parts | .exportNames _, parts | .exportAll _, parts | .directive, parts =>
    ∀ part ∈ parts, part.isListing = true ∧ span.start ≤ part.front
  | .string _, parts => parts = []
  | _, parts => ∀ part ∈ parts, span.start ≤ part.front

/-- The forms of nodes whose parts only have to stand behind where the nodes begin. -/
@[reducible] def Form.isLoose : Form → Bool
  | .exportDeclaration _ | .exportDefault | .importCall | .importDeclaration _ | .exportNames _
  | .exportAll _ | .directive | .string _ | .classDefinition .declaration _ => false
  | _ => true

theorem arranged_iff_of_isLoose {source : List Char} {markers : Bool} {form : Form}
    (hloose : form.isLoose = true) (span : Span) (parts : List Node) :
    Arranged source markers span form parts ↔ ∀ part ∈ parts, span.start ≤ part.front := by
  cases form
  case classDefinition style ambient =>
    cases style
    · cases hloose
    · exact Iff.rfl
  all_goals first | exact Iff.rfl | cases hloose

/-- Whether two nodes lie beside each other, unless one of them is a key. -/
def Node.IsApart (first second : Node) : Prop :=
  first.isKey = true ∨ second.isKey = true ∨ first.span.stop ≤ second.front ∨
    second.span.stop ≤ first.front

theorem Node.IsApart.isListing {first second : Node} (h : first.IsApart second) :
    first.isListing = true ∨ second.isListing = true ∨ first.span.stop ≤ second.front ∨
      second.span.stop ≤ first.front :=
  h.imp Node.isListing_of_isKey (.imp Node.isListing_of_isKey id)

theorem Node.IsApart.symm {first second : Node} (h : first.IsApart second) : second.IsApart first := by
  unfold Node.IsApart at h ⊢
  tauto

instance : Std.Symm Node.IsApart :=
  ⟨fun _ _ h => h.symm⟩

/-- A tree whose nodes lie in the order of a text. `markers` says how comments are read there. -/
inductive Node.Ordered (source : List Char) (markers : Bool) : Node → Prop
  | mk {span : Span} {form : Form} {parts : List Node} (hle : span.start ≤ span.stop)
      (hwithin : ∀ part ∈ parts, part.span.stop ≤ span.stop)
      (hapart : parts.Pairwise Node.IsApart) (harranged : Arranged source markers span form parts)
      (hparts : ∀ part ∈ parts, Node.Ordered source markers part) :
      Node.Ordered source markers (.mk span form parts)

variable {source : List Char} {markers : Bool}

namespace Node.Ordered

variable {node : Node}

theorem start_le_stop (h : node.Ordered source markers) : node.span.start ≤ node.span.stop := by
  cases h with
  | mk hle hwithin hapart harranged hparts => exact hle

theorem front_le_stop (h : node.Ordered source markers) : node.front ≤ node.span.stop :=
  node.front_le_start.trans h.start_le_stop

theorem stop_le (h : node.Ordered source markers) {part : Node} (hpart : part ∈ node.parts) :
    part.span.stop ≤ node.span.stop := by
  cases h with
  | mk hle hwithin hapart harranged hparts => exact hwithin part hpart

theorem arranged (h : node.Ordered source markers) :
    Arranged source markers node.span node.form node.parts := by
  cases h with
  | mk hle hwithin hapart harranged hparts => exact harranged

theorem part (h : node.Ordered source markers) {part : Node} (hpart : part ∈ node.parts) :
    part.Ordered source markers := by
  cases h with
  | mk hle hwithin hapart harranged hparts => exact hparts part hpart

theorem pairwise_isApart (h : node.Ordered source markers) : node.parts.Pairwise Node.IsApart := by
  cases h with
  | mk hle hwithin hapart harranged hparts => exact hapart

theorem isApart (h : node.Ordered source markers) {first second : Node} (hfirst : first ∈ node.parts)
    (hsecond : second ∈ node.parts) (hne : first ≠ second) :
    first.isListing = true ∨ second.isListing = true ∨ first.span.stop ≤ second.front ∨
      second.span.stop ≤ first.front :=
  (h.pairwise_isApart.forall hfirst hsecond hne).isListing

end Node.Ordered

namespace Node.Within

variable {node root : Node}

theorem ordered (hwithin : node.Within root) (h : root.Ordered source markers) :
    node.Ordered source markers := by
  induction hwithin with
  | self => exact h
  | part hpart _ ih => exact ih (h.part hpart)

theorem front_le (hwithin : node.Within root) : root.front ≤ node.front := by
  induction hwithin with
  | self => exact Nat.le_refl _
  | part hpart _ ih => exact (Node.front_le_front hpart).trans ih

theorem stop_le (hwithin : node.Within root) (h : root.Ordered source markers) :
    node.span.stop ≤ root.span.stop := by
  induction hwithin with
  | self => exact Nat.le_refl _
  | part hpart _ ih => exact (ih (h.part hpart)).trans (h.stop_le hpart)

end Node.Within

/-! ### Targets -/

/-- What spells a target, and the target, hold parts that only have to stand behind where they
begin. -/
theorem Node.Spells.isLoose {node target : Node} (h : node.Spells target) :
    node.form.isLoose = true ∧ target.form.isLoose = true := by
  induction node using Node.induction generalizing target with
  | step span form parts ih =>
    obtain ⟨role, htarget⟩ := h
    unfold Node.toTargetAs? at htarget
    split at htarget
    case h_6 inner =>
      split at htarget
      · cases htarget
      · exact ⟨rfl, (ih inner (List.mem_singleton_self inner) ⟨_, htarget⟩).2⟩
    -- Else the target stands over the same text.
    all_goals
      repeat' split at htarget
      all_goals first
        | cases htarget
          exact ⟨rfl, rfl⟩
        | obtain ⟨_, _, rfl⟩ := Option.map_eq_some_iff.mp htarget
          exact ⟨rfl, rfl⟩
        | cases htarget

/-- A key spells no target. -/
theorem Node.Spells.not_isKey {node target : Node} (h : node.Spells target) : node.isKey = false := by
  obtain ⟨span, form, parts⟩ := node
  obtain ⟨role, htarget⟩ := h
  cases form <;> first | rfl | cases htarget

/-- Nodes lie beside each other that lie where nodes do which lie so, if keys are kept. -/
theorem Node.IsApart.of_within {first second first' second' : Node} (h : first.IsApart second)
    (hfirst : first' = first ∨ first.isKey = false) (hsecond : second' = second ∨ second.isKey = false)
    (hfirstFront : first.front ≤ first'.front) (hfirstStop : first'.span.stop ≤ first.span.stop)
    (hsecondFront : second.front ≤ second'.front)
    (hsecondStop : second'.span.stop ≤ second.span.stop) : first'.IsApart second' := by
  rcases h with hkey | hkey | hbefore | hbehind
  · obtain rfl : first' = first := hfirst.resolve_right (by simp [hkey])
    exact .inl hkey
  · obtain rfl : second' = second := hsecond.resolve_right (by simp [hkey])
    exact .inr (.inl hkey)
  · exact .inr (.inr (.inl ((hfirstStop.trans hbefore).trans hsecondFront)))
  · exact .inr (.inr (.inr ((hsecondStop.trans hbehind).trans hfirstFront)))

/-- Whether a node is ordered and lies where another one does, and is that if it is a key. -/
structure Node.StandsFor (source : List Char) (markers : Bool) (node target : Node) : Prop where
  ordered : target.Ordered source markers
  front : node.front ≤ target.front
  stop : target.span.stop ≤ node.span.stop
  key : target = node ∨ node.isKey = false

/-- Nodes that stand for others, one each, lie beside each other if those do. -/
theorem Node.StandsFor.pairwise_isApart {parts targets : List Node}
    (hmade : List.Forall₂ (Node.StandsFor source markers) parts targets)
    (hapart : parts.Pairwise Node.IsApart) : targets.Pairwise Node.IsApart ∧
      ∀ target ∈ targets, ∃ part ∈ parts, part.StandsFor source markers target := by
  induction hmade with
  | nil => exact ⟨.nil, nofun⟩
  | @cons part target parts targets hpart hrest ih =>
    obtain ⟨hfirst, hothers⟩ := List.pairwise_cons.mp hapart
    obtain ⟨hpairwise, hexists⟩ := ih hothers
    refine ⟨List.pairwise_cons.mpr ⟨fun other hother => ?_, hpairwise⟩, fun other hother => ?_⟩
    · obtain ⟨part', hpart', hstands⟩ := hexists other hother
      exact (hfirst part' hpart').of_within hpart.key hstands.key hpart.front hpart.stop hstands.front
        hstands.stop
    · rcases List.mem_cons.mp hother with rfl | hother
      · exact ⟨part, List.mem_cons_self, hpart⟩
      · obtain ⟨part', hpart', hstands⟩ := hexists other hother
        exact ⟨part', List.mem_cons_of_mem _ hpart', hstands⟩

/-- **Targets.** The target that an ordered expression spells is ordered, and lies where the expression
does. -/
theorem Node.Ordered.of_spells {node target : Node} (h : node.Ordered source markers)
    (hspells : node.Spells target) : node.StandsFor source markers target := by
  induction node using Node.induction generalizing target with
  | step span form parts ih =>
    cases hspells.retargets with
    | same => exact ⟨h, Nat.le_refl _, Nat.le_refl _, .inl rfl⟩
    | @inside _ _ inner _ hinner =>
      have hmem : inner ∈ [inner] := List.mem_singleton_self inner
      obtain ⟨hordered, hfront, hstop, -⟩ := ih inner hmem (h.part hmem) hinner
      exact ⟨hordered, (Node.front_le_front hmem).trans hfront, hstop.trans (h.stop_le hmem),
        .inr hspells.not_isKey⟩
    | @rebuilt _ _ form' _ targets hfree hmade =>
      obtain ⟨hloose, hloose'⟩ := hspells.isLoose
      have hstands : List.Forall₂ (Node.StandsFor source markers) parts targets := by
        have hparts (part : Node) (hpart : part ∈ parts) (target : Node)
            (hmade : target = part ∨ part.Spells target) : part.StandsFor source markers target := by
          rcases hmade with rfl | hpart'
          · exact ⟨h.part hpart, Nat.le_refl _, Nat.le_refl _, .inl rfl⟩
          · exact ih part hpart (h.part hpart) hpart'
        exact ((List.forall₂_and_left _ _).mpr ⟨hparts, hmade⟩).imp fun part target hboth =>
          hboth.1 target hboth.2
      cases h with
      | mk hle hwithin hapart harranged hordered =>
        obtain ⟨hpairwise, hexists⟩ := Node.StandsFor.pairwise_isApart hstands hapart
        have hfronts : ∀ target ∈ targets, span.start ≤ target.front := fun target htarget => by
          obtain ⟨part, hpart, hstands⟩ := hexists target htarget
          exact ((arranged_iff_of_isLoose hloose ..).mp harranged part hpart).trans hstands.front
        refine ⟨.mk hle (fun target htarget => ?_) hpairwise ((arranged_iff_of_isLoose hloose' ..).mpr hfronts)
          fun target htarget => ?_, ?_, Nat.le_refl _, .inr hspells.not_isKey⟩
        · obtain ⟨part, hpart, hstands⟩ := hexists target htarget
          exact hstands.stop.trans (hwithin part hpart)
        · obtain ⟨part, hpart, hstands⟩ := hexists target htarget
          exact hstands.ordered
        · exact (Node.front_le_start _).trans (Node.le_front_iff.mpr ⟨Nat.le_refl _, hfronts⟩)

end ModuleLinkage.Syntax
