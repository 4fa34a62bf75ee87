import ModuleLinkage.Proofs.Syntax.Anchoring.Rules
import ModuleLinkage.Proofs.Syntax.Ordering.Tree

/-!
# Parsers that lay nodes in the order of a text

A parser `Lays` nodes if what it gives lies behind where it began and ends where the token before the
present one does. As with `Reads`, this is a property of one run, on the condition that no fault has been
noted when it ends; it is a class, and the rules for putting parsers together are its instances. What
is known of a run is a chain of offsets: each value lies between where the parser stood and where it
stands behind it (`Step`), or a token has been passed. Parts of a new node lie beside each other because
of where they stand in this chain, which instances find (`AtMost`, `Found`, `Rows`).
-/

set_option autoImplicit false

namespace ModuleLinkage.Syntax

open Text

/-! ### Nodes in line -/

/-- Whether nodes lie one behind another between two offsets. -/
structure InLine (source : List Char) (markers : Bool) (lo hi : Nat) (nodes : List Node) : Prop where
  ordered : ∀ node ∈ nodes, node.Ordered source markers
  front : ∀ node ∈ nodes, lo ≤ node.front
  stop : ∀ node ∈ nodes, node.span.stop ≤ hi
  chain : nodes.Pairwise fun first second => first.span.stop ≤ second.front

namespace InLine

variable {source : List Char} {markers : Bool} {lo middle middle' hi lo' hi' : Nat} {node : Node}
  {nodes first second : List Node}

theorem nil : InLine source markers lo hi [] :=
  ⟨nofun, nofun, nofun, .nil⟩

theorem single (hordered : node.Ordered source markers) (hfront : lo ≤ node.front)
    (hstop : node.span.stop ≤ hi) : InLine source markers lo hi [node] := by
  refine ⟨?_, ?_, ?_, List.pairwise_singleton _ _⟩ <;> simpa

theorem mono (h : InLine source markers lo hi nodes) (hlo : lo' ≤ lo) (hhi : hi ≤ hi') :
    InLine source markers lo' hi' nodes :=
  ⟨h.ordered, fun node hnode => hlo.trans (h.front node hnode),
    fun node hnode => (h.stop node hnode).trans hhi, h.chain⟩

/-- Nodes that begin behind others. -/
theorem append_behind (hfirst : InLine source markers lo middle first)
    (hsecond : InLine source markers lo hi second) (hbehind : ∀ node ∈ second, middle ≤ node.front)
    (hhi : middle ≤ hi) : InLine source markers lo hi (first ++ second) := by
  refine ⟨?_, ?_, ?_, ?_⟩
  · exact List.forall_mem_append.mpr ⟨hfirst.ordered, hsecond.ordered⟩
  · exact List.forall_mem_append.mpr ⟨hfirst.front, hsecond.front⟩
  · exact List.forall_mem_append.mpr ⟨(hfirst.mono (Nat.le_refl _) hhi).stop, hsecond.stop⟩
  · refine List.pairwise_append.mpr ⟨hfirst.chain, hsecond.chain, fun node hnode other hother => ?_⟩
    exact (hfirst.stop node hnode).trans (hbehind other hother)

/-- Nodes behind an offset that others end before. -/
theorem append (hfirst : InLine source markers lo middle first)
    (hsecond : InLine source markers middle' hi second) (hmiddle : middle ≤ middle')
    (hlo : lo ≤ middle') (hhi : middle ≤ hi) : InLine source markers lo hi (first ++ second) :=
  hfirst.append_behind (hsecond.mono hlo (Nat.le_refl _))
    (fun node hnode => hmiddle.trans (hsecond.front node hnode)) hhi

/-- A node in front of others. -/
theorem cons (hordered : node.Ordered source markers) (hfront : lo ≤ node.front)
    (hstop : node.span.stop ≤ hi) (hnodes : InLine source markers node.span.stop hi nodes) :
    InLine source markers lo hi (node :: nodes) :=
  (single hordered hfront (Nat.le_refl _)).append hnodes (Nat.le_refl _)
    (hfront.trans hordered.front_le_stop) hstop

theorem tail (h : InLine source markers lo hi (node :: nodes)) :
    InLine source markers node.span.stop hi nodes :=
  ⟨(List.forall_mem_cons.mp h.ordered).2, (List.pairwise_cons.mp h.chain).1,
    (List.forall_mem_cons.mp h.stop).2, (List.pairwise_cons.mp h.chain).2⟩

/-- A node covers something, so it ends no earlier than where it may begin. -/
theorem le_of_mem (h : InLine source markers lo hi nodes) (hnode : node ∈ nodes) : lo ≤ hi :=
  ((h.front node hnode).trans (h.ordered node hnode).front_le_stop).trans (h.stop node hnode)

end InLine

/-! ### Values -/

/-- The values that parsers give, with what it means that they lie between two offsets. -/
class Placed (α : Type) where
  Lies : List Char → Bool → Nat → Nat → α → Prop
  mono : ∀ {source : List Char} {markers : Bool} {lo hi lo' hi' : Nat} {value : α}, lo' ≤ lo →
    hi ≤ hi' → Lies source markers lo hi value → Lies source markers lo' hi' value

export Placed (Lies)

/-- Values that nodes stand in, one behind another. -/
class Holding (α : Type) where
  nodes : α → List Node

instance placedHolding {α : Type} [Holding α] : Placed α where
  Lies source markers lo hi value := InLine source markers lo hi (Holding.nodes value)
  mono hlo hhi h := h.mono hlo hhi

instance : Holding Node := ⟨fun node => [node]⟩
instance {α : Type} [Holding α] : Holding (Option α) := ⟨fun value? => value?.toList.flatMap Holding.nodes⟩
instance {α : Type} [Holding α] : Holding (List α) := ⟨fun values => values.flatMap Holding.nodes⟩
instance {α β : Type} [Holding α] [Plain β] : Holding (α × β) := ⟨fun pair => Holding.nodes pair.1⟩

section Values

variable {source : List Char} {markers : Bool} {lo hi : Nat} {α : Type} [Holding α]

theorem lies_node_iff {node : Node} : Lies source markers lo hi node ↔
    node.Ordered source markers ∧ lo ≤ node.front ∧ node.span.stop ≤ hi := by
  refine ⟨fun h => ⟨h.ordered node (by simp [Holding.nodes]), h.front node (by simp [Holding.nodes]),
    h.stop node (by simp [Holding.nodes])⟩, fun h => .single h.1 h.2.1 h.2.2⟩

theorem lies_nodes_iff {nodes : List Node} :
    Lies source markers lo hi nodes ↔ InLine source markers lo hi nodes := by
  have hnodes : nodes.flatMap Holding.nodes = nodes := List.flatMap_singleton' nodes
  exact iff_of_eq (congrArg (InLine source markers lo hi) hnodes)

theorem lies_some_iff {value : α} :
    Lies source markers lo hi (some value) ↔ Lies source markers lo hi value := by
  have hnodes : (some value).toList.flatMap Holding.nodes = Holding.nodes value := by simp
  exact iff_of_eq (congrArg (InLine source markers lo hi) hnodes)

theorem lies_none : Lies source markers lo hi (none : Option α) :=
  InLine.nil

theorem lies_pair_iff {β : Type} [Plain β] {value : α} {other : β} :
    Lies source markers lo hi (value, other) ↔ Lies source markers lo hi value :=
  Iff.rfl

end Values

/-! ### The chain of offsets -/

/-- What is known of two offsets, of which the present token does not begin before the first and the
token before it does not end before the second, when the parser has gone on. -/
structure Step (lo left lo' left' : Nat) : Prop where
  start : lo ≤ lo'
  left : left ≤ left'
  order : left' ≤ lo'

/-- One offset is not behind another, as instances can tell. -/
class AtMost (h : Prop) (lower upper : Nat) : Prop where
  imp : h → lower ≤ upper

/-- Between which offsets a value lies, as instances can tell. -/
class Found {α : Type} [Placed α] (source : List Char) (markers : Bool) (h : Prop) (value : α)
    (lo hi : outParam Nat) : Prop where
  imp : h → Lies source markers lo hi value

/-- A value lies between two given offsets, as instances can tell. -/
class Given {α : Type} [Placed α] (source : List Char) (markers : Bool) (h : Prop) (lo : Nat)
    (value : α) (hi : Nat) : Prop where
  imp : h → Lies source markers lo hi value

/-- Nodes lie one behind another from an offset on and behind a further one, and where they end. -/
class Rows (source : List Char) (markers : Bool) (h : Prop) (lo behind : Nat) (nodes : List Node)
    (hi : outParam Nat) : Prop where
  imp : h → behind ≤ hi ∧ InLine source markers lo hi nodes ∧ ∀ node ∈ nodes, behind ≤ node.front

section Chain

variable {source : List Char} {markers : Bool} {h q : Prop}
  {lo left lo' left' lower upper middle hi behind : Nat}

instance (priority := high) atMost_refl : AtMost h upper upper :=
  ⟨fun _ => Nat.le_refl _⟩

instance (priority := high) atMost_zero : AtMost h 0 upper :=
  ⟨fun _ => Nat.zero_le _⟩

instance (priority := high) atMost_order : AtMost (h ∧ Step lo left lo' left') left' lo' :=
  ⟨fun hboth => hboth.2.order⟩

instance atMost_start [hlower : AtMost h lower lo] :
    AtMost (h ∧ Step lo left lo' left') lower lo' :=
  ⟨fun hboth => (hlower.imp hboth.1).trans hboth.2.start⟩

instance atMost_left [hlower : AtMost h lower left] :
    AtMost (h ∧ Step lo left lo' left') lower left' :=
  ⟨fun hboth => (hlower.imp hboth.1).trans hboth.2.left⟩

instance atMost_passed [hlower : AtMost h lower middle] : AtMost (h ∧ middle ≤ upper) lower upper :=
  ⟨fun hboth => (hlower.imp hboth.1).trans hboth.2⟩

instance atMost_add {length : Nat} [hlower : AtMost h lower upper] :
    AtMost h lower (upper + length) :=
  ⟨fun hbefore => (hlower.imp hbefore).trans (Nat.le_add_right _ _)⟩

instance atMost_node {node : Node} [hlower : AtMost h lower lo] :
    AtMost (h ∧ Lies source markers lo hi node) lower hi :=
  ⟨fun hboth => (hlower.imp hboth.1).trans (hboth.2.le_of_mem (List.mem_singleton_self node))⟩

instance atMost_firstNode {β : Type} [Plain β] {pair : Node × β} [hlower : AtMost h lower lo] :
    AtMost (h ∧ Lies source markers lo hi pair) lower hi :=
  ⟨fun hboth => (hlower.imp hboth.1).trans (hboth.2.le_of_mem (List.mem_singleton_self pair.1))⟩

instance atMost_nodes {nodes : List Node} [hsome : Entails h (nodes ≠ [])]
    [hlower : AtMost h lower lo] : AtMost (h ∧ Lies source markers lo hi nodes) lower hi := by
  refine ⟨fun hboth => (hlower.imp hboth.1).trans ?_⟩
  obtain ⟨node, hnode⟩ := List.exists_mem_of_ne_nil nodes (hsome.imp hboth.1)
  exact (lies_nodes_iff.mp hboth.2).le_of_mem hnode

instance (priority := low) atMost_before [hlower : AtMost h lower upper] :
    AtMost (h ∧ q) lower upper :=
  ⟨fun hboth => hlower.imp hboth.1⟩

variable {α β : Type}

instance (priority := high) found_last [Placed α] {value : α} :
    Found source markers (h ∧ Lies source markers lo hi value) value lo hi :=
  ⟨And.right⟩

instance (priority := low) found_before [Placed α] {value : α}
    [hvalue : Found source markers h value lo hi] :
    Found source markers (h ∧ q) value lo hi :=
  ⟨fun hboth => hvalue.imp hboth.1⟩

instance found_first [Holding α] [Plain β] {value : α} {other : β} :
    Found source markers (h ∧ Lies source markers lo hi (value, other)) value lo hi :=
  ⟨fun hboth => lies_pair_iff.mp hboth.2⟩

instance found_projFst [Holding α] [Plain β] {pair : α × β} :
    Found source markers (h ∧ Lies source markers lo hi pair) pair.1 lo hi :=
  ⟨And.right⟩

instance found_ofSome [Holding α] {value : α} :
    Found source markers (h ∧ Lies source markers lo hi (some value)) value lo hi :=
  ⟨fun hboth => lies_some_iff.mp hboth.2⟩

instance found_toList [Holding α] {value? : Option α} :
    Found source markers (h ∧ Lies source markers lo hi value?) value?.toList lo hi :=
  ⟨And.right⟩

instance found_flatten {lists : List (List Node)} :
    Found source markers (h ∧ Lies source markers lo hi lists) lists.flatten lo hi := by
  refine ⟨fun hboth => lies_nodes_iff.mpr ?_⟩
  have hnodes : lists.flatMap Holding.nodes = lists.flatten := by
    rw [← List.flatMap_id]
    exact List.flatMap_congr fun nodes _ => List.flatMap_singleton' nodes
  exact hnodes ▸ hboth.2

instance found_firsts [Plain β] {pairs : List (Node × β)} :
    Found source markers (h ∧ Lies source markers lo hi pairs) (pairs.map Prod.fst) lo hi := by
  refine ⟨fun hboth => lies_nodes_iff.mpr ?_⟩
  have hnodes : pairs.flatMap Holding.nodes = pairs.map Prod.fst := List.flatMap_pure_eq_map Prod.fst pairs
  exact hnodes ▸ hboth.2

end Chain

/-! ### Rows of nodes -/

section Rows

variable {source : List Char} {markers : Bool} {h : Prop}
  {lo hi behind middle lo' hi' : Nat} {node : Node} {nodes first second : List Node}

instance rows_nil : Rows source markers h lo behind [] behind :=
  ⟨fun _ => ⟨Nat.le_refl _, .nil, nofun⟩⟩

instance rows_cons [hnode : Found source markers h node lo' hi'] [hlo : AtMost h lo lo']
    [hbehind : AtMost h behind lo'] [hnodes : Rows source markers h lo hi' nodes hi] :
    Rows source markers h lo behind (node :: nodes) hi := by
  refine ⟨fun hbefore => ?_⟩
  obtain ⟨hordered, hfront, hstop⟩ := lies_node_iff.mp (hnode.imp hbefore)
  obtain ⟨hle, hline, hrest⟩ := hnodes.imp hbefore
  have hbehind' := (hbehind.imp hbefore).trans hfront
  refine ⟨((hbehind'.trans hordered.front_le_stop).trans hstop).trans hle, ⟨?_, ?_, ?_, ?_⟩, ?_⟩
  · exact List.forall_mem_cons.mpr ⟨hordered, hline.ordered⟩
  · exact List.forall_mem_cons.mpr ⟨(hlo.imp hbefore).trans hfront, hline.front⟩
  · exact List.forall_mem_cons.mpr ⟨hstop.trans hle, hline.stop⟩
  · exact List.pairwise_cons.mpr ⟨fun other hother => hstop.trans (hrest other hother), hline.chain⟩
  · exact List.forall_mem_cons.mpr
      ⟨hbehind', fun other hother => ((hbehind'.trans hordered.front_le_stop).trans hstop).trans
        (hrest other hother)⟩

instance rows_append [hfirst : Rows source markers h lo behind first middle]
    [hsecond : Rows source markers h lo middle second hi] :
    Rows source markers h lo behind (first ++ second) hi := by
  refine ⟨fun hbefore => ?_⟩
  obtain ⟨hle, hline, hbehind⟩ := hfirst.imp hbefore
  obtain ⟨hle', hline', hbehind'⟩ := hsecond.imp hbefore
  exact ⟨hle.trans hle', hline.append_behind hline' hbehind' hle', List.forall_mem_append.mpr
    ⟨hbehind, fun other hother => hle.trans (hbehind' other hother)⟩⟩

/-- Nodes that were read together. -/
instance (priority := low) rows_found [hnodes : Found source markers h nodes lo' hi']
    [hlo : AtMost h lo lo'] [hbehind : AtMost h behind lo'] [hbehind' : AtMost h behind hi'] :
    Rows source markers h lo behind nodes hi' := by
  refine ⟨fun hbefore => ⟨hbehind'.imp hbefore, ?_, fun node hnode => ?_⟩⟩
  · exact (lies_nodes_iff.mp (hnodes.imp hbefore)).mono (hlo.imp hbefore) (Nat.le_refl _)
  · exact (hbehind.imp hbefore).trans ((lies_nodes_iff.mp (hnodes.imp hbefore)).front node hnode)

end Rows

/-! ### Given values -/

section Given

variable {source : List Char} {markers : Bool} {h : Prop} {lo hi middle lo' hi' : Nat}
  {α β : Type}

instance (priority := low) given_found [Placed α] {value : α}
    [hvalue : Found source markers h value lo' hi'] [hlo : AtMost h lo lo'] [hhi : AtMost h hi' hi] :
    Given source markers h lo value hi :=
  ⟨fun hbefore => Placed.mono (hlo.imp hbefore) (hhi.imp hbefore) (hvalue.imp hbefore)⟩

instance given_nodes {nodes : List Node} [hnodes : Rows source markers h lo 0 nodes middle]
    [hhi : AtMost h middle hi] : Given source markers h lo nodes hi :=
  ⟨fun hbefore => lies_nodes_iff.mpr ((hnodes.imp hbefore).2.1.mono (Nat.le_refl _) (hhi.imp hbefore))⟩

instance given_none [Holding α] : Given source markers h lo (none : Option α) hi :=
  ⟨fun _ => lies_none⟩

instance given_some [Holding α] {value : α} [hvalue : Given source markers h lo value hi] :
    Given source markers h lo (some value) hi :=
  ⟨fun hbefore => lies_some_iff.mpr (hvalue.imp hbefore)⟩

instance given_pair [Holding α] [Plain β] {value : α} {other : β}
    [hvalue : Given source markers h lo value hi] : Given source markers h lo (value, other) hi :=
  ⟨fun hbefore => lies_pair_iff.mpr (hvalue.imp hbefore)⟩

end Given

/-! ### Keeping the settings -/

/-- A parser that leaves the settings as they are. -/
class Steady {α : Type} (parser : Parser α) : Prop where
  settings : ∀ s value s', parser s = .done value s' → s'.settings = s.settings

section Steady

variable {α β : Type} {parser : Parser α} {next : α → Parser β}

theorem Steady.step [hparser : Steady parser] (hnext : ∀ value, Steady (next value)) :
    Steady (parser >>= next) := by
  refine ⟨fun s value s' hrun => ?_⟩
  obtain ⟨first, middle, hfirst, hrest⟩ := done_of_bind hrun
  rw [(hnext first).settings _ _ _ hrest, hparser.settings _ _ _ hfirst]

instance steady_bind [Steady parser] [hnext : ∀ value, Steady (next value)] :
    Steady (parser >>= next) :=
  .step hnext

instance steady_pure {value : α} : Steady (pure value : Parser α) := by
  refine ⟨fun s value s' hrun => ?_⟩
  cases hrun
  rfl

instance steady_fail : Steady (Parser.fail : Parser α) :=
  ⟨fun _ _ _ hrun => nomatch hrun⟩

instance steady_ite {condition : Prop} [Decidable condition] {first second : Parser α}
    [hfirst : Steady first] [hsecond : Steady second] :
    Steady (if condition then first else second) := by
  split
  · exact hfirst
  · exact hsecond

instance steady_andM {first second : Parser Bool} [Steady first] [hsecond : Steady second] :
    Steady (first <&&> second) := by
  refine .step fun value => ?_
  cases value with
  | false => exact steady_pure
  | true => exact hsecond

instance steady_orM {first second : Parser Bool} [Steady first] [hsecond : Steady second] :
    Steady (first <||> second) := by
  refine .step fun value => ?_
  cases value with
  | false => exact hsecond
  | true => exact steady_pure

/-- A change of the state that leaves the settings alone. -/
theorem steady_modify {change : State → State} (hchange : ∀ s, (change s).settings = s.settings) :
    Steady (Parser.modify change) := by
  refine ⟨fun s value s' hrun => ?_⟩
  cases hrun
  exact hchange s

instance steady_get : Steady Parser.get := by
  refine ⟨fun s value s' hrun => ?_⟩
  cases hrun
  rfl

instance steady_require (condition : Bool) : Steady (Parser.require condition) := by
  unfold Parser.require
  infer_instance

instance steady_check (condition : Bool) : Steady (Parser.check condition) := by
  have hnote : Steady (Parser.modify fun s => { s with faulty := true }) := steady_modify fun _ => rfl
  unfold Parser.check
  infer_instance

instance steady_lookAhead : Steady parser.lookAhead := by
  refine ⟨fun s value s' hrun => ?_⟩
  obtain ⟨notArrows, rfl⟩ := still_of_lookAhead hrun
  rfl

instance steady_sees (test : Parser Bool) : Steady (Parser.sees test) := by
  unfold Parser.sees
  infer_instance

instance steady_attempt [hparser : Steady parser] : Steady parser.attempt := by
  refine ⟨fun s value s' hrun => ?_⟩
  unfold Parser.attempt at hrun
  split at hrun
  · next hfound =>
    cases hrun
    exact hparser.settings _ _ _ hfound
  · cases hrun
    rfl

instance steady_within {change : Context → Context} [hparser : Steady parser] :
    Steady (Parser.within change parser) := by
  refine ⟨fun s value s' hrun => ?_⟩
  unfold Parser.within at hrun
  split at hrun
  · next hfound =>
    cases hrun
    have hsettings := hparser.settings _ _ _ hfound
    exact hsettings
  · cases hrun

instance steady_discard [Steady parser] : Steady (discard parser) := by
  have hbind : Steady (parser >>= fun _ => pure ()) := inferInstance
  exact hbind

theorem Steady.iterate {step : α → Parser (Option α)} {value : α}
    (hstep : ∀ value, Steady (step value)) : Steady (Parser.iterate step value) := by
  have hupTo (count : Nat) (value : α) : Steady (Parser.iterateUpTo count step value) := by
    induction count generalizing value with
    | zero => exact steady_fail
    | succ count ih =>
      refine .step fun next? => ?_
      cases next? with
      | none => exact steady_pure
      | some next => exact ih next
  unfold Parser.iterate
  exact .step fun state => hupTo _ _

instance steady_iterate {step : α → Parser (Option α)} {value : α}
    [hstep : ∀ value, Steady (step value)] : Steady (Parser.iterate step value) :=
  .iterate hstep

theorem Steady.many {step : Parser (Option α)} (hstep : Steady step) :
    Steady (Parser.many step) := by
  unfold Parser.many
  refine @Steady.step _ _ _ _ (.iterate fun values => .step fun value? => ?_) fun values => steady_pure
  split <;> exact steady_pure

instance steady_many {step : Parser (Option α)} [hstep : Steady step] : Steady (Parser.many step) :=
  .many hstep

end Steady

/-! ### Laying -/

/-- Whether a state is one of reading a text, where `markers` says how comments are read. -/
structure State.Reading (source : List Char) (markers : Bool) (s : State) : Prop where
  sound : s.Sound source
  markers : (!s.settings.module) = markers

/-- Whether the run of a parser from a state, if that is one of reading a text where certain offsets have
been reached and some facts are known, goes on along the text and gives what lies between the offset
`outset` and where the parser stands, unless a fault is noted. -/
def LaysAt {α : Type} [Placed α] (source : List Char) (markers : Bool) (h : Prop)
    (outset lo left : Nat) (s : State) (parser : Parser α) : Prop :=
  ∀ value s', parser s = .done value s' → (s.faulty = true → s'.faulty = true) ∧
    (s'.faulty = false → h → s.Reading source markers → lo ≤ s.lexeme.span.start →
      left ≤ s.previousStop → s'.Reading source markers ∧ s.Before s' ∧
        Lies source markers outset s'.previousStop value)

/-- Whether all runs of a parser lay what they give in order. -/
class Lays {α : Type} [Placed α] (source : List Char) (markers : Bool) (h : Prop)
    (outset lo left : Nat) (parser : Parser α) : Prop where
  run : ∀ s, LaysAt source markers h outset lo left s parser

/-- Where the value that a parser gives begins: where the parser stands, unless it has been told of
an offset before that. -/
class Outset {α : Type} (parser : Parser α) (lo : Nat) (outset : outParam Nat) : Prop

/-- A parser that passes a token. -/
class Passes {α : Type} (parser : Parser α) : Prop where
  le : ∀ source s value s', parser s = .done value s' → s'.faulty = false → s.Sound source →
    s.lexeme.span.start ≤ s'.previousStop

/-- What is known of all values that a parser gives. -/
class Knows {α : Type} (parser : Parser α) (known : outParam (α → Prop)) : Prop where
  gives : Gives parser known

section Rules

variable {α β : Type} [Placed β] {source : List Char} {markers : Bool} {h h' : Prop}
  {outset lo left : Nat} {parser : Parser α} {next : α → Parser β}

instance (priority := low) outset_here : Outset parser lo lo := ⟨⟩

instance outset_within {change : Context → Context} [Outset parser lo outset] :
    Outset (Parser.within change parser) lo outset := ⟨⟩

theorem LaysAt.of_imp {s : State} {parser : Parser β} (himp : h → h')
    (hlays : LaysAt source markers h' outset lo left s parser) :
    LaysAt source markers h outset lo left s parser := by
  intro value s' hrun
  obtain ⟨hfaulty, hgives⟩ := hlays value s' hrun
  exact ⟨hfaulty, fun hclean hbefore => hgives hclean (himp hbefore)⟩

theorem Lays.of_imp {parser : Parser β} (himp : h → h')
    (hlays : Lays source markers h' outset lo left parser) :
    Lays source markers h outset lo left parser :=
  ⟨fun s => (hlays.run s).of_imp himp⟩

theorem LaysAt.clean {s s' : State} {parser : Parser β} {value : β}
    (hlays : LaysAt source markers h outset lo left s parser) (hrun : parser s = .done value s')
    (hclean : s'.faulty = false) : s.faulty = false := by
  by_contra hfault
  rw [(hlays value s' hrun).1 (by simpa using hfault)] at hclean
  cases hclean

/-- A fact that holds in a state without a fault. -/
theorem LaysAt.of_known {s : State} {parser : Parser β} {known : Prop}
    (hknown : h → s.Reading source markers → s.faulty = false → known)
    (hlays : LaysAt source markers (h ∧ known) outset lo left s parser) :
    LaysAt source markers h outset lo left s parser := by
  intro value s' hrun
  obtain ⟨hfaulty, hgives⟩ := hlays value s' hrun
  exact ⟨hfaulty, fun hclean hbefore hreading =>
    hgives hclean ⟨hbefore, hknown hbefore hreading (hlays.clean hrun hclean)⟩ hreading⟩

/-- Offsets that the state has reached. -/
theorem LaysAt.raise {s : State} {parser : Parser β} {lo' left' : Nat}
    (hlays : LaysAt source markers h outset lo' left' s parser)
    (hraise : h → s.Reading source markers → lo ≤ s.lexeme.span.start → left ≤ s.previousStop →
      lo' ≤ s.lexeme.span.start ∧ left' ≤ s.previousStop) :
    LaysAt source markers h outset lo left s parser := by
  intro value s' hrun
  obtain ⟨hfaulty, hgives⟩ := hlays value s' hrun
  refine ⟨hfaulty, fun hclean hbefore hreading hlo hleft => ?_⟩
  obtain ⟨hlo', hleft'⟩ := hraise hbefore hreading hlo hleft
  exact hgives hclean hbefore hreading hlo' hleft'

/-- The context makes no difference. -/
theorem State.Reading.inContext {s : State} (h : s.Reading source markers) (context : Context) :
    ({ s with context } : State).Reading source markers :=
  ⟨⟨h.sound.total, h.sound.lexeme, h.sound.previous, h.sound.order, h.sound.next⟩, h.markers⟩

/-- What a parser that gives nothing of a text does to a state. -/
theorem moves_of_reads (source : List Char) (markers : Bool) [Plain α]
    [hreads : Reads source True 0 0 parser] [hsteady : Steady parser] {s s' : State} {value : α}
    (hrun : parser s = .done value s') :
    (s.faulty = true → s'.faulty = true) ∧ (s'.faulty = false → s.Reading source markers →
      s'.Reading source markers ∧ s.Before s') := by
  obtain ⟨hfaulty, hgives⟩ := hreads.run s value s' hrun
  refine ⟨hfaulty, fun hclean hreading => ?_⟩
  obtain ⟨hsound, horder, -⟩ := hgives hclean trivial hreading.sound (Nat.zero_le _) (Nat.zero_le _)
  exact ⟨⟨hsound, by rw [hsteady.settings _ _ _ hrun, hreading.markers]⟩, horder⟩

/-- What follows a parser that gives nothing of the text. -/
theorem LaysAt.skip [Plain α] [hreads : Reads source True 0 0 parser] [hsteady : Steady parser]
    {s : State} (hnext : ∀ value s', parser s = .done value s' →
      LaysAt source markers h outset lo left s' (next value)) :
    LaysAt source markers h outset lo left s (parser >>= next) := by
  intro value s' hrun
  obtain ⟨first, middle, hfirst, hrest⟩ := done_of_bind hrun
  obtain ⟨hfaulty, hmoves⟩ := moves_of_reads source markers hfirst
  obtain ⟨hfaulty', hgives'⟩ := hnext first middle hfirst value s' hrest
  refine ⟨hfaulty' ∘ hfaulty, fun hclean hbefore hreading hlo hleft => ?_⟩
  obtain ⟨hreading', horder⟩ := hmoves ((hnext first middle hfirst).clean hrest hclean) hreading
  obtain ⟨hreading'', horder', hlies⟩ := hgives' hclean hbefore hreading' (hlo.trans horder.start)
    (hleft.trans horder.previous)
  exact ⟨hreading'', horder.trans horder', hlies⟩

theorem Lays.skip [Plain α] [Reads source True 0 0 parser] [Steady parser]
    (hnext : ∀ value, Lays source markers h outset lo left (next value)) :
    Lays source markers h outset lo left (parser >>= next) :=
  ⟨fun _ => .skip fun value s' _ => (hnext value).run s'⟩

/-- What follows a parser that passes a token and gives nothing of the text. -/
theorem LaysAt.pass [Plain α] [hreads : Reads source True 0 0 parser] [hsteady : Steady parser]
    [hpasses : Passes parser] {s : State} (hnext : ∀ value s' passed, parser s = .done value s' →
      LaysAt source markers (h ∧ lo ≤ passed) outset passed passed s' (next value)) :
    LaysAt source markers h outset lo left s (parser >>= next) := by
  intro value s' hrun
  obtain ⟨first, middle, hfirst, hrest⟩ := done_of_bind hrun
  obtain ⟨hfaulty, hmoves⟩ := moves_of_reads source markers hfirst
  have hlays := hnext first middle middle.previousStop hfirst
  obtain ⟨hfaulty', hgives'⟩ := hlays value s' hrest
  refine ⟨hfaulty' ∘ hfaulty, fun hclean hbefore hreading hlo hleft => ?_⟩
  have hclean' := hlays.clean hrest hclean
  obtain ⟨hreading', horder⟩ := hmoves hclean' hreading
  have hpassed := hpasses.le source s first middle hfirst hclean' hreading.sound
  obtain ⟨hreading'', horder', hlies⟩ := hgives' hclean ⟨hbefore, hlo.trans hpassed⟩ hreading'
    hreading'.sound.order (Nat.le_refl _)
  exact ⟨hreading'', horder.trans horder', hlies⟩

theorem Lays.pass [Plain α] [Reads source True 0 0 parser] [Steady parser] [Passes parser]
    (hnext : ∀ value passed, Lays source markers (h ∧ lo ≤ passed) outset passed passed (next value)) :
    Lays source markers h outset lo left (parser >>= next) :=
  ⟨fun _ => .pass fun value s' passed _ => (hnext value passed).run s'⟩

/-- What follows a parser that gives something of the text. -/
theorem LaysAt.bind [Placed α] {s : State} {begins : Nat}
    (hparser : LaysAt source markers h begins lo left s parser)
    (hnext : ∀ value s' lo' left', parser s = .done value s' →
      LaysAt source markers ((h ∧ Step lo left lo' left') ∧ Lies source markers begins left' value)
        outset lo' left' s' (next value)) :
    LaysAt source markers h outset lo left s (parser >>= next) := by
  intro value s' hrun
  obtain ⟨first, middle, hfirst, hrest⟩ := done_of_bind hrun
  obtain ⟨hfaulty, hgives⟩ := hparser first middle hfirst
  have hlays := hnext first middle middle.lexeme.span.start middle.previousStop hfirst
  obtain ⟨hfaulty', hgives'⟩ := hlays value s' hrest
  refine ⟨hfaulty' ∘ hfaulty, fun hclean hbefore hreading hlo hleft => ?_⟩
  obtain ⟨hreading', horder, hlies⟩ :=
    hgives (hlays.clean hrest hclean) hbefore hreading hlo hleft
  obtain ⟨hreading'', horder', hlies'⟩ := hgives' hclean ⟨⟨hbefore, hlo.trans horder.start,
    hleft.trans horder.previous, hreading'.sound.order⟩, hlies⟩ hreading' (Nat.le_refl _)
      (Nat.le_refl _)
  exact ⟨hreading'', horder.trans horder', hlies'⟩

theorem Lays.bind [Placed α] {begins : Nat} (hparser : Lays source markers h begins lo left parser)
    (hnext : ∀ value lo' left', Lays source markers
      ((h ∧ Step lo left lo' left') ∧ Lies source markers begins left' value) outset lo' left'
        (next value)) :
    Lays source markers h outset lo left (parser >>= next) :=
  ⟨fun s => (hparser.run s).bind fun value s' lo' left' _ => (hnext value lo' left').run s'⟩

/-- What follows a run of a parser that is known to lay what it gives. -/
theorem LaysAt.step [Placed α] {s : State} {begins : Nat} [Outset parser lo begins]
    [hparser : Lays source markers h begins lo left parser]
    (hnext : ∀ value s' lo' left', parser s = .done value s' →
      LaysAt source markers ((h ∧ Step lo left lo' left') ∧ Lies source markers begins left' value)
        outset lo' left' s' (next value)) :
    LaysAt source markers h outset lo left s (parser >>= next) :=
  (hparser.run s).bind hnext

/-- What follows a run of a parser that is known to lay what it gives behind a given offset. -/
theorem LaysAt.stepFrom [Placed α] {s : State} (begins : Nat)
    [hparser : Lays source markers h begins lo left parser]
    (hnext : ∀ value s' lo' left', parser s = .done value s' →
      LaysAt source markers ((h ∧ Step lo left lo' left') ∧ Lies source markers begins left' value)
        outset lo' left' s' (next value)) :
    LaysAt source markers h outset lo left s (parser >>= next) :=
  (hparser.run s).bind hnext

/-- What follows a parser that is known to lay what it gives. -/
theorem Lays.step [Placed α] {begins : Nat} [Outset parser lo begins]
    [hparser : Lays source markers h begins lo left parser]
    (hnext : ∀ value lo' left', Lays source markers
      ((h ∧ Step lo left lo' left') ∧ Lies source markers begins left' value) outset lo' left'
        (next value)) :
    Lays source markers h outset lo left (parser >>= next) :=
  .bind hparser hnext

/-- What follows a parser that is known to lay what it gives behind a given offset. -/
theorem Lays.stepFrom [Placed α] (begins : Nat)
    [hparser : Lays source markers h begins lo left parser]
    (hnext : ∀ value lo' left', Lays source markers
      ((h ∧ Step lo left lo' left') ∧ Lies source markers begins left' value) outset lo' left'
        (next value)) :
    Lays source markers h outset lo left (parser >>= next) :=
  .bind hparser hnext

/-- What lies behind an offset lies behind an earlier one. -/
theorem Lays.widen {begins : Nat} {parser : Parser β} [houtset : AtMost h outset begins]
    (hlays : Lays source markers h begins lo left parser) :
    Lays source markers h outset lo left parser := by
  refine ⟨fun s value s' hrun => ?_⟩
  obtain ⟨hfaulty, hgives⟩ := hlays.run s value s' hrun
  refine ⟨hfaulty, fun hclean hbefore hreading hlo hleft => ?_⟩
  obtain ⟨hreading', horder, hlies⟩ := hgives hclean hbefore hreading hlo hleft
  exact ⟨hreading', horder, Placed.mono (houtset.imp hbefore) (Nat.le_refl _) hlies⟩

/-- What follows a parser of whose value more is known than where it lies. -/
theorem Lays.bind_of [Placed α] {known : α → Prop} (hknown : Gives parser known) {begins : Nat}
    (hparser : Lays source markers h begins lo left parser)
    (hnext : ∀ value lo' left', Lays source markers
      (((h ∧ known value) ∧ Step lo left lo' left') ∧ Lies source markers begins left' value) outset
        lo' left' (next value)) :
    Lays source markers h outset lo left (parser >>= next) := by
  refine ⟨fun s => (hparser.run s).bind fun value s' lo' left' hrun => ?_⟩
  exact ((hnext value lo' left').run s').of_imp fun hboth =>
    ⟨⟨⟨hboth.1.1, hknown s value s' hrun⟩, hboth.1.2⟩, hboth.2⟩

/-- What a check asks for holds if no fault is noted. -/
theorem Lays.of_check {condition : Bool} {next : Unit → Parser β}
    (hnext : Lays source markers (h ∧ condition = true) outset lo left (next ())) :
    Lays source markers h outset lo left (Parser.check condition >>= next) := by
  refine ⟨fun s value s' hrun => ?_⟩
  obtain ⟨_, middle, hcheck, hrest⟩ := done_of_bind hrun
  obtain ⟨hfaulty, hgives⟩ := hnext.run middle value s' hrest
  unfold Parser.check at hcheck
  split at hcheck
  · next hcondition =>
    cases hcheck
    exact ⟨hfaulty, fun hclean hbefore => hgives hclean ⟨hbefore, hcondition⟩⟩
  · cases hcheck
    have hfault := hfaulty rfl
    exact ⟨fun _ => hfault, fun hclean => absurd hclean (by rw [hfault]; nofun)⟩

/-! ### Parsers put together -/

instance (priority := 1200) lays_pass [Plain α] [Reads source True 0 0 parser] [Steady parser]
    [Passes parser]
    [hnext : ∀ value passed, Lays source markers (h ∧ lo ≤ passed) outset passed passed (next value)] :
    Lays source markers h outset lo left (parser >>= next) :=
  .pass hnext

instance (priority := 1150) lays_skip [Plain α] [Reads source True 0 0 parser] [Steady parser]
    [hnext : ∀ value, Lays source markers h outset lo left (next value)] :
    Lays source markers h outset lo left (parser >>= next) :=
  .skip hnext

instance (priority := 1100) lays_bindKnown [Placed α] {known : α → Prop} {begins : Nat}
    [hknown : Knows parser known] [Outset parser lo begins]
    [hparser : Lays source markers h begins lo left parser]
    [hnext : ∀ value lo' left', Lays source markers
      (((h ∧ known value) ∧ Step lo left lo' left') ∧ Lies source markers begins left' value) outset
        lo' left' (next value)] :
    Lays source markers h outset lo left (parser >>= next) :=
  .bind_of hknown.gives hparser hnext

instance lays_bind [Placed α] {begins : Nat} [Outset parser lo begins]
    [hparser : Lays source markers h begins lo left parser]
    [hnext : ∀ value lo' left', Lays source markers
      ((h ∧ Step lo left lo' left') ∧ Lies source markers begins left' value) outset lo' left'
        (next value)] :
    Lays source markers h outset lo left (parser >>= next) :=
  .bind hparser hnext

instance (priority := 1400) lays_pureBind {value : α}
    [hnext : Lays source markers h outset lo left (next value)] :
    Lays source markers h outset lo left (pure value >>= next) :=
  hnext

/-- What is given as it has been read. -/
theorem Lays.map {γ : Type} [Placed γ] {parser : Parser β} {wrap : β → γ}
    (hwrap : ∀ hi value, Lies source markers outset hi value → Lies source markers outset hi (wrap value))
    (hparser : Lays source markers h outset lo left parser) :
    Lays source markers h outset lo left (parser >>= fun value => pure (wrap value)) := by
  refine ⟨fun s value s' hrun => ?_⟩
  obtain ⟨first, middle, hfirst, hrest⟩ := done_of_bind hrun
  cases hrest
  obtain ⟨hfaulty, hgives⟩ := hparser.run s first s' hfirst
  refine ⟨hfaulty, fun hclean hbefore hreading hlo hleft => ?_⟩
  obtain ⟨hreading', horder, hlies⟩ := hgives hclean hbefore hreading hlo hleft
  exact ⟨hreading', horder, hwrap _ _ hlies⟩

instance (priority := 1050) lays_bindSome {γ : Type} [Holding γ] {parser : Parser γ}
    [hparser : Lays source markers h outset lo left parser] :
    Lays source markers h outset lo left (parser >>= fun value => pure (some value)) :=
  .map (fun _ _ => lies_some_iff.mpr) hparser

instance lays_pure {value : β} [hvalue : Given source markers h outset value left] :
    Lays source markers h outset lo left (pure value : Parser β) := by
  refine ⟨fun s value s' hrun => ?_⟩
  cases hrun
  exact ⟨id, fun _ hbefore hreading _ hleft =>
    ⟨hreading, .refl s, Placed.mono (Nat.le_refl _) hleft (hvalue.imp hbefore)⟩⟩

instance lays_ite {condition : Prop} [Decidable condition] {first second : Parser β}
    [hfirst : Lays source markers h outset lo left first]
    [hsecond : Lays source markers h outset lo left second] :
    Lays source markers h outset lo left (if condition then first else second) := by
  split
  · exact hfirst
  · exact hsecond

instance lays_fail : Lays source markers h outset lo left (Parser.fail : Parser β) :=
  ⟨fun _ _ _ hrun => nomatch hrun⟩

/-- The context makes no difference. -/
instance lays_within {change : Context → Context} {parser : Parser β}
    [hparser : Lays source markers h outset lo left parser] :
    Lays source markers h outset lo left (Parser.within change parser) := by
  refine ⟨fun s value s' hrun => ?_⟩
  unfold Parser.within at hrun
  split at hrun
  · next hfound =>
    obtain ⟨hfaulty, hgives⟩ := hparser.run _ _ _ hfound
    cases hrun
    refine ⟨hfaulty, fun hclean hbefore hreading hlo hleft => ?_⟩
    obtain ⟨hreading', horder, hlies⟩ := hgives hclean hbefore (hreading.inContext _) hlo hleft
    exact ⟨State.Reading.inContext hreading' _, ⟨horder.previous, horder.start⟩, hlies⟩
  · cases hrun

/-- A state that differs in what it remembers of arrow functions only. -/
theorem State.Reading.forgetting {s : State} (hreading : s.Reading source markers)
    (notArrows : List Nat) : ({ s with notArrows } : State).Reading source markers :=
  ⟨⟨hreading.sound.total, hreading.sound.lexeme, hreading.sound.previous, hreading.sound.order,
    hreading.sound.next⟩, hreading.markers⟩

/-- What is tried is read, or nothing is. -/
instance lays_attempt {γ : Type} [Holding γ] {parser : Parser γ}
    [hparser : Lays source markers h outset lo left parser] :
    Lays source markers h outset lo left parser.attempt := by
  refine ⟨fun s value s' hrun => ?_⟩
  unfold Parser.attempt at hrun
  split at hrun
  · next hfound =>
    obtain ⟨hfaulty, hgives⟩ := hparser.run _ _ _ hfound
    cases hrun
    refine ⟨hfaulty, fun hclean hbefore hreading hlo hleft => ?_⟩
    obtain ⟨hreading', horder, hlies⟩ := hgives hclean hbefore hreading hlo hleft
    exact ⟨hreading', horder, lies_some_iff.mpr hlies⟩
  · cases hrun
    exact ⟨id, fun _ _ hreading _ _ =>
      ⟨hreading.forgetting _, ⟨Nat.le_refl _, Nat.le_refl _⟩, lies_none⟩⟩

end Rules

/-! ### Repetition -/

section Repetition

variable {α : Type} {source : List Char} {markers : Bool} {h : Prop} {outset lo left begins : Nat}

theorem LaysAt.iterateUpTo [Holding α] {step : α → Parser (Option α)} (count : Nat) {value : α} {s : State}
    (hvalue : h → Lies source markers outset left value)
    (hstep : ∀ value lo' left', Lays source markers
      ((h ∧ Step lo left lo' left') ∧ Lies source markers outset left' value) outset lo' left'
        (step value)) :
    LaysAt source markers h outset lo left s (Parser.iterateUpTo count step value) := by
  induction count generalizing h lo left value s with
  | zero => exact lays_fail.run s
  | succ count ih =>
    -- The first step is taken where the parser stands.
    have hfirst : LaysAt source markers h outset lo left s (step value) := by
      intro next? s' hrun
      obtain ⟨hfaulty, hgives⟩ :=
        (hstep value s.lexeme.span.start s.previousStop).run s next? s' hrun
      refine ⟨hfaulty, fun hclean hbefore hreading hlo hleft => ?_⟩
      exact hgives hclean ⟨⟨hbefore, hlo, hleft, hreading.sound.order⟩,
        Placed.mono (Nat.le_refl _) hleft (hvalue hbefore)⟩ hreading (Nat.le_refl _) (Nat.le_refl _)
    refine hfirst.bind fun next? s' lo' left' hrun => ?_
    cases next? with
    | none =>
      have hdone : Given source markers ((h ∧ Step lo left lo' left') ∧
          Lies source markers outset left' (none : Option α)) outset value left' :=
        ⟨fun hboth => Placed.mono (Nat.le_refl _) hboth.1.2.left (hvalue hboth.1.1)⟩
      exact lays_pure.run s'
    | some next =>
      refine ih (fun hboth => lies_some_iff.mp hboth.2) fun value lo'' left'' => ?_
      refine (hstep value lo'' left'').of_imp fun hboth => ⟨⟨hboth.1.1.1.1, ?_⟩, hboth.2⟩
      exact ⟨hboth.1.1.1.2.start.trans hboth.1.2.start, hboth.1.1.1.2.left.trans hboth.1.2.left,
        hboth.1.2.order⟩

/-- What each step puts in the place of a value, all steps do. -/
theorem Lays.iterate [Holding α] {step : α → Parser (Option α)} {value : α}
    (hvalue : h → Lies source markers outset left value)
    (hstep : ∀ value lo' left', Lays source markers
      ((h ∧ Step lo left lo' left') ∧ Lies source markers outset left' value) outset lo' left'
        (step value)) :
    Lays source markers h outset lo left (Parser.iterate step value) := by
  refine ⟨fun s => ?_⟩
  unfold Parser.iterate
  exact .skip fun state s' _ => .iterateUpTo _ hvalue hstep

instance lays_iterate [Holding α] {step : α → Parser (Option α)} {value : α} {hi : Nat}
    [hvalue : Found source markers h value begins hi] [houtset : AtMost h outset begins]
    [hhi : AtMost h hi left]
    [hstep : ∀ value lo' left', Lays source markers
      ((h ∧ Step lo left lo' left') ∧ Lies source markers begins left' value) begins lo' left'
        (step value)] :
    Lays source markers h outset lo left (Parser.iterate step value) :=
  .widen (.iterate
    (fun hbefore => Placed.mono (Nat.le_refl _) (hhi.imp hbefore) (hvalue.imp hbefore)) hstep)

/-- Values that have been read one behind another, the last one first. -/
theorem inLine_reverse_cons [Holding α] {value : α} {values : List α} {lo' hi hi' : Nat}
    (hvalues : InLine source markers lo hi (values.reverse.flatMap Holding.nodes))
    (hvalue : Lies source markers lo' hi' value) (hlo : lo ≤ lo') (horder : hi ≤ lo') (hhi : hi ≤ hi') :
    InLine source markers lo hi' ((value :: values).reverse.flatMap Holding.nodes) := by
  rw [List.reverse_cons, List.flatMap_append, List.flatMap_singleton]
  exact hvalues.append hvalue horder hlo hhi

/-- What is read many times lies in line. -/
theorem Lays.many [Holding α] {step : Parser (Option α)}
    (hstep : ∀ lo' left', Lays source markers h lo' lo' left' step) :
    Lays source markers h lo lo left (Parser.many step) := by
  -- The values that have been read so far lie in line if they are reversed.
  have hupTo (count : Nat) (values : List α) (s : State) :
      ∀ result s', Parser.iterateUpTo count (oneMore step) values s = .done result s' →
        (s.faulty = true → s'.faulty = true) ∧ (s'.faulty = false → h → s.Reading source markers →
          ∀ outset ≤ s.lexeme.span.start,
            InLine source markers outset s.previousStop (values.reverse.flatMap Holding.nodes) →
              s'.Reading source markers ∧ s.Before s' ∧
                InLine source markers outset s'.previousStop (result.reverse.flatMap Holding.nodes)) := by
    induction count generalizing values s with
    | zero =>
      intro _ _ hrun
      cases hrun
    | succ count ih =>
      intro result s' hrun
      obtain ⟨next?, s₁, hnext, hrest⟩ := done_of_bind hrun
      obtain ⟨value?, s₂, hvalue, hpure⟩ := done_of_bind hnext
      have hlays := (hstep s.lexeme.span.start s.previousStop).run s
      obtain ⟨hfaulty, hgives⟩ := hlays value? s₂ hvalue
      cases value? with
      | none =>
        cases hpure
        cases hrest
        refine ⟨hfaulty, fun hclean hbefore hreading outset houtset hline => ?_⟩
        obtain ⟨hreading', horder, -⟩ :=
          hgives hclean hbefore hreading (Nat.le_refl _) (Nat.le_refl _)
        exact ⟨hreading', horder, hline.mono (Nat.le_refl _) horder.previous⟩
      | some value =>
        cases hpure
        obtain ⟨hfaulty', hgives'⟩ := ih _ _ _ _ hrest
        refine ⟨hfaulty' ∘ hfaulty, fun hclean hbefore hreading outset houtset hline => ?_⟩
        have hclean' : s₁.faulty = false := by
          by_contra hfault
          rw [hfaulty' (by simpa using hfault)] at hclean
          cases hclean
        obtain ⟨hreading', horder, hlies⟩ :=
          hgives hclean' hbefore hreading (Nat.le_refl _) (Nat.le_refl _)
        obtain ⟨hreading'', horder', hline'⟩ := hgives' hclean hbefore hreading' outset
          (houtset.trans horder.start) (inLine_reverse_cons hline (lies_some_iff.mp hlies) houtset
            hreading.sound.order horder.previous)
        exact ⟨hreading'', horder.trans horder', hline'⟩
  have hreversed : ∀ s result s', Parser.iterate (oneMore step) [] s = .done result s' →
      (s.faulty = true → s'.faulty = true) ∧ (s'.faulty = false → h → s.Reading source markers →
        lo ≤ s.lexeme.span.start → s'.Reading source markers ∧ s.Before s' ∧
          InLine source markers lo s'.previousStop (result.reverse.flatMap Holding.nodes)) := by
    intro s result s' hrun
    obtain ⟨state, s₁, hget, hrest⟩ := done_of_bind hrun
    cases hget
    obtain ⟨hfaulty, hgives⟩ := hupTo _ _ _ _ _ hrest
    exact ⟨hfaulty, fun hclean hbefore hreading hlo => hgives hclean hbefore hreading lo hlo .nil⟩
  refine ⟨fun s result s' hrun => ?_⟩
  obtain ⟨reversed, s₁, hread, hpure⟩ := done_of_bind hrun
  cases hpure
  obtain ⟨hfaulty, hgives⟩ := hreversed s reversed s' hread
  exact ⟨hfaulty, fun hclean hbefore hreading hlo _ => hgives hclean hbefore hreading hlo⟩

instance lays_many [Holding α] {step : Parser (Option α)} [houtset : AtMost h outset lo]
    [hstep : ∀ lo' left', Lays source markers h lo' lo' left' step] :
    Lays source markers h outset lo left (Parser.many step) :=
  .widen (.many hstep)

end Repetition

end ModuleLinkage.Syntax
