import ModuleLinkage.Proofs.Syntax.Anchoring.Tree

/-!
# Parsers that anchor what they read

A parser `Reads` a text if it goes on along the text and every node and offset that it gives is anchored
in the text. This is a property of one run, with what has been read before as its premise (`Entails`
finds it there), and it holds on the condition that no fault has been noted when the run ends: a fault
is never forgotten, except with the reading that noted it. The property is a class and the rules for
putting parsers together are its instances, so that a production has it by its structure. The instance
of a production is found in one search through all that it is put together from, for which the modules
on productions make room. Written out are only the steps that the structure does not tell: where a
parser judges what it has read, and where it changes the present token.
-/

set_option autoImplicit false

namespace ModuleLinkage.Syntax

open Text

/-! ### States -/

/-- Whether a state is one of reading a text: its token stands in the text, and behind the one before
it, directly if it is a word. -/
structure State.Sound (source : List Char) (s : State) : Prop where
  total : s.total = width source
  lexeme : s.lexeme.Stands source
  previous : isBoundary source s.previousStop = true
  order : s.previousStop ≤ s.lexeme.span.start
  next : s.lexeme.IsNext source (!s.settings.module) s.previousStop

/-- Whether a state is further along than another. -/
structure State.Before (s s' : State) : Prop where
  previous : s.previousStop ≤ s'.previousStop
  start : s.lexeme.span.start ≤ s'.lexeme.span.start

theorem State.Before.refl (s : State) : s.Before s :=
  ⟨Nat.le_refl _, Nat.le_refl _⟩

theorem State.Before.trans {s s' s'' : State} (h : s.Before s') (h' : s'.Before s'') : s.Before s'' :=
  ⟨h.previous.trans h'.previous, h.start.trans h'.start⟩

/-! ### Values -/

/-- The values that parsers give, with what it means that all they name of a text is anchored there and
that they do not begin before an offset. -/
class Located (α : Type) where
  LiesFrom : List Char → Nat → α → Prop
  mono : ∀ {source : List Char} {bound bound' : Nat} {value : α}, bound' ≤ bound →
    LiesFrom source bound value → LiesFrom source bound' value

export Located (LiesFrom)

/-- Values that name nothing of a text. -/
class Plain (α : Type) extends Located α where
  liesFrom : ∀ (source : List Char) (bound : Nat) (value : α), LiesFrom source bound value

/-- Values of a type that has no place for an offset or a node. -/
@[reducible] def Plain.of (α : Type) : Plain α where
  LiesFrom _ _ _ := True
  mono _ _ := trivial
  liesFrom _ _ _ := trivial

instance : Plain Unit := .of Unit
instance : Plain Bool := .of Bool
instance : Plain String := .of String
instance : Plain State := .of State
instance : Plain Settings := .of Settings
instance : Plain Context := .of Context
instance : Plain Token := .of Token

instance locatedOffset : Located Nat where
  LiesFrom source bound offset := isBoundary source offset = true ∧ bound ≤ offset
  mono hle h := ⟨h.1, hle.trans h.2⟩

instance locatedNode : Located Node where
  LiesFrom source bound node := node.Anchored source ∧ bound ≤ node.span.start
  mono hle h := ⟨h.1, hle.trans h.2⟩

instance locatedOption {α : Type} [Located α] : Located (Option α) where
  LiesFrom source bound value? := ∀ value ∈ value?, LiesFrom source bound value
  mono hle h value hvalue := Located.mono hle (h value hvalue)

/-- What a list holds may lie anywhere. -/
instance locatedList {α : Type} [Located α] : Located (List α) where
  LiesFrom source _ values := ∀ value ∈ values, LiesFrom source 0 value
  mono _ h := h

instance locatedPair {α β : Type} [Located α] [Located β] : Located (α × β) where
  LiesFrom source bound pair := LiesFrom source bound pair.1 ∧ LiesFrom source bound pair.2
  mono hle h := ⟨Located.mono hle h.1, Located.mono hle h.2⟩

instance {α : Type} [Plain α] : Plain (Option α) where
  liesFrom source bound _ value _ := Plain.liesFrom source bound value

instance {α : Type} [Plain α] : Plain (List α) where
  liesFrom source _ _ value _ := Plain.liesFrom source 0 value

/-! ### What follows from what has been read -/

/-- One statement follows from another, as instances can tell. -/
class Entails (h q : Prop) : Prop where
  imp : h → q

section Entails

variable {α β : Type} [Located α] [Located β] {source : List Char} {bound : Nat} {h q q' : Prop}

instance (priority := high) entails_last : Entails (h ∧ q) q := ⟨And.right⟩

instance (priority := low) entails_before [Entails h q] : Entails (h ∧ q') q :=
  ⟨fun hboth => Entails.imp hboth.1⟩

instance entails_plain {α : Type} [Plain α] (value : α) : Entails h (LiesFrom source bound value) :=
  ⟨fun _ => Plain.liesFrom source bound value⟩

instance entails_none : Entails h (LiesFrom source bound (none : Option α)) := ⟨fun _ => nofun⟩

instance entails_some {value : α} [Entails h (LiesFrom source bound value)] :
    Entails h (LiesFrom source bound (some value)) := by
  refine ⟨fun hbefore other hother => ?_⟩
  obtain rfl := Option.some.inj hother
  exact Entails.imp hbefore

instance entails_pair {first : α} {second : β} [Entails h (LiesFrom source bound first)]
    [Entails h (LiesFrom source bound second)] :
    Entails h (LiesFrom source bound (first, second)) :=
  ⟨fun hbefore => ⟨Entails.imp hbefore, Entails.imp hbefore⟩⟩

instance entails_projFst {pair : α × β} :
    Entails (h ∧ LiesFrom source bound pair) (LiesFrom source bound pair.1) :=
  ⟨fun hboth => hboth.2.1⟩

instance entails_ofSome {value : α} :
    Entails (h ∧ LiesFrom source bound (some value)) (LiesFrom source bound value) :=
  ⟨fun hboth => hboth.2 value rfl⟩

/-- A list of nodes lies in a text if all of them are anchored there. -/
instance entails_nodes {nodes : List Node} [Entails h (AllAnchored source nodes)] :
    Entails h (LiesFrom source bound nodes) :=
  ⟨fun hbefore node hnode => ⟨(Entails.imp hbefore : AllAnchored source nodes) node hnode,
    Nat.zero_le _⟩⟩

instance entails_anchored {node : Node} :
    Entails (h ∧ LiesFrom source bound node) (node.Anchored source) :=
  ⟨fun hboth => hboth.2.1⟩

instance entails_someAnchored {node : Node} :
    Entails (h ∧ LiesFrom source bound (some node)) (node.Anchored source) :=
  ⟨fun hboth => (hboth.2 node rfl).1⟩

instance entails_firstAnchored {pair : Node × α} :
    Entails (h ∧ LiesFrom source bound pair) (pair.1.Anchored source) :=
  ⟨fun hboth => hboth.2.1.1⟩

instance entails_allAnchored {nodes : List Node} :
    Entails (h ∧ LiesFrom source bound nodes) (AllAnchored source nodes) :=
  ⟨fun hboth node hnode => (hboth.2 node hnode).1⟩

instance entails_nil : Entails h (AllAnchored source []) := ⟨fun _ => AllAnchored.nil⟩

instance entails_cons {node : Node} {nodes : List Node} [Entails h (node.Anchored source)]
    [Entails h (AllAnchored source nodes)] : Entails h (AllAnchored source (node :: nodes)) :=
  ⟨fun hbefore => AllAnchored.cons_iff.mpr ⟨Entails.imp hbefore, Entails.imp hbefore⟩⟩

instance entails_append {first second : List Node} [Entails h (AllAnchored source first)]
    [Entails h (AllAnchored source second)] : Entails h (AllAnchored source (first ++ second)) :=
  ⟨fun hbefore => AllAnchored.append_iff.mpr ⟨Entails.imp hbefore, Entails.imp hbefore⟩⟩

instance entails_parts {node : Node} [Entails h (node.Anchored source)] :
    Entails h (AllAnchored source node.parts) :=
  ⟨fun hbefore => (Entails.imp hbefore : node.Anchored source).parts⟩

instance entails_toList {node? : Option Node} :
    Entails (h ∧ LiesFrom source bound node?) (AllAnchored source node?.toList) :=
  ⟨fun hboth node hnode => (hboth.2 node (Option.mem_toList.mp hnode)).1⟩

instance entails_flatten {lists : List (List Node)} :
    Entails (h ∧ LiesFrom source bound lists) (AllAnchored source lists.flatten) := by
  refine ⟨fun hboth node hnode => ?_⟩
  obtain ⟨nodes, hnodes, hmem⟩ := List.mem_flatten.mp hnode
  exact (hboth.2 nodes hnodes node hmem).1

instance entails_withDirectives {nodes : List Node} [Entails h (AllAnchored source nodes)] :
    Entails h (AllAnchored source (withDirectives nodes)) :=
  ⟨fun hbefore => anchored_withDirectives (Entails.imp hbefore)⟩

end Entails

/-! ### Shapes of new nodes -/

/-- What has to be known of a new node that begins at `start` and ends behind `left`. -/
def Shapes (source : List Char) (start left : Nat) (form : Form) (parts : List Node) : Prop :=
  ∀ stop, left ≤ stop → Shaped source ⟨start, stop⟩ form parts

/-- A Boolean that evaluates to true. -/
class Holds (test : Bool) : Prop where
  eq : test = true

instance : Holds true := ⟨rfl⟩

/-- The forms of identifiers, with their names. -/
class Names (form : Form) (name : outParam String) : Prop where
  eq : form.identifier? = some name

instance {name : String} : Names (.binding name) name := ⟨rfl⟩
instance {name : String} : Names (.reference name) name := ⟨rfl⟩
instance {name : String} : Names (.propertyName name) name := ⟨rfl⟩
instance {name : String} : Names (.label name) name := ⟨rfl⟩

section Shapes

variable {source : List Char} {start left : Nat} {h : Prop} {parts : List Node} {name : String}

instance shapes_free {form : Form} [hfree : Holds form.isFree] :
    Entails h (Shapes source start left form parts) :=
  ⟨fun _ _ _ => shaped_of_isFree hfree.eq _ _⟩

instance shapes_named {form : Form} [hform : Names form name]
    [hnamed : Entails h (Named source start name)] :
    Entails h (Shapes source start left form parts) :=
  ⟨fun hbefore _ _ => (shaped_iff_named hform.eq _ _ _).mpr (hnamed.imp hbefore)⟩

instance entails_named {escaped : Bool} :
    Entails (h ∧ TokenNamed source start (.word name escaped)) (Named source start name) :=
  ⟨fun hboth => hboth.2 name escaped rfl⟩

end Shapes

/-! ### What parsers give -/

section Gives

variable {α β : Type} {parser : Parser α} {next : α → Parser β}

instance : LawfulMonad Parser :=
  LawfulMonad.mk' Parser
    (fun parser => by
      funext s
      simp only [Functor.map, Parser.bind]
      cases parser s <;> rfl)
    (fun _ _ => rfl)
    (fun first next last => by
      funext s
      simp only [Bind.bind, Parser.bind]
      cases first s <;> rfl)

/-- What one parser behind another gives, the second gives on what the first has given. -/
theorem done_of_bind {s s' : State} {value : β}
    (hrun : (parser >>= next) s = .done value s') :
    ∃ first middle, parser s = .done first middle ∧ next first middle = .done value s' := by
  simp only [Bind.bind, Parser.bind] at hrun
  split at hrun
  · next first middle hfirst => exact ⟨first, middle, hfirst, hrun⟩
  · cases hrun

theorem done_of_require {condition : Bool} {s s' : State}
    (hrun : Parser.require condition s = .done () s') : condition = true ∧ s' = s := by
  unfold Parser.require at hrun
  split at hrun
  · next hcondition =>
    cases hrun
    exact ⟨hcondition, rfl⟩
  · cases hrun

theorem done_of_attempt {s s' : State} {value : α}
    (hrun : parser.attempt s = .done (some value) s') : parser s = .done value s' := by
  unfold Parser.attempt at hrun
  split at hrun
  · next hfound =>
    cases hrun
    exact hfound
  · cases hrun

/-- Whether all values that a parser gives have a property. -/
def Gives (parser : Parser α) (known : α → Prop) : Prop :=
  ∀ s value s', parser s = .done value s' → known value

theorem Gives.bind {known : β → Prop} (hnext : ∀ value, Gives (next value) known) :
    Gives (parser >>= next) known := by
  intro s value s' hrun
  obtain ⟨first, middle, -, hrest⟩ := done_of_bind hrun
  exact hnext first middle value s' hrest

theorem Gives.bind_of {known : α → Prop} {known' : β → Prop} (hparser : Gives parser known)
    (hnext : ∀ value, known value → Gives (next value) known') : Gives (parser >>= next) known' := by
  intro s value s' hrun
  obtain ⟨first, middle, hfirst, hrest⟩ := done_of_bind hrun
  exact hnext first (hparser s first middle hfirst) middle value s' hrest

theorem gives_pure {known : α → Prop} {value : α} (hknown : known value) :
    Gives (pure value) known := by
  intro s value' s' hrun
  cases hrun
  exact hknown

/-- Whatever holds of a value holds of all values of an option that is made of it. -/
theorem gives_some {known : α → Prop} {value : α} (hknown : known value) :
    Gives (pure (some value)) fun value? => ∀ value ∈ value?, known value :=
  gives_pure fun _ hmem => Option.mem_some.mp hmem ▸ hknown

theorem gives_none {known : α → Prop} :
    Gives (pure none) fun value? => ∀ value ∈ value?, known value :=
  gives_pure fun _ hmem => absurd hmem (Option.not_mem_none _)

theorem gives_fail {known : α → Prop} : Gives Parser.fail known :=
  fun _ _ _ hrun => nomatch hrun

theorem gives_require {condition : Bool} :
    Gives (Parser.require condition) fun _ => condition = true :=
  fun _ _ _ hrun => (done_of_require hrun).1

theorem gives_within {change : Context → Context} {known : α → Prop} (hparser : Gives parser known) :
    Gives (Parser.within change parser) known := by
  intro s value s' hrun
  unfold Parser.within at hrun
  split at hrun
  · next hfound =>
    cases hrun
    exact hparser _ _ _ hfound
  · cases hrun

/-- What holds of the first value and is kept by each step holds of the last one. -/
theorem gives_iterateUpTo {step : α → Parser (Option α)} {known : α → Prop}
    (hstep : ∀ value, known value → Gives (step value) fun next? => ∀ next ∈ next?, known next)
    (count : Nat) {value : α} (hvalue : known value) :
    Gives (Parser.iterateUpTo count step value) known := by
  induction count generalizing value with
  | zero => exact gives_fail
  | succ count ih =>
    refine .bind_of (hstep value hvalue) fun next? hnext => ?_
    split
    · next next => exact ih (hnext next rfl)
    · exact gives_pure hvalue

/-- What is read once more, in front of what was read before. -/
def oneMore (step : Parser (Option α)) (values : List α) : Parser (Option (List α)) := do
  match ← step with
  | some value => return some (value :: values)
  | none => return none

/-- To read many times is to read once more until nothing is read. -/
theorem many_eq (step : Parser (Option α)) : Parser.many step =
    Parser.iterate (oneMore step) [] >>= fun reversed => pure reversed.reverse :=
  rfl

/-- What holds of everything that is read once holds of all that is read. -/
theorem gives_many {step : Parser (Option α)} {known : α → Prop}
    (hstep : Gives step fun value? => ∀ value ∈ value?, known value) :
    Gives (Parser.many step) fun values => ∀ value ∈ values, known value := by
  have hreversed (values : List α) (hvalues : ∀ value ∈ values, known value) :
      Gives (oneMore step values) fun longer? => ∀ longer ∈ longer?, ∀ value ∈ longer, known value := by
    refine .bind_of hstep fun value? hvalue => ?_
    split
    · next value => exact gives_some (List.forall_mem_cons.mpr ⟨hvalue value rfl, hvalues⟩)
    · exact gives_none
  rw [many_eq, Parser.iterate]
  refine .bind_of (.bind fun state => gives_iterateUpTo hreversed _ (List.forall_mem_nil _))
    fun reversed hall => ?_
  exact gives_pure fun value hvalue => hall value (List.mem_reverse.mp hvalue)

end Gives

/-! ### Reading -/

/-- Whether the run of a parser from a state, if that is one of reading a text behind certain offsets
and some facts are known, goes on along the text and gives what lies in it, unless a fault is noted. -/
def ReadsAt {α : Type} [Located α] (source : List Char) (h : Prop) (bound left : Nat) (s : State)
    (parser : Parser α) : Prop :=
  ∀ value s', parser s = .done value s' → (s.faulty = true → s'.faulty = true) ∧
    (s'.faulty = false → h → s.Sound source → bound ≤ s.lexeme.span.start → left ≤ s.previousStop →
      s'.Sound source ∧ s.Before s' ∧ LiesFrom source bound value)

/-- Whether all runs of a parser read a text. -/
class Reads {α : Type} [Located α] (source : List Char) (h : Prop) (bound left : Nat)
    (parser : Parser α) : Prop where
  run : ∀ s, ReadsAt source h bound left s parser

section Rules

variable {α β : Type} [Located α] [Located β] {source : List Char} {h h' : Prop} {bound left : Nat}
  {parser : Parser α} {next : α → Parser β}

theorem Reads.of_imp (himp : h → h') (hreads : Reads source h' bound left parser) :
    Reads source h bound left parser := by
  refine ⟨fun s value s' hrun => ?_⟩
  obtain ⟨hfaulty, hgives⟩ := hreads.run s value s' hrun
  exact ⟨hfaulty, fun hclean hbefore => hgives hclean (himp hbefore)⟩

theorem ReadsAt.of_reads {s : State} (hreads : Reads source h bound left parser) :
    ReadsAt source h bound left s parser :=
  hreads.run s

/-- One parser behind another, from a certain state. -/
theorem ReadsAt.bind {s : State} (hparser : ReadsAt source h bound left s parser)
    (hnext : ∀ value s', parser s = .done value s' →
      ReadsAt source (h ∧ LiesFrom source bound value) bound left s' (next value)) :
    ReadsAt source h bound left s (parser >>= next) := by
  intro value s' hrun
  obtain ⟨first, middle, hfirst, hrest⟩ := done_of_bind hrun
  obtain ⟨hfaulty, hgives⟩ := hparser first middle hfirst
  obtain ⟨hfaulty', hgives'⟩ := hnext first middle hfirst value s' hrest
  refine ⟨hfaulty' ∘ hfaulty, fun hclean hbefore hsound hbound hleft => ?_⟩
  have hmiddle : middle.faulty = false := by
    by_contra hfault
    rw [hfaulty' (by simpa using hfault)] at hclean
    cases hclean
  obtain ⟨hsound', horder, hlies⟩ := hgives hmiddle hbefore hsound hbound hleft
  obtain ⟨hsound'', horder', hlies'⟩ := hgives' hclean ⟨hbefore, hlies⟩ hsound'
    (hbound.trans horder.start) (hleft.trans horder.previous)
  exact ⟨hsound'', horder.trans horder', hlies'⟩

/-- Offsets that the state is behind. -/
theorem ReadsAt.raise {s : State} {bound' left' : Nat} (hreads : ReadsAt source h bound' left' s parser)
    (hraise : h → s.Sound source → bound ≤ s.lexeme.span.start → left ≤ s.previousStop →
      bound ≤ bound' ∧ bound' ≤ s.lexeme.span.start ∧ left' ≤ s.previousStop) :
    ReadsAt source h bound left s parser := by
  intro value s' hrun
  obtain ⟨hfaulty, hgives⟩ := hreads value s' hrun
  refine ⟨hfaulty, fun hclean hbefore hsound hbound hleft => ?_⟩
  obtain ⟨hle, hbound', hleft'⟩ := hraise hbefore hsound hbound hleft
  obtain ⟨hsound', horder, hlies⟩ := hgives hclean hbefore hsound hbound' hleft'
  exact ⟨hsound', horder, Located.mono hle hlies⟩

/-- A fact that holds in a state without a fault. -/
theorem ReadsAt.of_known {s : State} {known : Prop}
    (hknown : h → s.Sound source → s.faulty = false → known)
    (hreads : ReadsAt source (h ∧ known) bound left s parser) :
    ReadsAt source h bound left s parser := by
  intro value s' hrun
  obtain ⟨hfaulty, hgives⟩ := hreads value s' hrun
  refine ⟨hfaulty, fun hclean hbefore hsound => hgives hclean ⟨hbefore, hknown hbefore hsound ?_⟩ hsound⟩
  by_contra hfault
  rw [hfaulty (by simpa using hfault)] at hclean
  cases hclean

/-- One parser behind another, of whose value more may be known than where it lies. -/
theorem Reads.bind_of {known : α → Prop} (hknown : Gives parser known)
    (hparser : Reads source h bound left parser)
    (hnext : ∀ value, Reads source ((h ∧ known value) ∧ LiesFrom source bound value) bound left
      (next value)) : Reads source h bound left (parser >>= next) := by
  refine ⟨fun s => (hparser.run s).bind fun value s' hrun => ?_⟩
  have hreads : Reads source (h ∧ LiesFrom source bound value) bound left (next value) :=
    (hnext value).of_imp fun hboth => ⟨⟨hboth.1, hknown s value s' hrun⟩, hboth.2⟩
  exact hreads.run s'

/-- One parser behind another. -/
theorem Reads.bind (hparser : Reads source h bound left parser)
    (hnext : ∀ value, Reads source (h ∧ LiesFrom source bound value) bound left (next value)) :
    Reads source h bound left (parser >>= next) :=
  ⟨fun s => (hparser.run s).bind fun value s' _ => (hnext value).run s'⟩

/-- What follows a parser that is known to read the text. -/
theorem Reads.step [hparser : Reads source h bound left parser]
    (hnext : ∀ value, Reads source (h ∧ LiesFrom source bound value) bound left (next value)) :
    Reads source h bound left (parser >>= next) :=
  .bind hparser hnext

instance reads_bind [Reads source h bound left parser]
    [hnext : ∀ value, Reads source (h ∧ LiesFrom source bound value) bound left (next value)] :
    Reads source h bound left (parser >>= next) :=
  .step hnext

instance reads_pure {value : α} [Entails h (LiesFrom source bound value)] :
    Reads source h bound left (pure value : Parser α) := by
  refine ⟨fun s value s' hrun => ?_⟩
  cases hrun
  exact ⟨id, fun _ hbefore hsound _ _ => ⟨hsound, .refl s, Entails.imp hbefore⟩⟩

instance reads_ite {condition : Prop} [Decidable condition] {first second : Parser α}
    [hfirst : Reads source h bound left first] [hsecond : Reads source h bound left second] :
    Reads source h bound left (if condition then first else second) := by
  split
  · exact hfirst
  · exact hsecond

instance reads_andM {first second : Parser Bool} [Reads source h bound left first]
    [hsecond : ∀ value : Bool, Reads source (h ∧ LiesFrom source bound value) bound left second] :
    Reads source h bound left (first <&&> second) := by
  refine .step fun value => ?_
  cases value with
  | false => exact reads_pure
  | true => exact hsecond true

instance reads_orM {first second : Parser Bool} [Reads source h bound left first]
    [hsecond : ∀ value : Bool, Reads source (h ∧ LiesFrom source bound value) bound left second] :
    Reads source h bound left (first <||> second) := by
  refine .step fun value => ?_
  cases value with
  | false => exact hsecond false
  | true => exact reads_pure

instance reads_fail : Reads source h bound left (Parser.fail : Parser α) :=
  ⟨fun _ _ _ hrun => nomatch hrun⟩

/-- A parser that stays where it is, and gives nothing of the text. -/
theorem reads_of_still {α : Type} [Plain α] {parser : Parser α}
    (hstill : ∀ s value s', parser s = .done value s' → ∃ notArrows, s' = { s with notArrows }) :
    Reads source h bound left parser := by
  refine ⟨fun s value s' hrun => ?_⟩
  obtain ⟨notArrows, rfl⟩ := hstill s value s' hrun
  refine ⟨id, fun _ _ hsound _ _ => ⟨?_, ⟨Nat.le_refl _, Nat.le_refl _⟩, Plain.liesFrom _ _ _⟩⟩
  exact ⟨hsound.total, hsound.lexeme, hsound.previous, hsound.order, hsound.next⟩

instance reads_get : Reads source h bound left Parser.get := by
  refine reads_of_still fun s value s' hrun => ⟨s.notArrows, ?_⟩
  cases hrun
  rfl

instance reads_require (condition : Bool) :
    Reads source h bound left (Parser.require condition) := by
  unfold Parser.require
  infer_instance

instance reads_check (condition : Bool) : Reads source h bound left (Parser.check condition) := by
  refine ⟨fun s value s' hrun => ?_⟩
  unfold Parser.check at hrun
  split at hrun
  · cases hrun
    exact ⟨id, fun _ _ hsound _ _ => ⟨hsound, .refl s, trivial⟩⟩
  · cases hrun
    exact ⟨fun _ => rfl, fun hclean => absurd hclean (by simp)⟩

/-- What a check asks for holds if no fault is noted. -/
theorem Reads.of_check {condition : Bool} {next : Unit → Parser α}
    (hnext : Reads source (h ∧ condition = true) bound left (next ())) :
    Reads source h bound left (Parser.check condition >>= next) := by
  refine ⟨fun s => ((reads_check condition).run s).bind fun value s' hrun => ?_⟩
  have hreads : ReadsAt source ((h ∧ LiesFrom source bound value) ∧ condition = true) bound left s'
      (next value) := (hnext.of_imp fun hboth => ⟨hboth.1.1, hboth.2⟩).run s'
  refine .of_known (fun _ _ hclean => ?_) hreads
  unfold Parser.check at hrun
  split at hrun
  · assumption
  · cases hrun
    cases hclean

/-- Looking ahead, a parser stays where it is. -/
theorem still_of_lookAhead {α : Type} {parser : Parser α} {s s' : State} {value : Option α}
    (hrun : parser.lookAhead s = .done value s') : ∃ notArrows, s' = { s with notArrows } := by
  unfold Parser.lookAhead at hrun
  split at hrun <;> cases hrun <;> exact ⟨_, rfl⟩

instance reads_lookAhead {α : Type} [Plain α] (parser : Parser α) :
    Reads source h bound left parser.lookAhead :=
  reads_of_still fun _ _ _ hrun => still_of_lookAhead hrun

instance reads_sees (test : Parser Bool) : Reads source h bound left (Parser.sees test) := by
  unfold Parser.sees
  infer_instance

/-- What is tried is read, or nothing is. -/
instance reads_attempt [hparser : Reads source h bound left parser] :
    Reads source h bound left parser.attempt := by
  refine ⟨fun s value s' hrun => ?_⟩
  unfold Parser.attempt at hrun
  split at hrun
  · next hfound =>
    obtain ⟨hfaulty, hgives⟩ := hparser.run _ _ _ hfound
    cases hrun
    refine ⟨hfaulty, fun hclean hbefore hsound hbound hleft => ?_⟩
    obtain ⟨hsound', horder, hlies⟩ := hgives hclean hbefore hsound hbound hleft
    refine ⟨hsound', horder, fun other hother => ?_⟩
    obtain rfl := Option.some.inj hother
    exact hlies
  · cases hrun
    refine ⟨id, fun _ _ hsound _ _ => ⟨?_, ⟨Nat.le_refl _, Nat.le_refl _⟩, nofun⟩⟩
    exact ⟨hsound.total, hsound.lexeme, hsound.previous, hsound.order, hsound.next⟩

/-- The context makes no difference. -/
instance reads_within {change : Context → Context} [hparser : Reads source h bound left parser] :
    Reads source h bound left (Parser.within change parser) := by
  refine ⟨fun s value s' hrun => ?_⟩
  unfold Parser.within at hrun
  split at hrun
  · next hfound =>
    obtain ⟨hfaulty, hgives⟩ := hparser.run _ _ _ hfound
    cases hrun
    refine ⟨hfaulty, fun hclean hbefore hsound hbound hleft => ?_⟩
    obtain ⟨hsound', horder, hlies⟩ := hgives hclean hbefore
      ⟨hsound.total, hsound.lexeme, hsound.previous, hsound.order, hsound.next⟩ hbound hleft
    exact ⟨⟨hsound'.total, hsound'.lexeme, hsound'.previous, hsound'.order, hsound'.next⟩,
      ⟨horder.previous, horder.start⟩, hlies⟩
  · cases hrun

instance reads_discard [Reads source h bound left parser] :
    Reads source h bound left (discard parser) := by
  have hbind : Reads source h bound left (parser >>= fun _ => pure ()) := inferInstance
  exact hbind

/-! ### Repetition -/

theorem reads_iterateUpTo {step : α → Parser (Option α)} (count : Nat) {value : α}
    (hvalue : h → LiesFrom source bound value)
    (hstep : ∀ value, Reads source (h ∧ LiesFrom source bound value) bound left (step value)) :
    Reads source h bound left (Parser.iterateUpTo count step value) := by
  induction count generalizing h value with
  | zero => exact reads_fail
  | succ count ih =>
    have hnow : Reads source h bound left (step value) :=
      (hstep value).of_imp fun hbefore => ⟨hbefore, hvalue hbefore⟩
    refine .step fun next? => ?_
    cases next? with
    | none =>
      have hdone : Entails (h ∧ LiesFrom source bound (none : Option α))
          (LiesFrom source bound value) := ⟨fun hboth => hvalue hboth.1⟩
      exact reads_pure
    | some next =>
      refine ih (fun hboth => hboth.2 next rfl) fun other => ?_
      exact (hstep other).of_imp fun hboth => ⟨hboth.1.1, hboth.2⟩

/-- What each step keeps, all steps keep. -/
theorem Reads.iterate {step : α → Parser (Option α)} {value : α}
    [hvalue : Entails h (LiesFrom source bound value)]
    (hstep : ∀ value, Reads source (h ∧ LiesFrom source bound value) bound left (step value)) :
    Reads source h bound left (Parser.iterate step value) := by
  unfold Parser.iterate
  refine .step fun state => ?_
  refine reads_iterateUpTo _ (fun hboth => hvalue.imp hboth.1) fun value => ?_
  exact (hstep value).of_imp fun hboth => ⟨hboth.1.1, hboth.2⟩

instance reads_iterate {step : α → Parser (Option α)} {value : α}
    [Entails h (LiesFrom source bound value)]
    [hstep : ∀ value, Reads source (h ∧ LiesFrom source bound value) bound left (step value)] :
    Reads source h bound left (Parser.iterate step value) :=
  .iterate hstep

instance entails_listCons {value : α} {values : List α} :
    Entails ((h ∧ LiesFrom source bound values) ∧ LiesFrom source bound (some value))
      (LiesFrom source bound (value :: values)) := by
  refine ⟨fun hboth other hother => ?_⟩
  rcases List.mem_cons.mp hother with rfl | hother
  · exact Located.mono (Nat.zero_le _) (hboth.2 other rfl)
  · exact hboth.1.2 other hother

instance entails_listReverse {values : List α} :
    Entails (h ∧ LiesFrom source bound values) (LiesFrom source bound values.reverse) :=
  ⟨fun hboth value hvalue => hboth.2 value (List.mem_reverse.mp hvalue)⟩

/-- What is read many times lies in the text each time. -/
theorem Reads.many {step : Parser (Option α)} (hstep : Reads source h bound left step) :
    Reads source h bound left (Parser.many step) := by
  have hstart : Entails h (LiesFrom source bound ([] : List α)) := ⟨fun _ => nofun⟩
  unfold Parser.many
  refine .bind (.iterate fun values => .bind (hstep.of_imp And.left) fun value? => ?_)
    fun values => reads_pure
  split
  · exact reads_pure
  · exact reads_pure

instance reads_many {step : Parser (Option α)} [hstep : Reads source h bound left step] :
    Reads source h bound left (Parser.many step) :=
  .many hstep

end Rules

/-! ### Staying -/

/-- A parser that leaves the present token in its place, whatever it notes. -/
class Stays {α : Type} (parser : Parser α) : Prop where
  stay : ∀ s value s', parser s = .done value s' →
    s'.lexeme = s.lexeme ∧ s'.previousStop = s.previousStop

theorem Stays.lexeme {α : Type} {parser : Parser α} [hstays : Stays parser] (s : State) (value : α)
    (s' : State) (hrun : parser s = .done value s') : s'.lexeme = s.lexeme :=
  (hstays.stay s value s' hrun).1

section Staying

variable {α β : Type} {parser : Parser α} {next : α → Parser β}

instance stays_bind [hparser : Stays parser] [hnext : ∀ value, Stays (next value)] :
    Stays (parser >>= next) := by
  refine ⟨fun s value s' hrun => ?_⟩
  obtain ⟨first, middle, hfirst, hrest⟩ := done_of_bind hrun
  obtain ⟨hlexeme, hprevious⟩ := (hnext first).stay _ _ _ hrest
  rw [hlexeme, hprevious]
  exact hparser.stay _ _ _ hfirst

instance stays_pure {value : α} : Stays (pure value : Parser α) := by
  refine ⟨fun s value s' hrun => ?_⟩
  cases hrun
  exact ⟨rfl, rfl⟩

instance stays_get : Stays Parser.get := by
  refine ⟨fun s value s' hrun => ?_⟩
  cases hrun
  exact ⟨rfl, rfl⟩

instance stays_check (condition : Bool) : Stays (Parser.check condition) := by
  refine ⟨fun s value s' hrun => ?_⟩
  unfold Parser.check at hrun
  split at hrun <;> cases hrun <;> exact ⟨rfl, rfl⟩

instance stays_require (condition : Bool) : Stays (Parser.require condition) := by
  refine ⟨fun s value s' hrun => ?_⟩
  rw [(done_of_require hrun).2]
  exact ⟨rfl, rfl⟩

instance stays_sees (test : Parser Bool) : Stays (Parser.sees test) := by
  have hlook : Stays test.lookAhead := by
    refine ⟨fun s value s' hrun => ?_⟩
    obtain ⟨notArrows, rfl⟩ := still_of_lookAhead hrun
    exact ⟨rfl, rfl⟩
  unfold Parser.sees
  infer_instance

instance stays_andM {first second : Parser Bool} [hfirst : Stays first] [hsecond : Stays second] :
    Stays (first <&&> second) := by
  refine ⟨fun s value s' hrun => ?_⟩
  obtain ⟨found, middle, hfound, hrest⟩ := done_of_bind hrun
  obtain ⟨hlexeme, hprevious⟩ := hfirst.stay _ _ _ hfound
  rw [← hlexeme, ← hprevious]
  cases found with
  | false => exact stays_pure.stay _ _ _ hrest
  | true => exact hsecond.stay _ _ _ hrest

/-- What follows a parser that leaves the present token in its place. -/
theorem ReadsAt.stay [Located α] [Located β] {source : List Char} {h : Prop} {bound left : Nat}
    {s : State} [hparser : Reads source h bound left parser] [hstays : Stays parser]
    (hnext : ∀ value s', s'.lexeme = s.lexeme →
      ReadsAt source (h ∧ LiesFrom source bound value) bound left s' (next value)) :
    ReadsAt source h bound left s (parser >>= next) :=
  (hparser.run s).bind fun value s' hrun => hnext value s' (hstays.lexeme s value s' hrun)

end Staying

end ModuleLinkage.Syntax
