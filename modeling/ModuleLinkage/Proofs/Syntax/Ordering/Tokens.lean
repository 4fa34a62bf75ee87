import ModuleLinkage.Proofs.Syntax.Anchoring.Tokens
import ModuleLinkage.Proofs.Syntax.Ordering.Rules

/-!
# Laying tokens

Tests of the present token and what goes on over it leave the settings as they are. A node that is
finished is ordered if its parts lie beside each other behind where it begins and end before the present
token, and a list of what is laid in order is laid in order.
-/

set_option autoImplicit false
set_option synthInstance.maxSize 100000

namespace ModuleLinkage.Syntax

open Text

/-! ### Keeping the settings -/

instance steady_present : Steady present := by
  unfold present
  infer_instance

instance steady_offset : Steady offset := by
  unfold offset
  infer_instance

instance steady_onNewLine : Steady onNewLine := by
  unfold onNewLine
  infer_instance

instance steady_settings : Steady settings := by
  unfold settings
  infer_instance

instance steady_context : Steady context := by
  unfold context
  infer_instance

instance steady_typescript : Steady typescript := by
  unfold typescript
  infer_instance

instance steady_pass : Steady pass :=
  steady_modify fun _ => rfl

instance steady_advance : Steady advance := by
  unfold advance
  refine .step fun token => ?_
  split <;> infer_instance

instance steady_replaceToken (token : Token) (next : Place) : Steady (replaceToken token next) :=
  steady_modify fun _ => rfl

instance steady_continueTemplate : Steady continueTemplate := by
  unfold continueTemplate
  infer_instance

instance steady_isAt (mark : String) : Steady (isAt mark) := by
  unfold isAt
  infer_instance

instance steady_isAtWord (word : String) : Steady (isAtWord word) := by
  unfold isAtWord
  refine .step fun token => ?_
  split <;> infer_instance

instance steady_nextSees (test : Parser Bool) : Steady (nextSees test) := by
  unfold nextSees
  infer_instance

instance steady_nextOnLineSees (test : Parser Bool) : Steady (nextOnLineSees test) := by
  unfold nextOnLineSees
  infer_instance

instance steady_isAtName : Steady isAtName := by
  unfold isAtName
  refine .step fun token => ?_
  split <;> infer_instance

instance steady_isAtAnyWord : Steady isAtAnyWord := by
  unfold isAtAnyWord
  refine .step fun token => ?_
  split <;> infer_instance

instance steady_isAtString : Steady isAtString := by
  unfold isAtString
  refine .step fun token => ?_
  split <;> infer_instance

instance steady_endsStatement : Steady endsStatement := by
  unfold endsStatement
  refine .step fun token => ?_
  split <;> infer_instance

instance steady_eat (mark : String) : Steady (eat mark) := by
  unfold eat
  infer_instance

instance steady_eatWord (word : String) : Steady (eatWord word) := by
  unfold eatWord
  infer_instance

instance steady_expect (mark : String) : Steady (expect mark) := by
  unfold expect
  infer_instance

instance steady_expectWord (word : String) : Steady (expectWord word) := by
  unfold expectWord
  infer_instance

instance steady_checkName (word : String) : Steady (checkName word) := by
  unfold checkName
  infer_instance

instance steady_semicolon : Steady semicolon := by
  unfold semicolon
  infer_instance

instance steady_modifies (word : String) : Steady (modifies word) := by
  unfold modifies
  split <;> infer_instance

instance steady_modifiersWhile {isNext : List String → String → Parser Bool}
    [hnext : ∀ before word, Steady (isNext before word)] : Steady (modifiersWhile isNext) := by
  unfold modifiersWhile
  refine .iterate fun modifiers => .step fun token => ?_
  split <;> infer_instance

instance steady_declarationModifiers : Steady declarationModifiers := by
  unfold declarationModifiers
  infer_instance

instance steady_plainModifiers : Steady plainModifiers := by
  unfold plainModifiers
  infer_instance

instance steady_typeParameterModifiers : Steady typeParameterModifiers := by
  unfold typeParameterModifiers
  infer_instance

instance steady_memberModifiers : Steady memberModifiers := by
  unfold memberModifiers
  infer_instance

instance steady_checkModifiers (allowed modifiers : List String) :
    Steady (checkModifiers allowed modifiers) := by
  unfold checkModifiers
  infer_instance

instance steady_accessor : Steady accessor? := by
  unfold accessor?
  infer_instance

/-! ### Passing tokens -/

theorem passes_of_stop {parser : Parser Unit}
    (hstop : ∀ s s', parser s = .done () s' → s'.previousStop = s.lexeme.span.stop) : Passes parser := by
  refine ⟨fun source s value s' hrun _ hsound => ?_⟩
  rw [hstop s s' hrun]
  exact hsound.lexeme.start_le_stop

instance passes_pass : Passes pass := by
  refine passes_of_stop fun s s' hrun => ?_
  cases hrun
  rfl

instance passes_advance : Passes advance :=
  passes_of_stop fun _ _ hrun => previousStop_of_advance hrun

instance passes_expectWord (word : String) : Passes (expectWord word) :=
  passes_of_stop fun _ _ hrun => previousStop_of_advance (advance_of_expectWord hrun).2

/-- A mark that has to be there is the present token, and the parser goes on behind it. -/
theorem advance_of_expect {mark : String} {s s' : State} (hrun : expect mark s = .done () s') :
    s.lexeme.token = .punctuator mark ∧ advance s = .done () s' := by
  obtain ⟨eaten, s₁, heat, hrequire⟩ := done_of_bind hrun
  obtain ⟨rfl, rfl⟩ := done_of_require hrequire
  obtain ⟨found, s₂, hfound, heat⟩ := done_of_bind heat
  cases hfound
  split at heat
  · next htoken =>
    obtain ⟨_, s₃, hadvance, hpure⟩ := done_of_bind heat
    cases hpure
    exact ⟨by simpa using htoken, hadvance⟩
  · cases heat

instance passes_expect (mark : String) : Passes (expect mark) :=
  passes_of_stop fun _ _ hrun => previousStop_of_advance (advance_of_expect hrun).2

/-- A word without escapes covers at least its characters. -/
theorem Lexeme.Stands.width_le {source : List Char} {lexeme : Lexeme} {name : String}
    (h : lexeme.Stands source) (htoken : lexeme.token = .word name false) :
    lexeme.span.start + width name.toList ≤ lexeme.span.stop := by
  obtain ⟨place, -, hspan, ⟨body, hbody, hspells⟩, -⟩ := h
  rw [htoken] at hspells
  obtain ⟨-, -, hplain⟩ := hspells
  obtain ⟨tail, rfl, -⟩ := hplain rfl
  have hoffset : lexeme.next.offset = place.offset + width (name.toList ++ tail) := hbody.offset
  rw [hspan, hoffset, width_append]
  exact Nat.add_le_add_left (Nat.le_add_right _ _) _

/-- A keyword that is passed in its role is written without escapes, unless a fault is noted. -/
theorem unescaped_of_advance {word : String} (hkeyword : isKeyword word = true) {s s' : State}
    {escaped : Bool} (htoken : s.lexeme.token = .word word escaped) (hrun : advance s = .done () s')
    (hclean : s'.faulty = false) : s.lexeme.token = .word word false := by
  obtain ⟨token, s₁, hpresent, hrun⟩ := done_of_bind hrun
  cases hpresent
  rw [htoken] at hrun
  cases escaped with
  | false => exact htoken
  | true =>
    obtain ⟨_, s₂, hcheck, hpass⟩ := done_of_bind hrun
    cases hpass
    rw [hkeyword] at hcheck
    cases hcheck
    cases hclean

section Laying

variable {source : List Char} {markers : Bool} {h : Prop} {outset lo left start : Nat}

/-! ### Offsets -/

/-- Behind an offset that the parser stands at. -/
theorem LaysAt.offset {α : Type} [Placed α] {s : State} {next : Nat → Parser α}
    (hnext : LaysAt source markers (h ∧ Step lo left s.lexeme.span.start left) outset
      s.lexeme.span.start left s (next s.lexeme.span.start)) :
    LaysAt source markers h outset lo left s (offset >>= next) := by
  intro value s' hrun
  obtain ⟨hfaulty, hgives⟩ := hnext value s' hrun
  refine ⟨hfaulty, fun hclean hbefore hreading hlo hleft => ?_⟩
  exact hgives hclean ⟨hbefore, hlo, Nat.le_refl _, hleft.trans hreading.sound.order⟩ hreading
    (Nat.le_refl _) hleft

theorem Lays.offset {α : Type} [Placed α] {next : Nat → Parser α}
    (hnext : ∀ start, Lays source markers (h ∧ Step lo left start left) outset start left
      (next start)) :
    Lays source markers h outset lo left (offset >>= next) :=
  ⟨fun s => .offset ((hnext _).run s)⟩

instance (priority := 1300) lays_offset {α : Type} [Placed α] {next : Nat → Parser α}
    [hnext : ∀ start, Lays source markers (h ∧ Step lo left start left) outset start left
      (next start)] :
    Lays source markers h outset lo left (offset >>= next) :=
  .offset hnext

/-- Behind a keyword, unless a fault is noted, all of it has been passed. -/
theorem Lays.keyword {α : Type} [Placed α] {word : String} (hkeyword : isKeyword word = true)
    {next : Unit → Parser α}
    (hnext : ∀ passed, Lays source markers (h ∧ lo + width word.toList ≤ passed) outset passed passed
      (next ())) :
    Lays source markers h outset lo left (expectWord word >>= next) := by
  refine ⟨fun s value s' hrun => ?_⟩
  obtain ⟨_, middle, hexpect, hrest⟩ := done_of_bind hrun
  obtain ⟨hfaulty, hmoves⟩ := moves_of_reads source markers hexpect
  obtain ⟨⟨escaped, htoken⟩, hadvance⟩ := advance_of_expectWord hexpect
  obtain ⟨hfaulty', hgives'⟩ := (hnext middle.previousStop).run middle value s' hrest
  refine ⟨hfaulty' ∘ hfaulty, fun hclean hbefore hreading hlo hleft => ?_⟩
  have hclean' := ((hnext middle.previousStop).run middle).clean hrest hclean
  obtain ⟨hreading', horder⟩ := hmoves hclean' hreading
  have hwidth := hreading.sound.lexeme.width_le (unescaped_of_advance hkeyword htoken hadvance hclean')
  rw [← previousStop_of_advance hadvance] at hwidth
  obtain ⟨hreading'', horder', hlies⟩ := hgives' hclean
    ⟨hbefore, (Nat.add_le_add_right hlo _).trans hwidth⟩ hreading' hreading'.sound.order (Nat.le_refl _)
  exact ⟨hreading'', horder.trans horder', hlies⟩

/-! ### New nodes -/

/-- Nodes lie beside each other between two offsets, in any order. -/
class Beside (source : List Char) (markers : Bool) (h : Prop) (lo : Nat) (nodes : List Node)
    (hi : Nat) : Prop where
  imp : h → (∀ node ∈ nodes, node.Ordered source markers ∧ lo ≤ node.front ∧ node.span.stop ≤ hi) ∧
    nodes.Pairwise Node.IsApart

/-- A new node that begins at `start` and ends behind `left` is ordered and stands behind `outset`. -/
class Shaping (source : List Char) (markers : Bool) (h : Prop) (outset start left : Nat)
    (form : Form) (parts : List Node) : Prop where
  imp : h → ∀ stop, left ≤ stop → (Node.mk ⟨start, stop⟩ form parts).Ordered source markers ∧
    outset ≤ (Node.mk ⟨start, stop⟩ form parts).front

variable {form : Form} {parts nodes : List Node} {node : Node} {lo' hi' hi : Nat}

instance beside_rows [hrows : Rows source markers h lo 0 nodes hi'] [hhi : AtMost h hi' hi] :
    Beside source markers h lo nodes hi := by
  refine ⟨fun hbefore => ?_⟩
  obtain ⟨-, hline, -⟩ := hrows.imp hbefore
  have hline := hline.mono (Nat.le_refl _) (hhi.imp hbefore)
  exact ⟨fun node hnode => ⟨hline.ordered node hnode, hline.front node hnode, hline.stop node hnode⟩,
    hline.chain.imp fun hbehind => .inr (.inr (.inl hbehind))⟩

/-- The parts of a node lie where it does. -/
instance beside_parts [hnode : Found source markers h node lo' hi'] [hlo : AtMost h lo lo']
    [hhi : AtMost h hi' hi] : Beside source markers h lo node.parts hi := by
  refine ⟨fun hbefore => ?_⟩
  obtain ⟨hordered, hfront, hstop⟩ := lies_node_iff.mp (hnode.imp hbefore)
  refine ⟨fun part hpart => ⟨hordered.part hpart, ?_, ?_⟩, hordered.pairwise_isApart⟩
  · exact ((hlo.imp hbefore).trans hfront).trans (Node.front_le_front hpart)
  · exact ((hordered.stop_le hpart).trans hstop).trans (hhi.imp hbefore)

/-- A key may lie anywhere. -/
instance beside_key {key : Node} [hkey : Entails h (key.isKey = true)] [hfirst : Given source markers h lo key hi]
    [hsecond : Given source markers h lo node hi] : Beside source markers h lo [key, node] hi := by
  refine ⟨fun hbefore => ⟨?_, List.pairwise_pair.mpr (.inl (hkey.imp hbefore))⟩⟩
  have hlies := lies_node_iff.mp (hfirst.imp hbefore)
  exact List.forall_mem_cons.mpr ⟨hlies, List.forall_mem_singleton.mpr
    (lies_node_iff.mp (hsecond.imp hbefore))⟩

theorem Beside.swap {first second : Node} (h' : Beside source markers h lo [second, first] hi) :
    Beside source markers h lo [first, second] hi := by
  refine ⟨fun hbefore => ?_⟩
  obtain ⟨hlies, hapart⟩ := h'.imp hbefore
  refine ⟨fun node hnode => hlies node (by simpa [or_comm] using hnode), ?_⟩
  exact List.pairwise_pair.mpr (List.pairwise_pair.mp hapart).symm

theorem Shaping.of_arranged [houtset : AtMost h outset start] [hstart : AtMost h start left]
    [hparts : Beside source markers h start parts left]
    (harranged : h → ∀ stop, (∀ part ∈ parts, start ≤ part.front) →
      Arranged source markers ⟨start, stop⟩ form parts) :
    Shaping source markers h outset start left form parts := by
  refine ⟨fun hbefore stop hstop => ?_⟩
  obtain ⟨hlies, hapart⟩ := hparts.imp hbefore
  have hfronts (part : Node) (hpart : part ∈ parts) : start ≤ part.front := (hlies part hpart).2.1
  refine ⟨.mk ((hstart.imp hbefore).trans hstop) (fun part hpart => (hlies part hpart).2.2.trans hstop)
    hapart (harranged hbefore stop hfronts) fun part hpart => (hlies part hpart).1, ?_⟩
  exact (houtset.imp hbefore).trans (Node.le_front_iff.mpr ⟨Nat.le_refl _, hfronts⟩)

instance shaping_loose [hloose : Holds form.isLoose] [AtMost h outset start] [AtMost h start left]
    [Beside source markers h start parts left] :
    Shaping source markers h outset start left form parts :=
  .of_arranged fun _ stop => (arranged_iff_of_isLoose hloose.eq ⟨start, stop⟩ parts).mpr

instance (priority := low) shaping_knownLoose [hloose : Entails h (form.isLoose = true)]
    [AtMost h outset start] [AtMost h start left] [Beside source markers h start parts left] :
    Shaping source markers h outset start left form parts :=
  .of_arranged fun hbefore stop => (arranged_iff_of_isLoose (hloose.imp hbefore) ⟨start, stop⟩ parts).mpr

/-- Only the decorators of a class that is declared may stand before it. -/
instance shaping_class {ambient : Bool}
    [houtset : AtMost h outset start] [hstart : AtMost h start left]
    [hparts : Beside source markers h outset parts left] :
    Shaping source markers h outset start left (.classDefinition .declaration ambient) parts := by
  refine ⟨fun hbefore stop hstop => ?_⟩
  obtain ⟨hlies, hapart⟩ := hparts.imp hbefore
  refine ⟨.mk ((hstart.imp hbefore).trans hstop) (fun part hpart => (hlies part hpart).2.2.trans hstop)
    hapart trivial fun part hpart => (hlies part hpart).1, Node.le_front_iff.mpr ?_⟩
  exact ⟨houtset.imp hbefore, fun part hpart => (hlies part hpart).2.1⟩

/-- The keyword `import` stands in front of what it imports. -/
instance shaping_importCall [houtset : AtMost h outset start]
    [hstart : AtMost h (start + width "import".toList) left]
    [hparts : Beside source markers h (start + width "import".toList) parts left] :
    Shaping source markers h outset start left .importCall parts := by
  refine ⟨fun hbefore stop hstop => ?_⟩
  obtain ⟨hlies, hapart⟩ := hparts.imp hbefore
  have hfar := (hstart.imp hbefore).trans hstop
  have hnear : start ≤ stop := (Nat.le_add_right _ _).trans hfar
  have hfronts (part : Node) (hpart : part ∈ parts) := (hlies part hpart).2.1
  refine ⟨.mk hnear (fun part hpart => (hlies part hpart).2.2.trans hstop)
    hapart ⟨hfar, hfronts⟩ fun part hpart => (hlies part hpart).1, Node.le_front_iff.mpr ?_⟩
  exact ⟨houtset.imp hbefore, fun part hpart =>
    ((houtset.imp hbefore).trans (Nat.le_add_right _ _)).trans (hfronts part hpart)⟩

/-- In angle brackets a type stands in front of its operand. -/
instance (priority := low) shaping_cast {operand type : Node} [AtMost h outset start]
    [AtMost h start left] [hparts : Beside source markers h start [type, operand] left] :
    Shaping source markers h outset start left .cast [operand, type] :=
  have _ := hparts.swap
  .of_arranged fun _ stop => (arranged_iff_of_isLoose rfl ⟨start, stop⟩ [operand, type]).mpr

instance shaping_string {value : String} [AtMost h outset start] [AtMost h start left] :
    Shaping source markers h outset start left (.string value) [] :=
  .of_arranged fun _ _ _ => rfl

instance outset_finish : Outset (finish start form parts) lo start := ⟨⟩

instance lays_finish [hshaping : Shaping source markers h outset start left form parts] :
    Lays source markers h outset lo left (finish start form parts) := by
  refine ⟨fun s node s' hrun => ?_⟩
  cases hrun
  refine ⟨id, fun _ hbefore hreading _ hleft => ⟨hreading, .refl s, ?_⟩⟩
  obtain ⟨hordered, hfront⟩ := hshaping.imp hbefore _ hleft
  exact lies_node_iff.mpr ⟨hordered, hfront, Nat.le_refl _⟩

/-! ### Names and other leaves -/

variable [AtMost h outset lo]

/-- The forms of nodes that may have no parts at all. -/
@[reducible] def Form.isLeaf : Form → Bool
  | .importCall => false
  | _ => true

theorem arranged_nil (hleaf : form.isLeaf = true) {span : Span} :
    Arranged source markers span form [] := by
  cases form
  case classDefinition style ambient => cases style <;> simp [Arranged]
  all_goals simp_all [Arranged, Form.isLeaf]

instance shaping_leaf {start' : Nat} [hleaf : Holds form.isLeaf] [AtMost h outset start']
    [AtMost h start' left] : Shaping source markers h outset start' left form [] :=
  .of_arranged fun _ _ _ => arranged_nil hleaf.eq

instance lays_leaf [Holds form.isLeaf] : Lays source markers h outset lo left (leaf form) := by
  unfold leaf
  infer_instance

instance lays_nameLeaf [Holds form.isLeaf] :
    Lays source markers h outset lo left (nameLeaf form) := by
  unfold nameLeaf
  infer_instance

instance lays_variableName {form : String → Form} [∀ name, Holds (form name).isLeaf] :
    Lays source markers h outset lo left (variableName form) := by
  unfold variableName
  refine .skip fun token => ?_
  split <;> infer_instance

instance lays_bindingName : Lays source markers h outset lo left bindingName := by
  unfold bindingName
  infer_instance

instance lays_propertyWord : Lays source markers h outset lo left propertyWord := by
  unfold propertyWord
  refine .skip fun token => ?_
  split <;> infer_instance

instance lays_stringAs {form : String → Form} [∀ value, Holds (form value).isLeaf] :
    Lays source markers h outset lo left (stringAs form) := by
  unfold stringAs
  refine .skip fun token => ?_
  split <;> infer_instance

/-! ### Lists -/

instance lays_commaListUntil {α : Type} [Holding α] {close : String} {item : Parser α}
    [hitem : ∀ h lo left, Lays source markers h lo lo left item] :
    Lays source markers h outset lo left (commaListUntil close item) := by
  unfold commaListUntil
  infer_instance

end Laying

end ModuleLinkage.Syntax
