import ModuleLinkage.Proofs.Syntax.Ordering.Heads

/-!
# Laying exports

If the productions of a grammar lay their nodes in the order of the text, then so do those of exports. What
is exported begins behind the keyword, and of its parts only decorators that stand before the keyword lie
before that. What is exported as the default begins, if it is a function without a name or a class, with
the words of one.
-/

set_option autoImplicit false
set_option synthInstance.maxSize 1000000000
set_option synthInstance.maxHeartbeats 200000

namespace ModuleLinkage.Syntax

open Text

variable {source : List Char} {markers : Bool} {h : Prop} {outset lo left start : Nat} {g : Grammar}

/-! ### Lists of exports -/

instance entails_listing {node : Node} [hnode : Entails h (node.isListing = true)] :
    Entails h (Node.allListing [node] = true) :=
  ⟨fun hbefore => Node.allListing_single (hnode.imp hbefore)⟩

instance entails_listings {first second : List Node} [hfirst : Entails h (Node.allListing first = true)]
    [hsecond : Entails h (Node.allListing second = true)] :
    Entails h (Node.allListing (first ++ second) = true) :=
  ⟨fun hbefore => Node.allListing_append (hfirst.imp hbefore) (hsecond.imp hbefore)⟩

instance entails_noListing : Entails h (Node.allListing [] = true) := ⟨fun _ => rfl⟩

instance knows_exportedName : Knows exportedName fun node => node.isListing = true :=
  ⟨fun s node s' hrun => Node.isListing_of_isKey (gives_exportedName s node s' hrun)⟩

instance knows_moduleSource : Knows moduleSource fun nodes => Node.allListing nodes = true :=
  ⟨gives_sourceListing⟩

instance knows_exportSpecifiers {close : String} {typeOnly : Bool} :
    Knows (commaListUntil close (exportSpecifier typeOnly)) fun nodes => Node.allListing nodes = true :=
  ⟨fun s nodes s' hrun => Node.allListing_iff.mpr
    (gives_commaListUntil (gives_exportSpecifier typeOnly) s nodes s' hrun)⟩

instance knows_exportSource : Knows exportSource? fun nodes => Node.allListing nodes = true := by
  unfold exportSource?
  refine ⟨.bind fun word => ?_⟩
  split
  · exact gives_pure rfl
  refine .bind fun token => ?_
  split
  · exact gives_sourceListing
  all_goals first
    | exact gives_fail
    | exact gives_pure rfl

section Lists

variable [AtMost h outset lo]

instance lays_exportSource : Lays source markers h outset lo left exportSource? := by
  unfold exportSource?
  refine .skip fun word => ?_
  split
  · infer_instance
  refine .skip fun token => ?_
  split <;> infer_instance

end Lists

section Exports

variable [houtset : AtMost h outset start] [hstart : AtMost h start left] [hleft : AtMost h left lo]

include houtset hstart hleft

omit houtset in
theorem atMost_lo : AtMost h start lo :=
  ⟨fun hbefore => (hstart.imp hbefore).trans (hleft.imp hbefore)⟩

instance lays_exportList (typeOnly : Bool) :
    Lays source markers h outset lo left (exportList start typeOnly) := by
  have hstart := @atMost_lo h lo left start _ _
  unfold exportList
  infer_instance

instance lays_exportStar (typeOnly : Bool) :
    Lays source markers h outset lo left (exportStar start typeOnly) := by
  have hstart := @atMost_lo h lo left start _ _
  unfold exportStar
  dsimp only
  infer_instance

instance lays_exportAssignment [LaysAll source markers g] :
    Lays source markers h outset lo left (exportAssignment g start) := by
  have hstart := @atMost_lo h lo left start _ _
  unfold exportAssignment
  infer_instance

instance lays_exportGlobalName : Lays source markers h outset lo left (exportGlobalName start) := by
  have hstart := @atMost_lo h lo left start _ _
  unfold exportGlobalName
  infer_instance

end Exports

/-! ### What is exported -/

/-- The forms of nodes whose parts stand behind where the nodes begin. -/
@[reducible] def Form.isForward : Form → Bool
  | .classDefinition .declaration _ | .exportDeclaration _ | .exportDefault => false
  | _ => true

theorem Form.isForward_of_isPlain {form : Form} (h : form.isPlainDeclaration = true) :
    form.isForward = true := by
  unfold Form.isPlainDeclaration at h
  split at h <;> first | rfl | cases h

theorem Form.isForward_of_isOperand {form : Form} (h : form.isOperand = true) :
    form.isForward = true := by
  unfold Form.isForward
  split <;> first | cases h | rfl

theorem Node.Ordered.forward {node : Node} (hordered : node.Ordered source markers)
    (hform : node.form.isForward = true) : ∀ part ∈ node.parts, node.span.start ≤ part.front := by
  have harranged := hordered.arranged
  generalize node.form = form at hform harranged
  intro part hpart
  cases form
  case string value =>
    rw [show node.parts = [] from harranged] at hpart
    cases hpart
  case importCall => exact (Nat.le_add_right _ _).trans (harranged.2 part hpart)
  case importDeclaration | exportNames | exportAll | directive => exact (harranged part hpart).2
  case classDefinition style ambient =>
    cases style
    · cases hform
    · exact harranged part hpart
  all_goals first
    | exact harranged part hpart
    | cases hform

/-- Decorators that a declaration is read with may stand before where it begins, and its other parts
stand behind that. -/
def Node.BeginsAt (node : Node) (start : Nat) (decorators : List Node) : Prop :=
  start ≤ node.span.start ∧ ∀ part ∈ node.parts,
    node.span.start = start ∧ part ∈ decorators ∨ node.span.start ≤ part.front

theorem beginsAt_of_lies {node : Node} {hi : Nat} (hform : node.form.isForward = true)
    (hlies : Lies source markers start hi node) (decorators : List Node) :
    node.BeginsAt start decorators := by
  obtain ⟨hordered, hfront, -⟩ := lies_node_iff.mp hlies
  exact ⟨hfront.trans node.front_le_start, fun part hpart => .inr (hordered.forward hform part hpart)⟩

variable [LaysAll source markers g] [GivesOperands g] {s s' : State} {decorators : List Node}
  {node : Node}

theorem beginsAt_of_classDefinition (hreading : s.Reading source markers)
    (hstart : start ≤ s.lexeme.span.start) {modifiers : List String}
    (hrun : classDefinition g start decorators modifiers .declaration s = .done node s')
    (hclean : s'.faulty = false) : node.BeginsAt start decorators := by
  obtain ⟨-, -, parts, rfl, hline, -, -⟩ := done_of_classDefinition hreading hrun hclean
  refine ⟨Nat.le_refl _, fun part hpart => ?_⟩
  rcases List.mem_append.mp hpart with hpart | hpart
  · exact .inl ⟨rfl, hpart⟩
  · have hstands := hreading.sound.lexeme
    exact .inr ((hstart.trans (hstands.start_le_stop.trans hstands.stop_eq.le)).trans
      (hline.front part hpart))

theorem beginsAt_of_declarationBody (hreading : s.Reading source markers)
    (hstart : start ≤ s.lexeme.span.start) {modifiers : List String}
    (hrun : declarationBody g start decorators modifiers s = .done node s')
    (hclean : s'.faulty = false) : node.BeginsAt start decorators := by
  by_cases hclass : ∃ escaped, s.lexeme.token = .word "class" escaped
  · obtain ⟨escaped, htoken⟩ := hclass
    rw [declarationBody_of_class htoken] at hrun
    exact beginsAt_of_classDefinition hreading hstart hrun hclean
  · have hlays : LaysAt source markers True start start 0 s
        (declarationBody g start decorators modifiers) :=
      .declarationBody fun escaped htoken => absurd ⟨escaped, htoken⟩ hclass
    obtain ⟨-, -, hlies⟩ := (hlays node s' hrun).2 hclean trivial hreading hstart (Nat.zero_le _)
    exact beginsAt_of_lies
      (Form.isForward_of_isPlain (form_of_declarationBody hrun (not_exists.mp hclass))) hlies _

theorem beginsAt_of_declaration (hreading : s.Reading source markers)
    (hstart : start ≤ s.lexeme.span.start) {awaits : Bool} {pair : Node × Bool}
    (hrun : declaration g start decorators awaits s = .done pair s')
    (hclean : s'.faulty = false) : pair.1.BeginsAt start decorators := by
  have hbody (modifiers : List String) {s₁ : State} {change : Context → Context} (ambient : Bool)
      (hreading : s₁.Reading source markers) (hstart : start ≤ s₁.lexeme.span.start)
      (hrun : (do
        let node ← Parser.within change (declarationBody g start decorators modifiers)
        return (node, ambient)) s₁ = .done pair s') : pair.1.BeginsAt start decorators := by
    obtain ⟨node, s₂, hnode, hpure⟩ := done_of_bind hrun
    cases hpure
    unfold Parser.within at hnode
    split at hnode
    · next hfound =>
      cases hnode
      exact beginsAt_of_declarationBody (hreading.inContext (change s₁.context)) hstart hfound hclean
    · cases hnode
  unfold declaration at hrun
  dsimp only at hrun
  obtain ⟨types, s₁, htypes, hrun⟩ := done_of_bind hrun
  cases htypes
  split at hrun
  · obtain ⟨modifiers, s₁, hmodifiers, hrun⟩ := done_of_bind hrun
    have hclean₁ := clean_of_lays source markers hrun hclean
    obtain ⟨hreading₁, horder⟩ :=
      (moves_of_reads source markers hmodifiers).2 hclean₁ hreading
    exact hbody modifiers _ hreading₁ (hstart.trans horder.start) hrun
  · exact hbody [] _ hreading hstart hrun

/-! ### Decorators of what is exported -/

/-- Decorators, and nothing else. -/
def AllDecorators (nodes : List Node) : Prop :=
  ∀ node ∈ nodes, node.form = .decorator

instance entails_noDecorators : Entails h (AllDecorators []) := ⟨fun _ => nofun⟩

/-- What is known of the decorators of a declaration that is exported: those that stand before the keyword
end before it, and the others begin behind `inner`. -/
structure DecoratedFrom (source : List Char) (markers : Bool) (start inner hi : Nat)
    (nodes : List Node) : Prop where
  forms : AllDecorators nodes
  line : InLine source markers 0 hi nodes
  beside : ∀ node ∈ nodes, node.span.stop ≤ start ∨ inner ≤ node.front

omit [GivesOperands g] in
/-- The decorators that are exported, of which those in `before` have been read before the keyword. -/
theorem decoratedFrom_of_run (hreading : s.Reading source markers) (hstart : start ≤ s.lexeme.span.start)
    {before : List Node} (hforms : AllDecorators before) (hline : InLine source markers 0 start before)
    (hrun : exportedDecorators g before s = .done decorators s') (hclean : s'.faulty = false) :
    DecoratedFrom source markers start s.lexeme.span.start s'.lexeme.span.start decorators ∧
      s.Before s' ∧ (s'.lexeme = s.lexeme ∨ ∃ last ∈ decorators.getLast?,
        s.lexeme.span.start ≤ last.span.stop ∧ last.span.stop = s'.previousStop) := by
  obtain ⟨own, s₁, hown, hrun⟩ := done_of_bind hrun
  obtain ⟨_, s₂, hcheck, hpure⟩ := done_of_bind hrun
  cases hpure
  obtain ⟨-, hsame⟩ := done_of_check hcheck hclean
  subst hsame
  have hlays : Lays source markers True s.lexeme.span.start s.lexeme.span.start 0
      (Syntax.decorators g) := inferInstance
  obtain ⟨hreading', horder, hlies⟩ :=
    (hlays.run s own s' hown).2 hclean trivial hreading (Nat.le_refl _) (Nat.zero_le _)
  have howns := lies_nodes_iff.mp hlies
  refine ⟨⟨List.forall_mem_append.mpr ⟨hforms, gives_decorators s own s' hown⟩, ?_,
    List.forall_mem_append.mpr ⟨fun node hnode => .inl (hline.stop node hnode),
      fun node hnode => .inr (howns.front node hnode)⟩⟩, horder, ?_⟩
  · exact hline.append (howns.mono (Nat.le_refl _) hreading'.sound.order) hstart (Nat.zero_le _)
      (hstart.trans horder.start)
  · cases hlast : own.getLast? with
    | none =>
      obtain rfl := List.getLast?_eq_none_iff.mp hlast
      exact .inl (lexeme_of_decorators hown)
    | some last =>
      have hmem := List.mem_of_getLast? hlast
      refine .inr ⟨last, ?_, (howns.front last hmem).trans (howns.ordered last hmem).front_le_stop,
        stop_of_decorators hown last hlast⟩
      rw [List.getLast?_append, hlast]
      rfl

omit [LaysAll source markers g] [GivesOperands g] in
theorem Node.BeginsAt.isClearOf {inner hi : Nat} (h : node.BeginsAt inner decorators)
    (hdecorators : DecoratedFrom source markers start inner hi decorators) (hstart : start ≤ inner) :
    start ≤ node.span.start ∧ node.IsClearOf start := by
  refine ⟨hstart.trans h.1, fun part hpart => ?_⟩
  rcases h.2 part hpart with ⟨hspan, hmem⟩ | hbehind
  · exact (hdecorators.beside part hmem).imp_right hspan.le.trans
  · exact .inr hbehind

/-! ### Whole exports -/

section Shapes

variable {typeOnly : Bool} {hi : Nat}

omit [LaysAll source markers g] [GivesOperands g]

/-- A node that holds one part, which may begin before it. -/
theorem Shaping.of_single {form : Form} [houtset : AtMost h outset start] [hstart : AtMost h start left]
    [hnode : Given source markers h outset node left]
    (harranged : h → ∀ stop, Arranged source markers ⟨start, stop⟩ form [node]) :
    Shaping source markers h outset start left form [node] := by
  refine ⟨fun hbefore stop hstop => ?_⟩
  obtain ⟨hordered, hfront, hend⟩ := lies_node_iff.mp (hnode.imp hbefore)
  refine ⟨.mk ((hstart.imp hbefore).trans hstop) ?_ (List.pairwise_singleton _ _)
    (harranged hbefore stop) ?_, Node.le_front_iff.mpr ⟨houtset.imp hbefore, ?_⟩⟩
  · exact List.forall_mem_singleton.mpr (hend.trans hstop)
  · exact List.forall_mem_singleton.mpr hordered
  · exact List.forall_mem_singleton.mpr hfront

instance shaping_exportDeclaration [AtMost h outset start] [AtMost h start left]
    [Given source markers h outset node left]
    [hclear : Entails h (start ≤ node.span.start ∧ node.IsClearOf start)] :
    Shaping source markers h outset start left (.exportDeclaration typeOnly) [node] :=
  .of_single fun hbefore _ => hclear.imp hbefore

instance shaping_exportDefault [AtMost h outset start] [AtMost h start left]
    [Given source markers h outset node left]
    [hclear : Entails h ((start ≤ node.span.start ∧ node.IsClearOf start) ∧
      Headed source markers node)] :
    Shaping source markers h outset start left .exportDefault [node] :=
  .of_single fun hbefore _ => hclear.imp hbefore

end Shapes

omit [GivesOperands g] in
theorem lays_exportedDecorators (start : Nat) [houtset : AtMost h outset start] [AtMost h start left]
    [hlo : AtMost h start lo] {before : List Node} [hbefore : Given source markers h outset before start] :
    Lays source markers h outset lo left (exportedDecorators g before) := by
  have houtset : AtMost h outset lo := ⟨fun hbefore => (houtset.imp hbefore).trans (hlo.imp hbefore)⟩
  have hfound : Found source markers h before outset start := ⟨hbefore.imp⟩
  unfold exportedDecorators
  infer_instance

/-! ### What is exported as the default -/

instance steady_beginsClass : Steady beginsClass := by
  unfold beginsClass
  infer_instance

instance stays_ite {condition : Prop} [Decidable condition] {first second : Parser Bool}
    [hfirst : Stays first] [hsecond : Stays second] :
    Stays (if condition then first else second) := by
  split
  · exact hfirst
  · exact hsecond

instance stays_beginsClass : Stays beginsClass := by
  unfold beginsClass
  infer_instance

instance stays_beginsFunction : Stays beginsFunction := by
  unfold beginsFunction
  infer_instance

/-- The forms of nodes that need no words at their heads. -/
@[reducible] def Form.isHeadless : Form → Bool
  | .function .declaration _ | .classDefinition .declaration _ => false
  | _ => true

theorem Form.isHeadless_of_isOperand {form : Form} (h : form.isOperand = true) :
    form.isHeadless = true := by
  unfold Form.isHeadless
  split <;> first | cases h | rfl

omit [LaysAll source markers g] [GivesOperands g] in
theorem headed_of_isHeadless (hform : node.form.isHeadless = true) : Headed source markers node := by
  unfold Headed
  split
  · next hfunction =>
    rw [hfunction] at hform
    cases hform
  · next hclass =>
    rw [hclass] at hform
    cases hform
  · trivial

/-- A class that is exported as the default begins with its modifiers and its keyword, behind its
decorators. -/
theorem headed_of_defaultClass {inner : Nat} (hreading : s.Reading source markers)
    (hinner : inner ≤ s.lexeme.span.start)
    (hdecorated : DecoratedFrom source markers start inner s.lexeme.span.start decorators)
    (hfirst : s.lexeme.span.start = inner ∨ ∃ last ∈ decorators.getLast?,
      inner ≤ last.span.stop ∧ last.span.stop = s.previousStop)
    {modifiers : List String} {s₂ : State} (hmodifiers : plainModifiers s = .done modifiers s₂)
    (hrun : classDefinition g inner decorators modifiers .declaration s₂ = .done node s')
    (hclean : s'.faulty = false) :
    node.BeginsAt inner decorators ∧ Headed source markers node := by
  have hclean₂ := clean_of_lays source markers hrun hclean
  obtain ⟨hreading₂, horder⟩ := (moves_of_reads source markers hmodifiers).2 hclean₂ hreading
  refine ⟨beginsAt_of_classDefinition hreading₂ (hinner.trans horder.start) hrun hclean, ?_⟩
  obtain ⟨htoken, hallowed, parts, rfl, hline, hstop, hundecorated, htail⟩ :=
    done_of_classDefinition hreading₂ hrun hclean
  have hhead := precedes_of_plainModifiers hreading.markers hmodifiers hclean₂
  have hbegins : s.lexeme.BeginsClass source markers
      (.mk ⟨inner, s'.previousStop⟩ (.classDefinition .declaration (modifiers.contains "declare"))
        (decorators ++ parts)) decorators := by
    have hnext := hreading.sound.next
    rw [hreading.markers] at hnext
    obtain ⟨word, hword⟩ := hhead.exists_word htoken
    rcases hfirst with hhere | ⟨last, hlast, hle, hstop⟩
    · exact .inl ⟨hhere, hnext.isFresh hword⟩
    · refine .inr ⟨last, hlast, hle, ?_⟩
      rwa [hstop]
  refine ⟨s.lexeme, s₂.lexeme, modifiers, decorators, parts, hreading.sound.lexeme, hinner, hbegins,
    hhead, htoken, hallowed, rfl, hstop,
    fun part hpart => ⟨hdecorated.forms part hpart, hdecorated.line.stop part hpart⟩,
    hdecorated.line.chain, fun part hpart => ⟨fun hform => ?_, hline.front part hpart⟩, htail⟩
  have hother := hundecorated part hpart
  rw [hform] at hother
  cases hother

/-- What is exported as the default begins where it is read, behind its decorators. -/
theorem headed_of_defaultBody {inner : Nat} (hreading : s.Reading source markers)
    (hinner : inner ≤ s.lexeme.span.start)
    (hdecorated : DecoratedFrom source markers start inner s.lexeme.span.start decorators)
    (hfirst : s.lexeme.span.start = inner ∨ ∃ last ∈ decorators.getLast?,
      inner ≤ last.span.stop ∧ last.span.stop = s.previousStop)
    (hrun : defaultBody g inner decorators s = .done node s') (hclean : s'.faulty = false) :
    node.BeginsAt inner decorators ∧ Headed source markers node := by
  obtain ⟨isClass, s₁, hclass, hrun⟩ := done_of_bind hrun
  obtain ⟨hlexeme, hprevious⟩ := Stays.stay _ _ _ hclass
  have hclean₁ := clean_of_lays source markers hrun hclean
  obtain ⟨hreading₁, -⟩ := (moves_of_reads source markers hclass).2 hclean₁ hreading
  rw [← hlexeme] at hinner hdecorated hfirst
  rw [← hprevious] at hfirst
  split at hrun
  · obtain ⟨modifiers, s₂, hmodifiers, hrun⟩ := done_of_bind hrun
    exact headed_of_defaultClass hreading₁ hinner hdecorated hfirst hmodifiers hrun hclean
  -- Decorators are a fault before anything but a class.
  obtain ⟨_, s₂, hcheck, hbody⟩ := done_of_bind hrun
  have hclean₂ := clean_of_lays source markers hbody hclean
  obtain ⟨hempty, rfl⟩ := done_of_check hcheck hclean₂
  obtain rfl := List.isEmpty_iff.mp hempty
  obtain rfl : s₂.lexeme.span.start = inner := by
    rcases hfirst with hhere | ⟨last, hlast, -⟩
    · exact hhere
    · cases hlast
  have hbegins {parser : Parser Node} {s s' : State} (hlays : Lays source markers True
      s₂.lexeme.span.start s₂.lexeme.span.start 0 parser) (hreading : s.Reading source markers)
      (hle : s₂.lexeme.span.start ≤ s.lexeme.span.start) (hrun : parser s = .done node s')
      (hclean : s'.faulty = false) (hform : node.form.isForward = true) :
      node.BeginsAt s₂.lexeme.span.start [] := by
    obtain ⟨-, -, hlies⟩ := (hlays.run s node s' hrun).2 hclean trivial hreading hle (Nat.zero_le _)
    exact beginsAt_of_lies hform hlies _
  obtain ⟨isInterface, s₃, hinterface, hbody⟩ := done_of_bind hbody
  have hclean₃ := clean_of_lays source markers hbody hclean
  obtain ⟨hreading₃, horder₃⟩ := (moves_of_reads source markers hinterface).2 hclean₃ hreading₁
  split at hbody
  · have hform : GivesForm Form.isHeadless (interfaceDeclaration g s₂.lexeme.span.start) := by
      unfold interfaceDeclaration
      infer_instance
    exact ⟨hbegins inferInstance hreading₃ horder₃.start hbody hclean
      (Form.isForward_of_isPlain (form_interfaceDeclaration.gives _ _ _ hbody)),
      headed_of_isHeadless (hform.gives _ _ _ hbody)⟩
  obtain ⟨isFunction, s₄, hfunction, hbody⟩ := done_of_bind hbody
  have hclean₄ := clean_of_lays source markers hbody hclean
  obtain ⟨hreading₄, horder₄⟩ := (moves_of_reads source markers hfunction).2 hclean₄ hreading₃
  split at hbody
  · have hplain : node.form.isPlainDeclaration = true := form_functionDeclaration.gives _ _ _ hbody
    refine ⟨hbegins inferInstance hreading₄ (horder₃.trans horder₄).start hbody hclean
      (Form.isForward_of_isPlain hplain), ?_⟩
    have hlexeme₄ : s₄.lexeme = s₂.lexeme := by
      rw [Stays.lexeme _ _ _ hfunction, Stays.lexeme _ _ _ hinterface]
    unfold Headed
    split
    · rw [← hlexeme₄] at hbody
      exact headedFunction_of_run hreading₄ hbody hclean
    · next hclass =>
      rw [hclass] at hplain
      cases hplain
    · trivial
  · obtain ⟨expression, s₅, hexpression, hbody⟩ := done_of_bind hbody
    obtain ⟨_, s₆, hsemicolon, hpure⟩ := done_of_bind hbody
    cases hpure
    have helement : GivesForm Form.isOperand (element g) := by
      unfold element withInOperator
      infer_instance
    have hoperand : node.form.isOperand = true := helement.gives _ _ _ hexpression
    exact ⟨hbegins inferInstance hreading₄ (horder₃.trans horder₄).start hexpression
      (clean_of_reads [] hsemicolon hclean) (Form.isForward_of_isOperand hoperand),
      headed_of_isHeadless (Form.isHeadless_of_isOperand hoperand)⟩

section Exports

variable [houtset : AtMost h outset start] [hstart : AtMost h start left] [hleft : AtMost h left lo]
  {before : List Node} [hbefore : Given source markers h outset before start]

instance lays_exportDeclaration [hforms : Entails h (AllDecorators before)] :
    Lays source markers h outset lo left (exportDeclaration g start before) := by
  have hlo := @atMost_lo h lo left start _ _
  have hout : AtMost h outset lo := ⟨fun hbefore => (houtset.imp hbefore).trans (hlo.imp hbefore)⟩
  have hfound : Found source markers h before outset start := ⟨hbefore.imp⟩
  unfold exportDeclaration
  refine ⟨fun s => .offset (.of_known (fun _ hreading _ => hreading) ?_)⟩
  have hdecorators : Lays source markers ((h ∧ Step lo left s.lexeme.span.start left) ∧
      s.Reading source markers) outset s.lexeme.span.start left (exportedDecorators g before) :=
    lays_exportedDecorators start
  refine (hdecorators.run s).bind fun decorators s₁ lo₁ left₁ hrun => ?_
  refine .skip fun context s₂ hcontext => ?_
  cases hcontext
  refine .of_known (fun _ hreading hclean => And.intro hreading hclean) ?_
  refine .stepFrom outset fun pair s₂ lo₂ left₂ hrun' => ?_
  obtain ⟨node, typeOnly⟩ := pair
  refine .of_known (fun hall hreading' hclean =>
    (?_ : start ≤ node.span.start ∧ node.IsClearOf start)) (Lays.run s₂)
  obtain ⟨⟨⟨⟨⟨⟨⟨hfirst, hstep⟩, hreading⟩, -⟩, -⟩, hreading₁, hclean₁⟩, -⟩, -⟩ := hall
  have hinner := (hlo.imp hfirst).trans hstep.start
  have hline := (lies_nodes_iff.mp (hbefore.imp hfirst)).mono (Nat.zero_le _) (Nat.le_refl _)
  obtain ⟨hdecorated, horder, -⟩ :=
    decoratedFrom_of_run hreading hinner (hforms.imp hfirst) hline hrun hclean₁
  exact (beginsAt_of_declaration hreading₁ horder.start hrun' hclean).isClearOf hdecorated hinner

omit houtset hstart hbefore in
instance lays_defaultBody {inner : Nat} {decorators : List Node} [houtset : AtMost h outset inner]
    [hinner : AtMost h inner lo] [Given source markers h outset decorators left] :
    Lays source markers h outset lo left (defaultBody g inner decorators) := by
  have hout : AtMost h outset lo := ⟨fun hbefore => (houtset.imp hbefore).trans (hinner.imp hbefore)⟩
  unfold defaultBody
  infer_instance

instance lays_exportDefault [hforms : Entails h (AllDecorators before)] :
    Lays source markers h outset lo left (exportDefault g start before) := by
  have hlo := @atMost_lo h lo left start _ _
  have hout : AtMost h outset lo := ⟨fun hbefore => (houtset.imp hbefore).trans (hlo.imp hbefore)⟩
  have hfound : Found source markers h before outset start := ⟨hbefore.imp⟩
  unfold exportDefault
  refine ⟨fun s => .offset (.of_known (fun _ hreading _ => hreading) ?_)⟩
  have hdecorators : Lays source markers ((h ∧ Step lo left s.lexeme.span.start left) ∧
      s.Reading source markers) outset s.lexeme.span.start left (exportedDecorators g before) :=
    lays_exportedDecorators start
  refine (hdecorators.run s).bind fun decorators s₁ lo₁ left₁ hrun => ?_
  refine .of_known (fun _ hreading hclean => And.intro hreading hclean) ?_
  refine .stepFrom outset fun node s₂ lo₂ left₂ hrun' => ?_
  refine .of_known (fun hall hreading' hclean =>
    (?_ : (start ≤ node.span.start ∧ node.IsClearOf start) ∧ Headed source markers node)) (Lays.run s₂)
  obtain ⟨⟨⟨⟨⟨⟨⟨hfirst, hstep⟩, hreading⟩, -⟩, -⟩, hreading₁, hclean₁⟩, -⟩, -⟩ := hall
  have hinner := (hlo.imp hfirst).trans hstep.start
  have hline := (lies_nodes_iff.mp (hbefore.imp hfirst)).mono (Nat.zero_le _) (Nat.le_refl _)
  obtain ⟨hdecorated, horder, hbegun⟩ :=
    decoratedFrom_of_run hreading hinner (hforms.imp hfirst) hline hrun hclean₁
  obtain ⟨hbegins, hheaded⟩ := headed_of_defaultBody hreading₁ horder.start hdecorated
    (hbegun.imp_left fun hsame => by rw [hsame]) hrun' hclean
  exact ⟨hbegins.isClearOf hdecorated hinner, hheaded⟩

/-! ### Any export -/

omit [GivesOperands g] [LaysAll source markers g] hbefore in
instance lays_exportImport : Lays source markers h outset lo left (exportImport start) := by
  have hlo := @atMost_lo h lo left start _ _
  have hout : AtMost h outset lo := ⟨fun hbefore => (houtset.imp hbefore).trans (hlo.imp hbefore)⟩
  unfold exportImport
  refine .offset fun inner => .pass fun _ passed => .stepFrom inner fun node lo' left' => ?_
  split
  · next hform =>
    refine .of_imp (fun hall => And.intro hall
      (?_ : start ≤ node.span.start ∧ node.IsClearOf start)) inferInstance
    obtain ⟨⟨⟨⟨hfirst, hstep⟩, -⟩, -⟩, hlies⟩ := hall
    obtain ⟨hbehind, hparts⟩ := beginsAt_of_lies (by rw [hform]) hlies []
    refine ⟨((hlo.imp hfirst).trans hstep.start).trans hbehind, fun part hpart => .inr ?_⟩
    exact (hparts part hpart).resolve_left (by simp)
  · infer_instance

instance lays_exportOfTypes [Entails h (AllDecorators before)] :
    Lays source markers h outset lo left (exportOfTypes g start before) := by
  unfold exportOfTypes
  infer_instance

instance lays_exportBody [Entails h (AllDecorators before)] :
    Lays source markers h outset lo left (exportBody g start before) := by
  unfold exportBody
  refine .skip fun token => ?_
  split
  case h_4 =>
    refine .skip fun types => ?_
    split
    · infer_instance
    · split <;> infer_instance
  all_goals infer_instance

end Exports

end ModuleLinkage.Syntax
