import ModuleLinkage.Proofs.Syntax.Forms
import ModuleLinkage.Proofs.Syntax.Ordering.Expressions

/-!
# Laying declarations

If the productions of a grammar lay their nodes in the order of the text, then so do those of
declarations and of imports. The names in an import lie in its text too, though a name that is read once
is listed twice.
-/

set_option autoImplicit false
set_option synthInstance.maxSize 1000000000
set_option synthInstance.maxHeartbeats 200000

namespace ModuleLinkage.Syntax

open Text

variable {source : List Char} {markers : Bool} {h : Prop} {outset lo left start hi : Nat} {g : Grammar}
  [LaysAll source markers g] [AtMost h outset lo]

/-! ### Variables -/

instance lays_declarator (kind : VariableKind) (inHead : Bool) :
    Lays source markers h outset lo left (declarator g kind inHead) := by
  unfold declarator
  dsimp only
  infer_instance

instance outset_variableDeclaration {kind : VariableKind} {inHead ambient : Bool} :
    Outset (variableDeclaration g start kind inHead ambient) lo start := ⟨⟩

instance lays_variableDeclaration [AtMost h outset start] [AtMost h start lo] (kind : VariableKind)
    (inHead ambient : Bool) :
    Lays source markers h outset lo left (variableDeclaration g start kind inHead ambient) := by
  unfold variableDeclaration commaSequence
  simp only [bind_assoc, pure_bind]
  infer_instance

instance knows_variableDeclaration {kind : VariableKind} {inHead ambient : Bool} :
    Knows (variableDeclaration g start kind inHead ambient) fun node =>
      node.form.isLoose = true := by
  unfold variableDeclaration
  exact ⟨.bind fun declarators => gives_finish fun _ => rfl⟩

instance knows_withInOperator {α : Type} {parser : Parser α} {known : α → Prop}
    [hparser : Knows parser known] : Knows (withInOperator parser) known :=
  ⟨gives_within hparser.gives⟩

instance lays_variableStatement [AtMost h outset start] [AtMost h start lo] (kind : VariableKind)
    (ambient : Bool) :
    Lays source markers h outset lo left (variableStatement g start kind ambient) := by
  unfold variableStatement
  infer_instance

/-! ### Types and namespaces -/

instance lays_aliasedType : Lays source markers h outset lo left (aliasedType g) := by
  unfold aliasedType
  infer_instance

instance lays_typeAlias [AtMost h outset start] [AtMost h start lo] :
    Lays source markers h outset lo left (typeAlias g start) := by
  unfold typeAlias
  infer_instance

/-- The parents of an interface, which is all that its heritage consists of. -/
instance found_parents {heritage : Heritage} :
    Found source markers (h ∧ Lies source markers lo hi heritage) heritage.parents.flatten lo hi := by
  refine ⟨fun hboth => lies_nodes_iff.mpr ?_⟩
  have hline : InLine source markers lo hi (heritage.parents.flatten ++ heritage.implemented) := hboth.2
  exact ⟨(List.forall_mem_append.mp hline.ordered).1, (List.forall_mem_append.mp hline.front).1,
    (List.forall_mem_append.mp hline.stop).1, (List.pairwise_append.mp hline.chain).1⟩

instance lays_interfaceDeclaration [AtMost h outset start] [AtMost h start lo] :
    Lays source markers h outset lo left (interfaceDeclaration g start) := by
  unfold interfaceDeclaration typeMembers
  simp only [bind_assoc, List.append_assoc]
  infer_instance

instance lays_enumMember : Lays source markers h outset lo left (enumMember g) := by
  unfold enumMember
  dsimp only
  refine .offset fun start => .skip fun token => ?_
  split
  case h_3 =>
    refine .pass fun _ passed => .skip fun token => ?_
    split <;> infer_instance
  all_goals infer_instance

instance lays_enumeration [AtMost h outset start] [AtMost h start lo] (ambient : Bool) :
    Lays source markers h outset lo left (enumeration g start ambient) := by
  unfold enumeration
  infer_instance

instance lays_namespaceBody : Lays source markers h outset lo left (namespaceBody g) := by
  unfold namespaceBody
  infer_instance

instance lays_namespaceRest : Lays source markers h outset lo left (namespaceRest g) := by
  unfold namespaceRest
  dsimp only
  infer_instance

instance lays_namedModule [AtMost h outset start] [AtMost h start lo] (ambient : Bool) :
    Lays source markers h outset lo left (namedModule g start ambient) := by
  unfold namedModule
  dsimp only
  infer_instance

instance lays_namespaceDeclaration [AtMost h outset start] [AtMost h start lo] (ambient : Bool) :
    Lays source markers h outset lo left (namespaceDeclaration g start ambient) := by
  unfold namespaceDeclaration
  infer_instance

instance lays_globalDeclaration [AtMost h outset start] [AtMost h start lo] :
    Lays source markers h outset lo left (globalDeclaration g start) := by
  unfold globalDeclaration
  infer_instance

omit [LaysAll source markers g] in
instance lays_importAlias {name : Node} [AtMost h outset start] [hstart : AtMost h start left]
    [hleft : AtMost h left lo] [hname : Given source markers h start name left] :
    Lays source markers h outset lo left (importAlias start name) := by
  have hfound : Found source markers h name start left := ⟨hname.imp⟩
  have hstart : AtMost h start lo := ⟨fun hbefore => (hstart.imp hbefore).trans (hleft.imp hbefore)⟩
  unfold importAlias
  dsimp only
  infer_instance

omit [LaysAll source markers g] in
instance lays_aliasDeclaration [AtMost h outset start] [AtMost h start lo] :
    Lays source markers h outset lo left (aliasDeclaration start) := by
  unfold aliasDeclaration
  dsimp only
  infer_instance

/-! ### Any declaration -/

omit [AtMost h outset lo] in
/-- Only a class holds the decorators that stand before a declaration. -/
theorem LaysAt.declarationBody {decorators : List Node} [AtMost h outset start] [AtMost h start lo]
    {modifiers : List String} {s : State}
    (hclass : ∀ escaped, s.lexeme.token = .word "class" escaped →
      LaysAt source markers h outset lo left s
        (classDefinition g start decorators modifiers .declaration)) :
    LaysAt source markers h outset lo left s (declarationBody g start decorators modifiers) := by
  unfold ModuleLinkage.Syntax.declarationBody
  dsimp only
  refine .skip fun types s₁ htypes => ?_
  cases htypes
  refine .skip fun token s₂ hpresent => ?_
  obtain ⟨htoken, rfl⟩ := Outcome.done.inj hpresent
  change s.lexeme.token = token at htoken
  split
  case h_4 => exact hclass _ htoken
  case h_5 =>
    refine (?_ : Lays source markers h outset lo left _).run s
    refine .skip fun isFunction => ?_
    split
    · infer_instance
    refine .skip fun _ => ?_
    split
    · infer_instance
    refine .skip fun _ => ?_
    split <;> infer_instance
  all_goals exact Lays.run s

instance lays_declarationBody {decorators : List Node} [AtMost h outset start] [AtMost h start lo]
    [AtMost h left lo] [Given source markers h outset decorators left] (modifiers : List String) :
    Lays source markers h outset lo left (declarationBody g start decorators modifiers) :=
  ⟨fun s => .declarationBody fun _ _ => Lays.run s⟩

instance lays_declaration {decorators : List Node} [AtMost h outset start] [AtMost h start lo]
    [AtMost h left lo] [hdecorators : Given source markers h outset decorators left]
    (awaits : Bool) :
    Lays source markers h outset lo left (declaration g start decorators awaits) := by
  unfold declaration
  dsimp only
  refine .skip fun types => ?_
  split
  · exact .skip fun modifiers => .stepFrom outset fun node lo' left' => inferInstance
  · exact .skip fun modifiers => .stepFrom outset fun node lo' left' => inferInstance

omit [LaysAll source markers g]

/-! ### Names of imports and exports -/

/-- The names of a pair may both be the same. -/
instance : Placed NamePair where
  Lies source markers lo hi pair := Lies source markers lo hi pair.first ∧ Lies source markers lo hi pair.second
  mono hlo hhi h := ⟨Placed.mono hlo hhi h.1, Placed.mono hlo hhi h.2⟩

section NamePair

variable {first second : Node} {pair : NamePair} {typeOnly : Bool}

instance given_namePair [hfirst : Given source markers h lo first hi]
    [hsecond : Given source markers h lo second hi] :
    Given source markers h lo (NamePair.mk first second typeOnly) hi :=
  ⟨fun hbefore => ⟨hfirst.imp hbefore, hsecond.imp hbefore⟩⟩

instance found_pairFirst : Found source markers (h ∧ Lies source markers lo hi pair) pair.first lo hi :=
  ⟨fun hboth => hboth.2.1⟩

instance found_pairSecond : Found source markers (h ∧ Lies source markers lo hi pair) pair.second lo hi :=
  ⟨fun hboth => hboth.2.2⟩

instance atMost_pair {lower : Nat} [hlower : AtMost h lower lo] :
    AtMost (h ∧ Lies source markers lo hi pair) lower hi :=
  ⟨fun hboth => (hlower.imp hboth.1).trans (hboth.2.1.le_of_mem (List.mem_singleton_self pair.first))⟩

instance entails_pairKey [hkeys : Entails h (BothKeys pair)] : Entails h (pair.first.isKey = true) :=
  ⟨fun hbefore => (hkeys.imp hbefore).1⟩

end NamePair

instance lays_exportedName : Lays source markers h outset lo left exportedName := by
  unfold exportedName
  refine .skip fun token => ?_
  split <;> infer_instance

instance steady_isAtExportedName : Steady isAtExportedName := by
  unfold isAtExportedName
  infer_instance

instance lays_renamed {first : Node} [hleft : AtMost h left lo]
    [hfirst : Given source markers h outset first left] (typeOnly : Bool) :
    Lays source markers h outset lo left (renamed first typeOnly) := by
  have hfound : Found source markers h first outset left := ⟨hfirst.imp⟩
  unfold renamed
  infer_instance

instance lays_typeNamePair {type : Node} [hleft : AtMost h left lo]
    [htype : Given source markers h outset type left] :
    Lays source markers h outset lo left (typeNamePair type) := by
  have hfound : Found source markers h type outset left := ⟨htype.imp⟩
  unfold typeNamePair
  infer_instance

instance lays_namePair (typeOnly : Bool) :
    Lays source markers h outset lo left (namePair typeOnly) := by
  unfold namePair
  dsimp only
  refine .skip fun types => .skip fun isType => .step fun first lo' left' => ?_
  split
  · exact .stepFrom lo fun pair lo'' left'' => inferInstance
  · exact .stepFrom lo fun pair lo'' left'' => inferInstance

instance knows_namePair (typeOnly : Bool) : Knows (namePair typeOnly) BothKeys :=
  ⟨gives_namePair typeOnly⟩

omit [AtMost h outset lo] in
/-- A node that is made of the span of another lies where that one does. -/
theorem lies_renamed {node : Node} {form : Form} (hloose : form.isLoose = true)
    (hlies : Lies source markers start hi node) :
    Lies source markers start hi (Node.mk node.span form []) := by
  obtain ⟨hordered, hfront, hstop⟩ := lies_node_iff.mp hlies
  refine lies_node_iff.mpr ⟨.mk hordered.start_le_stop (List.forall_mem_nil _) .nil ?_
    (List.forall_mem_nil _), ?_, hstop⟩
  · exact (arranged_iff_of_isLoose hloose ..).mpr (List.forall_mem_nil _)
  · exact Node.le_front_iff.mpr ⟨hfront.trans node.front_le_start, List.forall_mem_nil _⟩

instance lays_localBinding {node : Node} [hnode : Given source markers h start node left] :
    Lays source markers h start lo left (localBinding node) := by
  unfold localBinding
  split
  · next name hform =>
    have hbinding : Given source markers h start (Node.mk node.span (.binding name) []) left :=
      ⟨fun hbefore => lies_renamed rfl (hnode.imp hbefore)⟩
    infer_instance
  · infer_instance

/-! ### Imports -/

instance lays_importSpecifier (typeOnly : Bool) :
    Lays source markers h outset lo left (importSpecifier typeOnly) := by
  unfold importSpecifier
  refine .offset fun start => ?_
  have hpair : Lays source markers (h ∧ Step lo left start left) start start left (namePair typeOnly) :=
    inferInstance
  refine .bind_of (gives_namePair typeOnly) hpair fun pair lo' left' => ?_
  exact .stepFrom start fun binding lo'' left'' => inferInstance

instance lays_exportSpecifier (typeOnly : Bool) :
    Lays source markers h outset lo left (exportSpecifier typeOnly) := by
  unfold exportSpecifier
  infer_instance

instance lays_importAttribute : Lays source markers h outset lo left importAttribute := by
  unfold importAttribute
  dsimp only
  refine .offset fun start => .skip fun token => ?_
  split <;> infer_instance

instance lays_attributes : Lays source markers h outset lo left attributes? := by
  unfold attributes?
  infer_instance

instance lays_moduleSource : Lays source markers h outset lo left moduleSource := by
  unfold moduleSource
  infer_instance

instance lays_namespaceSpecifier : Lays source markers h outset lo left namespaceSpecifier := by
  unfold namespaceSpecifier
  infer_instance

instance lays_importSpecifiers (typeOnly : Bool) :
    Lays source markers h outset lo left (importSpecifiers typeOnly) := by
  unfold importSpecifiers
  infer_instance

instance lays_importRest {default : List Node} [AtMost h left lo]
    [hdefault : Given source markers h outset default left] (typeOnly : Bool) :
    Lays source markers h outset lo left (importRest typeOnly default) := by
  have hfound : Found source markers h default outset left := ⟨hdefault.imp⟩
  unfold importRest
  dsimp only
  simp only [List.append_assoc]
  infer_instance

instance steady_importPhase : Steady importPhase := by
  unfold importPhase
  dsimp only
  infer_instance

instance steady_importOfTypes : Steady importOfTypes := by
  unfold importOfTypes
  infer_instance

/-! ### What imports and exports list -/

theorem Node.allListing_append {first second : List Node} (hfirst : Node.allListing first = true)
    (hsecond : Node.allListing second = true) : Node.allListing (first ++ second) = true :=
  Node.allListing_iff.mpr
    (List.forall_mem_append.mpr ⟨Node.allListing_iff.mp hfirst, Node.allListing_iff.mp hsecond⟩)

theorem Node.allListing_pair {first second : Node} (hfirst : first.isListing = true)
    (hsecond : second.isListing = true) : Node.allListing [first, second] = true :=
  Node.allListing_iff.mpr (List.forall_mem_cons.mpr ⟨hfirst, List.forall_mem_singleton.mpr hsecond⟩)

theorem Node.allListing_single {node : Node} (hnode : node.isListing = true) :
    Node.allListing [node] = true :=
  Node.allListing_iff.mpr (List.forall_mem_singleton.mpr hnode)

/-- A node is one that only names something if all its parts are. -/
theorem gives_listing {form : Form} {parts : List Node} (hform : form.isListing = true)
    (hparts : Node.allListing parts = true) :
    Gives (finish start form parts) fun node => node.isListing = true :=
  gives_finish fun _ => Node.isListing_iff.mpr ⟨hform, Node.allListing_iff.mp hparts⟩

theorem gives_importSpecifier (typeOnly : Bool) :
    Gives (importSpecifier typeOnly) fun node => node.isListing = true := by
  unfold importSpecifier localBinding
  refine .bind fun start => .bind_of (gives_namePair typeOnly) fun pair hpair => ?_
  split
  · simp only [bind_assoc, pure_bind]
    exact .bind fun _ => gives_listing rfl
      (Node.allListing_pair (Node.isListing_of_isKey hpair.1) rfl)
  · exact gives_fail

theorem gives_exportSpecifier (typeOnly : Bool) :
    Gives (exportSpecifier typeOnly) fun node => node.isListing = true := by
  unfold exportSpecifier
  exact .bind fun start => .bind_of (gives_namePair typeOnly) fun pair hpair => gives_listing rfl
    (Node.allListing_pair (Node.isListing_of_isKey hpair.1) (Node.isListing_of_isKey hpair.2))

theorem gives_importAttribute : Gives importAttribute fun node => node.isListing = true := by
  have hrest {parser : Parser Node} (hparser : Gives parser fun key => key.isListing = true)
      (start : Nat) : Gives (do
        let key ← parser
        expect ":"
        let value ← stringAs .string
        finish start .property [key, value]) fun node => node.isListing = true :=
    .bind_of hparser fun key hkey => .bind fun _ =>
      .bind_of (gives_stringAs fun _ _ => rfl) fun value hvalue =>
        gives_listing rfl (Node.allListing_pair hkey hvalue)
  unfold importAttribute
  dsimp only
  refine .bind fun start => .bind fun token => ?_
  split
  · exact hrest (gives_nameLeaf fun _ => rfl) start
  · exact hrest (gives_leaf fun _ => rfl) start
  · exact hrest gives_fail start

theorem gives_attributes : Gives attributes? fun nodes => Node.allListing nodes = true := by
  have hparts (start : Nat) : Gives (do
      advance
      expect "\x7b"
      let parts ← commaListUntil "\x7d" importAttribute
      Parser.check (allDistinct (parts.filterMap fun part => part.parts.head?.bind Node.name?))
      return [← finish start .importAttributes parts]) fun nodes => Node.allListing nodes = true :=
    .bind fun _ => .bind fun _ => .bind_of (gives_commaListUntil gives_importAttribute)
      fun parts hparts => .bind fun _ =>
        .bind_of (gives_listing rfl (Node.allListing_iff.mpr hparts)) fun node hnode =>
          gives_pure (Node.allListing_single hnode)
  unfold attributes?
  refine .bind fun start => .bind fun _ => .bind fun _ => .bind fun _ => ?_
  split
  · exact hparts start
  · exact gives_pure rfl

theorem gives_sourceListing : Gives moduleSource fun nodes => Node.allListing nodes = true := by
  have hsource : Gives (stringAs .moduleSource) fun node => node.isListing = true :=
    gives_stringAs fun _ _ => rfl
  unfold moduleSource
  refine .bind_of hsource fun source hsource =>
    .bind_of gives_attributes fun attributes hattributes => gives_pure ?_
  exact Node.allListing_append (Node.allListing_single hsource) hattributes

theorem gives_namespaceSpecifier : Gives namespaceSpecifier fun node => node.isListing = true := by
  unfold namespaceSpecifier
  exact .bind fun start => .bind fun _ => .bind fun _ =>
    .bind_of (gives_variableName fun _ _ => rfl) fun binding hbinding =>
      gives_listing rfl (Node.allListing_single hbinding)

theorem gives_importRest {typeOnly : Bool} {default : List Node}
    (hdefault : Node.allListing default = true) :
    Gives (importRest typeOnly default) fun nodes => Node.allListing nodes = true := by
  have hrest {parser : Parser (List Node)} (hparser : Gives parser fun more => Node.allListing more = true) :
      Gives (do
        let more ← parser
        expectWord "from"
        return default ++ more ++ (← moduleSource)) fun nodes => Node.allListing nodes = true :=
    .bind_of hparser fun more hmore => .bind fun _ => .bind_of gives_sourceListing fun source hsource =>
      gives_pure (Node.allListing_append (Node.allListing_append hdefault hmore) hsource)
  unfold importRest
  dsimp only
  refine .bind fun hasMore => .bind fun _ => ?_
  split
  · exact hrest (gives_pure rfl)
  refine .bind fun isStar => ?_
  split
  · exact .bind_of gives_namespaceSpecifier fun node hnode =>
      hrest (gives_pure (Node.allListing_single hnode))
  · refine hrest ?_
    unfold importSpecifiers
    exact .bind fun _ => fun s nodes s' hrun =>
      Node.allListing_iff.mpr (gives_commaListUntil (gives_importSpecifier typeOnly) s nodes s' hrun)

/-- The forms of nodes of which only what they list has to stand behind where they begin. -/
@[reducible] def Form.listsNames : Form → Bool
  | .importDeclaration _ | .exportNames _ | .exportAll _ => true
  | _ => false

theorem arranged_iff_of_listsNames {form : Form} (hlists : form.listsNames = true) (span : Span)
    (parts : List Node) : Arranged source markers span form parts ↔
      ∀ part ∈ parts, part.isListing = true ∧ span.start ≤ part.front := by
  cases form <;> first | exact Iff.rfl | cases hlists

omit [AtMost h outset lo] in
instance shaping_listing {form : Form} {parts : List Node} [hlists : Holds form.listsNames]
    [hlisting : Entails h (Node.allListing parts = true)] [AtMost h outset start] [AtMost h start left]
    [Beside source markers h start parts left] :
    Shaping source markers h outset start left form parts :=
  .of_arranged fun hbefore stop hfronts => (arranged_iff_of_listsNames hlists.eq ⟨start, stop⟩ parts).mpr
    fun part hpart =>
      ⟨Node.allListing_iff.mp (hlisting.imp hbefore) part hpart, hfronts part hpart⟩

/-! ### Whole imports -/

omit [AtMost h outset lo] in
instance found_headD {node : Node} [hnode : Found source markers h node lo hi] :
    Found source markers h (node.parts.headD node) lo hi := by
  refine ⟨fun hbefore => ?_⟩
  obtain ⟨hordered, hfront, hstop⟩ := lies_node_iff.mp (hnode.imp hbefore)
  cases hparts : node.parts with
  | nil => exact lies_node_iff.mpr ⟨hordered, hfront, hstop⟩
  | cons part rest =>
    have hmem : part ∈ node.parts := hparts ▸ List.mem_cons_self
    exact lies_node_iff.mpr ⟨hordered.part hmem, hfront.trans (Node.front_le_front hmem),
      (hordered.stop_le hmem).trans hstop⟩

omit [AtMost h outset lo] in
/-- What is listed behind the default of an import, and the import itself. -/
theorem lays_importList {default : List Node} [hlisting : Entails h (Node.allListing default = true)]
    [AtMost h outset start] [hstart : AtMost h start left] [hleft : AtMost h left lo]
    [Given source markers h start default left] (typeOnly : Bool) :
    Lays source markers h outset lo left (do
      let parts ← importRest typeOnly default
      semicolon
      finish start (.importDeclaration typeOnly) parts) := by
  have hstart : AtMost h start lo := ⟨fun hbefore => (hstart.imp hbefore).trans (hleft.imp hbefore)⟩
  have hrest : Lays source markers h start lo left (importRest typeOnly default) := inferInstance
  have hgives : Gives (importRest typeOnly default) fun parts =>
      Node.allListing default = true → Node.allListing parts = true :=
    fun s parts s' hrun hdefault => gives_importRest hdefault s parts s' hrun
  refine .bind_of hgives hrest fun parts lo' left' => ?_
  exact .of_imp (fun hboth => And.intro hboth (hboth.1.1.2 (hlisting.imp hboth.1.1.1))) inferInstance

/-- The default of an import. -/
theorem gives_importDefault : Gives (do
    let binding ← bindingName
    finish start .importDefault [binding]) fun node => Node.allListing [node] = true :=
  .bind_of (gives_variableName fun _ _ => rfl) fun _ hbinding => fun s node s' hrun =>
    Node.allListing_single (gives_listing rfl (Node.allListing_single hbinding) s node s' hrun)

instance lays_importBody [AtMost h outset start] [hstart : AtMost h start left]
    [hleft : AtMost h left lo] : Lays source markers h outset lo left (importBody start) := by
  have hstart : AtMost h start lo := ⟨fun hbefore => (hstart.imp hbefore).trans (hleft.imp hbefore)⟩
  have hsource : Lays source markers h start lo left moduleSource := inferInstance
  unfold importBody
  dsimp only
  refine .skip fun isSource => ?_
  split
  · exact .bind_of gives_sourceListing hsource fun parts lo' left' => inferInstance
  refine .skip fun _ => .skip fun typeOnly => .skip fun isName => ?_
  split
  · simp only [pure_bind]
    refine .offset fun inner => ?_
    rw [← bind_assoc]
    have hdefault : Lays source markers (h ∧ Step lo left inner left) inner inner left (do
      let binding ← bindingName
      finish inner .importDefault [binding]) := inferInstance
    refine .bind_of gives_importDefault hdefault fun name lo' left' => .skip fun types => .skip fun isAlias => ?_
    split
    · infer_instance
    · exact lays_importList typeOnly
  · have hnone : Entails h (Node.allListing [] = true) := ⟨fun _ => rfl⟩
    simp only [pure_bind]
    exact lays_importList typeOnly

end ModuleLinkage.Syntax
