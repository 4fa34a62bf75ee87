import ModuleLinkage.Proofs.Syntax.Anchoring.Expressions
import ModuleLinkage.Syntax.Parser.ModuleItem

/-!
# Reading declarations

If the productions of a grammar read a text, then so do those of declarations, imports and exports.
What begins with the word `import` or `export` ends behind that word, and what is exported begins
behind it. What an import binds is a binding, and the names in a list of exports that is from no other
module may be exported, unless a fault is noted.
-/

set_option autoImplicit false
set_option synthInstance.maxSize 100000
set_option synthInstance.maxHeartbeats 200000

namespace ModuleLinkage.Syntax

open Text

variable {source : List Char} {h : Prop} {bound left : Nat} {g : Grammar}

/-! ### Variables -/

section Shapes

variable {start : Nat} {form : Form} {parts : List Node} {node : Node}

instance shapes_isFree [hfree : Entails h (form.isFree = true)] :
    Entails h (Shapes source start left form parts) :=
  ⟨fun hbefore _ _ => shaped_of_isFree (hfree.imp hbefore) _ _⟩

end Shapes

theorem gives_variableDeclaration {start : Nat} {kind : VariableKind} {inHead ambient : Bool} :
    Gives (variableDeclaration g start kind inHead ambient) fun node =>
      node.form.isFree = true := by
  unfold variableDeclaration
  exact .bind fun declarators => gives_finish fun _ => rfl

variable [ReadsAll source g]

instance reads_declarator (kind : VariableKind) (inHead : Bool) :
    Reads source h bound left (declarator g kind inHead) := by
  unfold declarator
  dsimp only
  infer_instance

instance reads_variableDeclaration {start : Nat} [Entails h (LiesFrom source bound start)]
    (kind : VariableKind) (inHead ambient : Bool) :
    Reads source h bound left (variableDeclaration g start kind inHead ambient) := by
  unfold variableDeclaration
  infer_instance

instance reads_variableStatement {start : Nat} [Entails h (LiesFrom source bound start)]
    (kind : VariableKind) (ambient : Bool) :
    Reads source h bound left (variableStatement g start kind ambient) := by
  unfold variableStatement
  exact .bind_of (gives_within gives_variableDeclaration) inferInstance fun node => inferInstance

/-! ### Types and namespaces -/

instance reads_aliasedType : Reads source h bound left (aliasedType g) := by
  unfold aliasedType
  infer_instance

instance reads_typeAlias {start : Nat} [Entails h (LiesFrom source bound start)] :
    Reads source h bound left (typeAlias g start) := by
  unfold typeAlias
  infer_instance

instance reads_interfaceDeclaration {start : Nat} [Entails h (LiesFrom source bound start)] :
    Reads source h bound left (interfaceDeclaration g start) := by
  unfold interfaceDeclaration
  infer_instance

instance reads_enumMember : Reads source h bound left (enumMember g) := by
  unfold enumMember
  dsimp only
  refine .step fun start => ⟨fun s => .present ?_⟩
  split
  case h_1 => next htoken => exact (ReadsAt.nameLeaf htoken).bind fun key s' _ => Reads.run s'
  case h_3 =>
    refine ReadsAt.of_reads (.step fun _ => .step fun token => ?_)
    split <;> infer_instance
  all_goals exact Reads.run s

instance reads_enumeration {start : Nat} [Entails h (LiesFrom source bound start)]
    (ambient : Bool) : Reads source h bound left (enumeration g start ambient) := by
  unfold enumeration
  infer_instance

instance reads_namespaceBody : Reads source h bound left (namespaceBody g) := by
  unfold namespaceBody
  infer_instance

instance reads_namespaceRest : Reads source h bound left (namespaceRest g) := by
  unfold namespaceRest
  dsimp only
  infer_instance

instance reads_namedModule {start : Nat} [Entails h (LiesFrom source bound start)]
    (ambient : Bool) : Reads source h bound left (namedModule g start ambient) := by
  unfold namedModule
  dsimp only
  infer_instance

instance reads_namespaceDeclaration {start : Nat} [Entails h (LiesFrom source bound start)]
    (ambient : Bool) : Reads source h bound left (namespaceDeclaration g start ambient) := by
  unfold namespaceDeclaration
  infer_instance

instance reads_globalDeclaration {start : Nat} [Entails h (LiesFrom source bound start)] :
    Reads source h bound left (globalDeclaration g start) := by
  unfold globalDeclaration
  infer_instance

instance reads_importAlias {start : Nat} [Entails h (LiesFrom source bound start)] {name : Node}
    [Entails h (name.Anchored source)] : Reads source h bound left (importAlias start name) := by
  unfold importAlias
  dsimp only
  infer_instance

instance reads_aliasDeclaration {start : Nat} [Entails h (LiesFrom source bound start)] :
    Reads source h bound left (aliasDeclaration start) := by
  unfold aliasDeclaration
  dsimp only
  infer_instance

/-! ### Any declaration -/

instance reads_declarationBody {start : Nat} [Entails h (LiesFrom source bound start)]
    {decorators : List Node} [Entails h (AllAnchored source decorators)]
    (modifiers : List String) :
    Reads source h bound left (declarationBody g start decorators modifiers) := by
  unfold declarationBody
  dsimp only
  refine .step fun types => .step fun token => ?_
  split
  case h_5 =>
    refine .step fun isFunction => ?_
    split
    · infer_instance
    refine .step fun _ => ?_
    split
    · infer_instance
    refine .step fun _ => ?_
    split <;> infer_instance
  all_goals infer_instance

instance reads_declaration {start : Nat} [Entails h (LiesFrom source bound start)]
    {decorators : List Node} [Entails h (AllAnchored source decorators)] (awaits : Bool) :
    Reads source h bound left (declaration g start decorators awaits) := by
  unfold declaration
  dsimp only
  infer_instance

/-! ### Names of imports and exports -/

instance locatedNamePair : Located NamePair where
  LiesFrom source bound pair :=
    LiesFrom source bound pair.first ∧ LiesFrom source bound pair.second
  mono hle h := ⟨Located.mono hle h.1, Located.mono hle h.2⟩

section NamePair

variable {first second node : Node} {typeOnly : Bool} {pair : NamePair}

instance entails_namePair [hfirst : Entails h (LiesFrom source bound first)]
    [hsecond : Entails h (LiesFrom source bound second)] :
    Entails h (LiesFrom source bound (NamePair.mk first second typeOnly)) :=
  ⟨fun hbefore => ⟨hfirst.imp hbefore, hsecond.imp hbefore⟩⟩

instance entails_pairFirst :
    Entails (h ∧ LiesFrom source bound pair) (pair.first.Anchored source) :=
  ⟨fun hboth => hboth.2.1.1⟩

instance entails_pairSecondAnchored :
    Entails (h ∧ LiesFrom source bound pair) (pair.second.Anchored source) :=
  ⟨fun hboth => hboth.2.2.1⟩

instance entails_pairSecond :
    Entails (h ∧ LiesFrom source bound pair) (LiesFrom source bound pair.second) :=
  ⟨fun hboth => hboth.2.2⟩

end NamePair

instance reads_exportedName : Reads source h bound left exportedName := by
  unfold exportedName
  refine ⟨fun s => .present ?_⟩
  split
  · next htoken => exact .nameLeaf htoken
  all_goals exact Reads.run s

instance reads_isAtExportedName : Reads source h bound left isAtExportedName := by
  unfold isAtExportedName
  infer_instance

instance reads_renamed {first : Node} [Entails h (LiesFrom source bound first)]
    (typeOnly : Bool) : Reads source h bound left (renamed first typeOnly) := by
  unfold renamed
  infer_instance

instance reads_typeNamePair {type : Node} [Entails h (LiesFrom source bound type)] :
    Reads source h bound left (typeNamePair type) := by
  unfold typeNamePair
  infer_instance

instance reads_namePair (typeOnly : Bool) : Reads source h bound left (namePair typeOnly) := by
  unfold namePair
  dsimp only
  infer_instance

/-- A pair of keys, which may both be the same. -/
def BothKeys (pair : NamePair) : Prop :=
  pair.first.isKey = true ∧ pair.second.isKey = true

theorem gives_exportedName : Gives exportedName fun node => node.isKey = true := by
  unfold exportedName
  refine .bind fun token => ?_
  split
  · exact gives_nameLeaf fun _ => rfl
  · exact .bind fun _ => gives_leaf fun _ => rfl
  · exact gives_fail

theorem gives_renamed {first : Node} {typeOnly : Bool} (hfirst : first.isKey = true) :
    Gives (renamed first typeOnly) BothKeys := by
  unfold renamed
  refine .bind fun found => ?_
  split
  · exact .bind_of gives_exportedName fun second hsecond => gives_pure ⟨hfirst, hsecond⟩
  · exact gives_pure ⟨hfirst, hfirst⟩

theorem gives_typeNamePair {type : Node} (htype : type.isKey = true) :
    Gives (typeNamePair type) BothKeys := by
  unfold typeNamePair
  refine .bind fun isAs => ?_
  split
  · refine .bind_of gives_exportedName fun first hfirst => .bind fun isAs => ?_
    split
    · refine .bind_of gives_exportedName fun second hsecond => .bind fun isName => ?_
      split
      · exact .bind_of gives_exportedName fun third hthird => gives_pure ⟨hfirst, hthird⟩
      · exact gives_pure ⟨htype, hsecond⟩
    · refine .bind fun isName => ?_
      split
      · exact .bind_of gives_exportedName fun second hsecond => gives_pure ⟨htype, hsecond⟩
      · exact gives_pure ⟨hfirst, hfirst⟩
  · refine .bind fun isName => ?_
    split
    · exact .bind_of gives_exportedName fun first hfirst => gives_renamed hfirst
    · exact gives_pure ⟨htype, htype⟩

/-- The names of imports and exports are keys. -/
theorem gives_namePair (typeOnly : Bool) : Gives (namePair typeOnly) BothKeys := by
  have hpair {parser : Parser NamePair} (hparser : Gives parser BothKeys) :
      Gives (parser >>= fun pair => do
        Parser.check !(typeOnly && pair.typeOnly)
        return pair) BothKeys :=
    .bind_of hparser fun pair hpair => .bind fun _ => gives_pure hpair
  unfold namePair
  dsimp only
  refine .bind fun types => .bind fun isType => .bind_of gives_exportedName fun first hfirst => ?_
  split
  · exact hpair (gives_typeNamePair hfirst)
  · exact hpair (gives_renamed hfirst)

/-- The variable that a name binds stands where the name does. -/
instance reads_localBinding {node : Node} [hnode : Entails h (LiesFrom source bound node)] :
    Reads source h bound left (localBinding node) := by
  unfold localBinding
  split
  · next name hform =>
    have hname : node.form.identifier? = some name := by rw [hform]; rfl
    have hbinding : Entails h (LiesFrom source bound (Node.mk node.span (.binding name) [])) :=
      ⟨fun hbefore => ⟨(hnode.imp hbefore).1.renamed hname rfl, (hnode.imp hbefore).2⟩⟩
    infer_instance
  · infer_instance

/-! ### Shapes of imports and exports -/

section Shapes

variable {start : Nat} {typeOnly : Bool} {node first : Node} {parts : List Node}

instance entails_single : Entails (h ∧ LiesFrom source bound [node]) (node.Anchored source) :=
  ⟨fun hboth => (hboth.2 node (by simp)).1⟩

instance entails_headD [hnode : Entails h (node.Anchored source)] :
    Entails h ((node.parts.headD node).Anchored source) := by
  refine ⟨fun hbefore => ?_⟩
  have hanchored := hnode.imp hbefore
  cases hparts : node.parts with
  | nil => exact hanchored
  | cons part rest => exact hanchored.parts part (by simp [hparts])

instance shapes_importDeclaration
    [hword : Entails h (KeywordAt source start "import".toList)] :
    Entails h (Shapes source start start (.importDeclaration typeOnly) parts) :=
  ⟨fun hbefore _ hle => ⟨hle, hword.imp hbefore⟩⟩

section Exports

variable [hword : Entails h (KeywordAt source start "export".toList)]

include hword

instance shapes_exportAll : Entails h (Shapes source start start (.exportAll typeOnly) parts) :=
  ⟨fun hbefore _ hle => ⟨hle, hword.imp hbefore⟩⟩

instance shapes_exportNames
    [hparts : Entails h ((parts.any isModuleSource || parts.all isExportable) = true)] :
    Entails h (Shapes source start start (.exportNames typeOnly) parts) :=
  ⟨fun hbefore _ hle => ⟨⟨hle, hparts.imp hbefore⟩, hword.imp hbefore⟩⟩

instance shapes_exportDeclaration [hnode : Entails h (LiesFrom source start node)] :
    Entails h (Shapes source start left (.exportDeclaration typeOnly) [node]) :=
  ⟨fun hbefore _ _ => ⟨(hnode.imp hbefore).2, hword.imp hbefore⟩⟩

instance shapes_exportDefault [hnode : Entails h (LiesFrom source start node)] :
    Entails h (Shapes source start left .exportDefault [node]) :=
  ⟨fun hbefore _ _ => ⟨(hnode.imp hbefore).2, hword.imp hbefore⟩⟩

instance shapes_exportAssignment : Entails h (Shapes source start left .exportAssignment parts) :=
  ⟨fun hbefore _ _ => hword.imp hbefore⟩

instance shapes_exportGlobalName : Entails h (Shapes source start left .exportGlobalName parts) :=
  ⟨fun hbefore _ _ => hword.imp hbefore⟩

end Exports

instance shapes_importDefault [hbinding : Entails h (isBinding node = true)] :
    Entails h (Shapes source start left .importDefault [node]) :=
  ⟨fun hbefore _ _ => hbinding.imp hbefore⟩

instance shapes_importNamespace [hbinding : Entails h (isBinding node = true)] :
    Entails h (Shapes source start left .importNamespace [node]) :=
  ⟨fun hbefore _ _ => hbinding.imp hbefore⟩

instance shapes_importName [hbinding : Entails h (isBinding node = true)] :
    Entails h (Shapes source start left (.importName typeOnly) [first, node]) :=
  ⟨fun hbefore _ _ => hbinding.imp hbefore⟩

end Shapes

theorem gives_bindingName : Gives bindingName fun node => isBinding node = true :=
  gives_variableName fun _ _ => rfl

theorem gives_localBinding {node : Node} :
    Gives (localBinding node) fun binding => isBinding binding = true := by
  unfold localBinding
  split
  · exact .bind fun _ => gives_pure rfl
  · exact gives_fail

/-! ### Imports -/

instance reads_importSpecifier (typeOnly : Bool) :
    Reads source h bound left (importSpecifier typeOnly) := by
  unfold importSpecifier
  refine .step fun start => .step fun pair => ?_
  exact .bind_of gives_localBinding inferInstance fun name => inferInstance

instance reads_exportSpecifier (typeOnly : Bool) :
    Reads source h bound left (exportSpecifier typeOnly) := by
  unfold exportSpecifier
  infer_instance

instance reads_importAttribute : Reads source h bound left importAttribute := by
  unfold importAttribute
  dsimp only
  refine .step fun start => ⟨fun s => .present ?_⟩
  split
  · next htoken => exact (ReadsAt.nameLeaf htoken).bind fun key s' _ => Reads.run s'
  all_goals exact Reads.run s

instance reads_attributes : Reads source h bound left attributes? := by
  unfold attributes?
  infer_instance

instance reads_moduleSource : Reads source h bound left moduleSource := by
  unfold moduleSource
  infer_instance

instance reads_namespaceSpecifier : Reads source h bound left namespaceSpecifier := by
  unfold namespaceSpecifier
  refine .step fun start => .step fun _ => .step fun _ => ?_
  exact .bind_of gives_bindingName inferInstance fun name => inferInstance

instance reads_importSpecifiers (typeOnly : Bool) :
    Reads source h bound left (importSpecifiers typeOnly) := by
  unfold importSpecifiers
  infer_instance

instance reads_importRest (typeOnly : Bool) {default : List Node}
    [Entails h (AllAnchored source default)] :
    Reads source h bound left (importRest typeOnly default) := by
  unfold importRest
  dsimp only
  infer_instance

instance reads_importPhase : Reads source h bound left importPhase := by
  unfold importPhase
  dsimp only
  infer_instance

instance reads_importOfTypes : Reads source h bound left importOfTypes := by
  unfold importOfTypes
  infer_instance

instance reads_importBody {start : Nat} [Entails h (LiesFrom source start start)]
    [Entails h (KeywordAt source start "import".toList)] :
    Reads source h start start (importBody start) := by
  unfold importBody
  dsimp only
  refine .step fun isSource => ?_
  split
  · infer_instance
  refine .step fun _ => .step fun typeOnly => .step fun isName => ?_
  split
  · refine .step fun inner => ?_
    refine .bind_of gives_bindingName inferInstance fun binding => ?_
    refine .step fun name => .step fun default => ?_
    split <;> infer_instance
  · refine .step fun default => ?_
    split <;> infer_instance

theorem stuck_importPhase : Stuck importPhase fun _ => True := by
  unfold importPhase
  dsimp only
  refine (stuck_isAtWord _).bind fun isDefer hdefer => ?_
  subst hdefer
  refine (stuck_isAtWord _).bind fun isSource hsource => ?_
  subst hsource
  exact stuck_pure trivial

theorem stuck_importOfTypes : Stuck importOfTypes fun _ => True := by
  unfold importOfTypes
  refine stuck_of_stays.bind fun types _ => (stuck_isAtWord _).bind fun isType htype => ?_
  subst htype
  cases types
  all_goals exact stuck_pure trivial

theorem refuses_importRest (typeOnly : Bool) (default : List Node) :
    Refuses (importRest typeOnly default) := by
  have hmore : Stuck (pure default.isEmpty <||> eat ",") fun _ => True := by
    cases default with
    | nil => exact stuck_pure trivial
    | cons node rest => exact (stuck_eat ",").imp fun _ _ => trivial
  unfold importRest
  dsimp only
  refine hmore.bind fun hasMore _ => stuck_of_stays.bind fun _ _ => ?_
  cases hasMore with
  | false => exact (refuses_expectWord "from").bind
  | true =>
    refine (stuck_isAt "*").bind fun isStar hstar => ?_
    subst hstar
    exact Refuses.bind (refuses_expect "\x7b").bind

/-- An import has more to it than its keyword. -/
theorem refuses_importBody (start : Nat) : Refuses (importBody start) := by
  unfold importBody
  dsimp only
  refine stuck_isAtString.bind fun isSource hsource => ?_
  subst hsource
  refine stuck_importPhase.bind fun _ _ => stuck_importOfTypes.bind fun typeOnly _ => ?_
  refine stuck_isAtName.bind fun isName hname => ?_
  subst hname
  exact (refuses_importRest typeOnly []).bind

/-! ### Exports -/

instance reads_exportSource : Reads source h bound left exportSource? := by
  unfold exportSource?
  refine .step fun word => ?_
  split
  · infer_instance
  refine .step fun token => ?_
  split <;> infer_instance

theorem gives_moduleSource : Gives moduleSource fun source => source.any isModuleSource = true := by
  have hsource : Gives (stringAs .moduleSource) fun node => isModuleSource node = true :=
    gives_stringAs fun _ _ => rfl
  unfold moduleSource
  refine .bind_of hsource fun node hnode => .bind fun attributes => ?_
  exact gives_pure (by rw [List.any_cons, hnode, Bool.true_or])

/-- What a list of exports is from begins with the specifier of a module, if there is anything. -/
theorem gives_exportSource :
    Gives exportSource? fun source => source = [] ∨ source.any isModuleSource = true := by
  unfold exportSource?
  refine .bind fun word => ?_
  split
  · exact gives_pure (.inl rfl)
  · refine .bind fun token => ?_
    split
    · exact fun s value s' hrun => .inr (gives_moduleSource s value s' hrun)
    all_goals first
      | exact gives_fail
      | exact gives_pure (.inl rfl)

/-- The names of a list that is from no other module may all be exported. -/
theorem exportable_of_check {names source : List Node}
    (hsource : source = [] ∨ source.any isModuleSource = true)
    (hcheck : (!source.isEmpty || names.all isExportable) = true) :
    ((names ++ source).any isModuleSource || (names ++ source).all isExportable) = true := by
  obtain rfl | hsource := hsource
  · have hnames : names.all isExportable = true := by simpa using hcheck
    simp [hnames]
  · simp [hsource]

instance reads_exportList {start : Nat} [Entails h (LiesFrom source start start)]
    [Entails h (KeywordAt source start "export".toList)]
    (typeOnly : Bool) : Reads source h start start (exportList start typeOnly) := by
  unfold exportList
  refine .step fun _ => .step fun names => ?_
  refine .bind_of gives_exportSource inferInstance fun source => ?_
  refine .of_check (.of_imp (fun hbefore => And.intro hbefore
    (exportable_of_check hbefore.1.1.2 hbefore.2)) ?_)
  infer_instance

instance reads_exportStar {start : Nat} [Entails h (LiesFrom source start start)]
    [Entails h (KeywordAt source start "export".toList)]
    (typeOnly : Bool) : Reads source h start start (exportStar start typeOnly) := by
  unfold exportStar
  dsimp only
  infer_instance

instance reads_exportedDecorators {before : List Node} [Entails h (AllAnchored source before)] :
    Reads source h bound left (exportedDecorators g before) := by
  unfold exportedDecorators
  infer_instance

instance reads_beginsClass : Reads source h bound left beginsClass := by
  unfold beginsClass
  infer_instance

instance reads_defaultBody {inner : Nat} [Entails h (LiesFrom source bound inner)]
    {decorators : List Node} [Entails h (AllAnchored source decorators)] :
    Reads source h bound left (defaultBody g inner decorators) := by
  unfold defaultBody
  infer_instance

instance reads_exportDefault {start : Nat} [Entails h (LiesFrom source start start)]
    [Entails h (KeywordAt source start "export".toList)]
    {before : List Node} [Entails h (AllAnchored source before)] :
    Reads source h start start (exportDefault g start before) := by
  unfold exportDefault
  infer_instance

instance reads_exportDeclaration {start : Nat} [Entails h (LiesFrom source start start)]
    [Entails h (KeywordAt source start "export".toList)]
    {before : List Node} [Entails h (AllAnchored source before)] :
    Reads source h start start (exportDeclaration g start before) := by
  unfold exportDeclaration
  dsimp only
  infer_instance

instance reads_exportImport {start : Nat} [Entails h (LiesFrom source start start)]
    [Entails h (KeywordAt source start "export".toList)] :
    Reads source h start start (exportImport start) := by
  unfold exportImport
  refine ⟨fun s => (reads_offset.run s).bind fun inner s' hoffset => ?_⟩
  cases hoffset
  rw [← bind_assoc]
  refine ReadsAt.bind ?_ fun node s' _ => ?_
  · exact .behindKeyword (by decide) (fun _ _ _ => inferInstance)
      (fun s' hrun => advance_of_expectWord hrun) (refuses_importBody _) inferInstance
  · refine .of_reads ?_
    split <;> infer_instance

instance reads_exportAssignment {start : Nat} [Entails h (LiesFrom source start start)]
    [Entails h (KeywordAt source start "export".toList)] :
    Reads source h start start (exportAssignment g start) := by
  unfold exportAssignment
  infer_instance

instance reads_exportGlobalName {start : Nat} [Entails h (LiesFrom source start start)]
    [Entails h (KeywordAt source start "export".toList)] :
    Reads source h start start (exportGlobalName start) := by
  unfold exportGlobalName
  infer_instance

instance reads_exportOfTypes {start : Nat} [Entails h (LiesFrom source start start)]
    [Entails h (KeywordAt source start "export".toList)]
    {before : List Node} [Entails h (AllAnchored source before)] :
    Reads source h start start (exportOfTypes g start before) := by
  unfold exportOfTypes
  infer_instance

instance reads_exportBody {start : Nat} [Entails h (LiesFrom source start start)]
    [Entails h (KeywordAt source start "export".toList)]
    {before : List Node} [Entails h (AllAnchored source before)] :
    Reads source h start start (exportBody g start before) := by
  unfold exportBody
  refine .step fun token => ?_
  split
  case h_4 =>
    refine .step fun types => ?_
    split
    · infer_instance
    · split <;> infer_instance
  all_goals infer_instance

/-! ### Behind the word `export` -/

theorem stuck_declarationModifiers : Stuck declarationModifiers fun modifiers => modifiers = [] := by
  unfold declarationModifiers modifiersWhile
  refine .iterate (stuck_present.bind fun token htoken => ?_)
  subst htoken
  exact stuck_pure rfl

theorem stuck_exportedDecorators (g : Grammar) (before : List Node) :
    Stuck (exportedDecorators g before) fun _ => True := by
  have hown : Stuck (decorators g) fun nodes => nodes = [] := by
    refine .many ((stuck_isAt "@").bind fun found hfound => ?_)
    subst hfound
    exact stuck_pure rfl
  unfold exportedDecorators
  exact hown.bind fun own _ => stuck_of_stays.bind fun _ _ => stuck_pure trivial

theorem refuses_declarationBody (g : Grammar) (start : Nat) (decorators : List Node)
    (modifiers : List String) : Refuses (declarationBody g start decorators modifiers) := by
  unfold declarationBody
  refine stuck_of_stays.bind fun types _ => stuck_present.bind fun token htoken => ?_
  subst htoken
  exact refuses_fail

theorem refuses_declaration (g : Grammar) (start : Nat) (decorators : List Node) (awaits : Bool) :
    Refuses (declaration g start decorators awaits) := by
  unfold declaration
  dsimp only
  refine stuck_of_stays.bind fun types _ => ?_
  cases types
  case' true => refine stuck_declarationModifiers.bind fun modifiers _ => ?_
  case' false => refine Stuck.bind (stuck_pure rfl) fun modifiers (_ : [] = modifiers) => ?_
  all_goals exact Refuses.bind (refuses_declarationBody g start decorators modifiers).within

theorem refuses_exportDeclaration (g : Grammar) (start : Nat) (before : List Node) :
    Refuses (exportDeclaration g start before) := by
  unfold exportDeclaration
  refine stuck_of_stays.bind fun inner _ => ?_
  refine (stuck_exportedDecorators g before).bind fun decorators _ => ?_
  exact stuck_of_stays.bind fun awaits _ =>
    Refuses.bind (refuses_declaration g inner decorators _)

/-- An export has more to it than its keyword. -/
theorem refuses_exportBody (g : Grammar) (start : Nat) (before : List Node) :
    Refuses (exportBody g start before) := by
  unfold exportBody
  refine stuck_present.bind fun token htoken => ?_
  subst htoken
  refine stuck_of_stays.bind fun types _ => ?_
  cases types
  all_goals exact refuses_exportDeclaration g start before

end ModuleLinkage.Syntax
