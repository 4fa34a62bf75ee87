import ModuleLinkage.Proofs.Lowering.Preservation
import ModuleLinkage.Proofs.OutputKind

/-!
# The words that tell a module

The textual test for module syntax is there to save reading a text as a module. It finds the keyword
of every import, export and dynamic import of a program, wherever in the tree that stands, unless
the keyword is glued to what precedes it (`hasModuleSyntax_of_parse`): it takes the last period of a
spread for that of a member, and finds no word boundary behind a numeral. So a text that would be
rewritten stays as it is if all its module items are glued, as that of `spreadImport` is.
-/

set_option autoImplicit false

namespace ModuleLinkage

open Text Syntax Lowering

/-! ### Keywords in the text -/

namespace Text

/-- Whether a word is one of those that the test looks for. -/
def IsModuleWord (word : List Char) : Prop :=
  word = "import".toList ∨ word = "export".toList

/-- A keyword that stands behind a character which allows it is found. -/
theorem hasModuleSyntaxAfter_append {previous : Option Char} {before after : List Char}
    (hallows : allowsModuleKeyword (before.getLast?.or previous) = true)
    (hstarts : startsWithModuleKeyword after = true) :
    hasModuleSyntaxAfter previous (before ++ after) = true := by
  induction before generalizing previous with
  | nil =>
    cases after with
    | nil => cases hstarts
    | cons c rest =>
      rw [List.getLast?_nil, Option.none_or] at hallows
      simp [hasModuleSyntaxAfter, hallows, hstarts]
  | cons c rest ih =>
    rw [List.cons_append, hasModuleSyntaxAfter, Bool.or_eq_true]
    refine .inr (ih ?_)
    rw [List.getLast?_cons, Option.some_or] at hallows
    rwa [Option.or_some]

theorem startsWithModuleKeyword_append {word after : List Char} (hword : IsModuleWord word)
    (hends : endsWord after = true) :
    startsWithModuleKeyword (word ++ after) = true := by
  obtain rfl | rfl := hword
  · exact hends
  · exact hends

theorem exists_of_startsWithModuleKeyword {text : List Char} (h : startsWithModuleKeyword text = true) :
    ∃ word after, text = word ++ after ∧ IsModuleWord word ∧ endsWord after = true := by
  unfold startsWithModuleKeyword at h
  split at h
  · exact ⟨_, _, rfl, .inl rfl, h⟩
  · exact ⟨_, _, rfl, .inr rfl, h⟩
  · cases h

/-- The test finds a word that stands in the text as a whole, with no period before it. -/
theorem exists_of_hasModuleSyntaxAfter {previous : Option Char} {text : List Char}
    (h : hasModuleSyntaxAfter previous text = true) : ∃ before word after,
      text = before ++ (word ++ after) ∧ IsModuleWord word ∧
      allowsModuleKeyword (before.getLast?.or previous) = true ∧ endsWord after = true := by
  induction text generalizing previous with
  | nil => cases h
  | cons c rest ih =>
    rw [hasModuleSyntaxAfter, Bool.or_eq_true, Bool.and_eq_true] at h
    rcases h with ⟨hallows, hstarts⟩ | hrest
    · obtain ⟨word, after, htext, hword, hends⟩ := exists_of_startsWithModuleKeyword hstarts
      exact ⟨[], word, after, htext, hword, by simpa using hallows, hends⟩
    · obtain ⟨before, word, after, rfl, hword, hallows, hends⟩ := ih hrest
      refine ⟨c :: before, word, after, rfl, hword, ?_, hends⟩
      rwa [List.getLast?_cons, Option.some_or, ← Option.or_some]

theorem hasModuleSyntax_iff {text : List Char} : hasModuleSyntax text = true ↔ ∃ before word after,
    text = before ++ (word ++ after) ∧ IsModuleWord word ∧
      allowsModuleKeyword before.getLast? = true ∧ endsWord after = true := by
  constructor
  · intro h
    simpa using exists_of_hasModuleSyntaxAfter h
  · rintro ⟨before, word, after, rfl, hword, hallows, hends⟩
    exact hasModuleSyntaxAfter_append (by simpa using hallows) (startsWithModuleKeyword_append hword hends)

end Text

namespace Syntax

variable {source : List Char}

/-- Whether what begins at an offset of a text is glued to what precedes it: to a period, or to a
numeral. -/
def IsGlued (source : List Char) (offset : Nat) : Prop :=
  (takeBytes offset source).getLast? = some '.' ∨ EndsNumeral source offset

/-- What a text begins with is not glued to anything. -/
theorem not_isGlued_start (h : Place.beginsNumeral ⟨source, 0⟩ = false) : ¬ IsGlued source 0 := by
  rintro (hperiod | ⟨place, hapart, hbegins, hoffset⟩)
  · have hnone : takeBytes 0 source = [] := takeBytes_width [] source
    rw [hnone] at hperiod
    cases hperiod
  · obtain ⟨body, hbody, -⟩ := lexes_readToken place
    have hzero : place.offset = 0 := Nat.le_zero.mp (hoffset ▸ Place.Reaches.offset_le ⟨body, hbody⟩)
    have hwhole : place.rest = source := by
      rw [← hapart.isIn.dropBytes, hzero]
      exact dropBytes_width [] source
    obtain ⟨rest, offset⟩ := place
    obtain rfl := hzero
    obtain rfl := hwhole
    rw [hbegins] at h
    cases h

/-- What stands before a keyword belongs to no word, unless it is a numeral. -/
theorem KeywordAt.separated {word : List Char} {offset : Nat} (h : KeywordAt source offset word)
    (hword : IsModuleWord word) : (∀ c ∈ (takeBytes offset source).getLast?, Unicode.separates c = true) ∨
      EndsNumeral source offset := by
  obtain ⟨place, hplace, rfl, after, hafter, -⟩ := h
  rcases hplace.cases with hseparates | hname | hnumeral
  · exact .inl hseparates
  · rw [hafter] at hname
    obtain rfl | rfl := hword
    · exact absurd (hname 'i' rfl) (by decide +kernel)
    · exact absurd (hname 'e' rfl) (by decide +kernel)
  · exact .inr hnumeral

/-- A keyword that is not glued to anything is found. -/
theorem KeywordAt.hasModuleSyntax {word : List Char} {offset : Nat} (h : KeywordAt source offset word)
    (hword : IsModuleWord word) : hasModuleSyntax source = true ∨ IsGlued source offset := by
  rcases h.separated hword with hseparates | hnumeral
  · obtain ⟨place, hplace, rfl, after, hafter, hends⟩ := h
    have hstarts : startsWithModuleKeyword place.rest = true :=
      hafter ▸ startsWithModuleKeyword_append hword hends
    have hfound (hallows : allowsModuleKeyword (takeBytes place.offset source).getLast? = true) :
        Text.hasModuleSyntax source = true := by
      rw [← takeBytes_append_dropBytes place.offset source, hplace.isIn.dropBytes]
      exact hasModuleSyntaxAfter_append (by rwa [Option.or_none]) hstarts
    cases hlast : (takeBytes place.offset source).getLast? with
    | none => exact .inl (hfound (by rw [hlast]; rfl))
    | some c =>
      by_cases hperiod : c = '.'
      · exact .inr (.inl (hperiod ▸ hlast))
      · have hc := hseparates c hlast
        simp only [Unicode.separates, Bool.and_eq_true] at hc
        exact .inl (hfound (by simp [hlast, allowsModuleKeyword, hperiod, hc.2]))
  · exact .inr (.inr hnumeral)

/-! ### Keywords in the tree -/

/-- The keyword that a node begins with, if that imports or exports, at once or when it is evaluated. -/
def Form.moduleKeyword? : Form → Option String
  | .importDeclaration _ | .importCall => some "import"
  | .exportDeclaration _ | .exportNames _ | .exportDefault | .exportAll _ | .exportAssignment
  | .exportGlobalName => some "export"
  | _ => none

/-- The keyword of an anchored node stands in the text where the node begins. -/
theorem Node.Anchored.keywordAt {node : Node} {word : String} (h : node.Anchored source)
    (hword : node.form.moduleKeyword? = some word) :
    KeywordAt source node.span.start word.toList := by
  have hshape := h.shape
  obtain ⟨span, form, parts⟩ := node
  cases form with
  | importDeclaration typeOnly =>
    obtain rfl := Option.some.inj hword
    exact hshape.2
  | importCall =>
    obtain rfl := Option.some.inj hword
    exact hshape
  | exportDeclaration typeOnly =>
    obtain rfl := Option.some.inj hword
    rcases parts with _ | ⟨declaration, _ | ⟨second, rest⟩⟩
    · exact hshape.elim
    · exact hshape.2
    · exact hshape.elim
  | exportDefault =>
    obtain rfl := Option.some.inj hword
    rcases parts with _ | ⟨inner, _ | ⟨second, rest⟩⟩
    · exact hshape.elim
    · exact hshape.2
    · exact hshape.elim
  | exportNames typeOnly =>
    obtain rfl := Option.some.inj hword
    exact hshape.2
  | exportAll typeOnly =>
    obtain rfl := Option.some.inj hword
    exact hshape.2
  | exportAssignment =>
    obtain rfl := Option.some.inj hword
    exact hshape
  | exportGlobalName =>
    obtain rfl := Option.some.inj hword
    exact hshape
  | _ => cases hword

theorem isModuleWord_of_moduleKeyword {form : Form} {word : String}
    (hword : form.moduleKeyword? = some word) : IsModuleWord word.toList := by
  unfold Form.moduleKeyword? at hword
  split at hword
  all_goals
    first
    | exact .inl (congrArg String.toList (Option.some.inj hword).symm)
    | exact .inr (congrArg String.toList (Option.some.inj hword).symm)
    | cases hword

end Syntax

/-! ### Module items -/

theorem Lowering.Stands.within {node root : Node} {inNamespace inside : Bool}
    (hstands : Stands node inNamespace inside root) : node.Within root := by
  induction hstands with
  | self => exact .self
  | inside hform hpart hinner ih => exact .part hpart ih
  | member hform hpart hinner ih => exact .part hpart ih

theorem Lowering.isSome_moduleKeyword_of_isModuleItem {node : Node} {inside : Bool}
    (hitem : isModuleItem inside node = true) : ∃ word, node.form.moduleKeyword? = some word := by
  obtain ⟨span, form, parts⟩ := node
  cases form <;> first | exact ⟨_, rfl⟩ | cases hitem

/-- A module item stands in the tree and begins with a keyword. -/
theorem Lowering.exists_keyword_of_mem_moduleItems {program item : Node}
    (hitem : item ∈ moduleItems program) :
    item.Within program ∧ ∃ word, item.form.moduleKeyword? = some word := by
  obtain ⟨node, inside, hstands, hmem⟩ := exists_stands_of_mem_collect hitem
  split at hmem
  · next hmodule =>
    obtain rfl := List.mem_singleton.mp hmem
    exact ⟨hstands.within, isSome_moduleKeyword_of_isModuleItem hmodule⟩
  · cases hmem

/-- **Words tell a module.** The textual test finds every program in whose tree an import, an export
or a dynamic import stands, unless all of those are glued to what precedes them. So a text that is
read as a module is compiled as one, if its options leave open what it is, unless all that is to be
rewritten is glued to what precedes it. -/
theorem hasModuleSyntax_of_parse (text : List Char) :
    (∀ (settings : Settings) (program node : Node) (word : String),
      parse settings text = .ok program → node.Within program →
      node.form.moduleKeyword? = some word →
        hasModuleSyntax text = true ∨ IsGlued text node.span.start) ∧
    ∀ (options : CompileOptions) (source : List Char) (program : Node),
      options.validate = .ok () → options.sourceGoal = .unambiguous →
      withoutInterpreterLine source = text → parse (options.settings true) text = .ok program →
        compile options source = .ok (lowerModule options text program) ∨
          ∀ item ∈ moduleItems program, IsGlued text item.span.start := by
  have hfinds (settings : Settings) (program node : Node) (word : String)
      (hparse : parse settings text = .ok program) (hwithin : node.Within program)
      (hword : node.form.moduleKeyword? = some word) :
      hasModuleSyntax text = true ∨ IsGlued text node.span.start :=
    ((hwithin.anchored (anchored_of_parse hparse)).keywordAt hword).hasModuleSyntax
      (isModuleWord_of_moduleKeyword hword)
  refine ⟨hfinds, fun options source program hvalid hgoal htext hparse => ?_⟩
  cases hwords : hasModuleSyntax text with
  | true =>
    refine .inl ?_
    rw [compile_of_validate hvalid]
    simp [compileText, CompileOptions.wantsModule, hgoal, htext, hwords, hparse]
  | false =>
    refine .inr fun item hitem => ?_
    obtain ⟨hwithin, word, hword⟩ := exists_keyword_of_mem_moduleItems hitem
    have hfound := hfinds _ program item word hparse hwithin hword
    rw [hwords] at hfound
    exact hfound.resolve_left Bool.false_ne_true

/-- A script that loads a module. -/
def loadingScript : List Char :=
  "import(\"a\")".toList

/-- Whether a node is a dynamic import. -/
def isImportCall (node : Node) : Bool :=
  match node.form with
  | .importCall => true
  | _ => false

theorem form_of_isImportCall {node : Node} (h : isImportCall node = true) : node.form = .importCall := by
  unfold isImportCall at h
  split at h
  · assumption
  · cases h

/-- A program that dynamically imports something, if a test of it says so. -/
theorem exists_importCall {result : Except Nat Node} {test : Node → Bool}
    (h : (result.toOption.any fun program =>
      (moduleItems program).any fun item => isImportCall item && test item) = true) :
    ∃ program item : Node, result = .ok program ∧ item.Within program ∧
      item ∈ moduleItems program ∧ item.form = .importCall ∧ test item = true := by
  obtain ⟨program, hresult, hany⟩ := exists_of_any h
  obtain ⟨item, hitem, hcall⟩ := List.any_eq_true.mp hany
  rw [Bool.and_eq_true] at hcall
  exact ⟨program, item, hresult, (exists_keyword_of_mem_moduleItems hitem).1, hitem,
    form_of_isImportCall hcall.1, hcall.2⟩

/-- Nothing precedes the keyword of that script, so it is found, and the script is compiled. -/
theorem hasModuleSyntax_loadingScript : CompileOptions.validate {} = .ok () ∧
    ∃ program item : Node, parse ⟨false, false, true⟩ loadingScript = .ok program ∧
      item.Within program ∧ item.form.moduleKeyword? = some "import" ∧
      hasModuleSyntax loadingScript = true ∧
      compile {} loadingScript = .ok (lowerModule {} loadingScript program) := by
  have hloads : ((parse ⟨false, false, true⟩ loadingScript).toOption.any fun program =>
      (moduleItems program).any fun item => isImportCall item && item.span.start == 0) = true := by
    decide +kernel
  have hvalid : CompileOptions.validate {} = .ok () := by decide +kernel
  have hbare : withoutInterpreterLine loadingScript = loadingScript := by decide +kernel
  obtain ⟨program, item, hparse, hwithin, hitem, hform, hstart⟩ := exists_importCall hloads
  have hword : item.form.moduleKeyword? = some "import" := by rw [hform]; rfl
  have hfree : ¬ IsGlued loadingScript item.span.start :=
    beq_iff_eq.mp hstart ▸ not_isGlued_start (by decide)
  have hwords := hasModuleSyntax_of_parse loadingScript
  exact ⟨hvalid, program, item, hparse, hwithin, hword,
    (hwords.1 _ program item _ hparse hwithin hword).resolve_right hfree,
    (hwords.2 {} loadingScript program hvalid rfl hbare hparse).resolve_right
      fun hglued => hfree (hglued item hitem)⟩

/-! ### Texts that are overlooked -/

/-- Whether a text loads a module, as a script and as a module, and is handed out as it is nevertheless,
because the textual test does not find the keyword. -/
def IsOverlooked (text : List Char) : Prop :=
  hasModuleSyntax text = false ∧ compile {} text = .ok ⟨text, .script⟩ ∧
    ∀ asModule, ∃ program item : Node, parse ⟨false, false, asModule⟩ text = .ok program ∧
      item.Within program ∧ item ∈ moduleItems program ∧ item.form = .importCall

theorem isOverlooked_of_any {text : List Char} (hwords : hasModuleSyntax text = false)
    (hcompile : compile {} text = .ok ⟨text, .script⟩)
    (hloads : ∀ asModule, ((parse ⟨false, false, asModule⟩ text).toOption.any fun program =>
      (moduleItems program).any fun item => isImportCall item && true) = true) : IsOverlooked text := by
  refine ⟨hwords, hcompile, fun asModule => ?_⟩
  obtain ⟨program, item, hparse, hwithin, hitem, hform, -⟩ := exists_importCall (hloads asModule)
  exact ⟨program, item, hparse, hwithin, hitem, hform⟩

/-- A call that spreads what it loads. -/
def spreadImport : List Char :=
  "f(...import(\"a\"));".toList

/-- A period precedes the keyword, but that of a spread. -/
theorem isOverlooked_spreadImport : IsOverlooked spreadImport :=
  isOverlooked_of_any (by decide +kernel) (by decide +kernel) (by decide +kernel)

/-- A number that the next statement is glued to hides the keyword as well: behind a digit no word
begins. -/
example : IsOverlooked "let.a=0e1import(\"a\")".toList :=
  isOverlooked_of_any (by decide +kernel) (by decide +kernel) (by decide +kernel)

end ModuleLinkage
