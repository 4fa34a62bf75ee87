import ModuleLinkage.Proofs.Lowering.Lines
import ModuleLinkage.Proofs.Text.FreshNames

/-!
# The names that compiled text adds

Compiled text calls the module by a name that the source does not use, and an anonymous default
export by another one (`injectedNames_fresh`). What the source uses is told by its words, runs of
plain letters and digits: an identifier is one of them if it is written without escapes, and not
glued to a numeral. For other identifiers the names may clash, as in `escapedModule`.
-/

set_option autoImplicit false

namespace ModuleLinkage

open Text Unicode Syntax Lowering

/-! ### Identifiers and made-up names -/

namespace Syntax

variable {source name base : List Char} {offset : Nat}

/-- A name before a plain identifier goes on with it. -/
theorem not_endsName_of_isPlainIdentifier (h : isPlainIdentifier name = true) (after : List Char) :
    ¬ EndsName (name ++ after) := by
  obtain ⟨c, chars, rfl, hstart, -⟩ := exists_of_isPlainIdentifier h
  intro hends
  have hpart := isIdentifierPart_of_isIdentifierStart (isIdentifierStart_of_isPlainStart hstart)
  rw [hends c rfl] at hpart
  cases hpart

/-- A name that is written without escapes where it names an identifier is no made-up one, unless it is
glued to a numeral. -/
theorem NamedAt.ne_uniqueName (h : NamedAt source offset name) (hbase : isPlainIdentifier base = true)
    (hplain : name <+: dropBytes offset source) :
    name ≠ uniqueName base source ∨ EndsNumeral source offset := by
  obtain ⟨place, hplace, rfl, hwhole⟩ := h
  refine or_iff_not_imp_right.mpr fun hnumeral hname => ?_
  have hidentifier : isPlainIdentifier name = true := hname ▸ isPlainIdentifier_uniqueName hbase source
  obtain ⟨hfull, hletters⟩ := letters_of_isPlainIdentifier hidentifier
  rw [hplace.isIn.dropBytes] at hplain
  obtain ⟨after, hafter⟩ := hplain
  have htext : source = takeBytes place.offset source ++ (name ++ after) := by
    rw [hafter, ← hplace.isIn.dropBytes, takeBytes_append_dropBytes]
  refine ne_uniqueName_of_stands htext hfull hletters (fun c hc => ?_) (fun c hc => ?_) hname
  · rcases hplace.cases with hseparates | hends | hends
    · exact isPlainPart_of_separates (hseparates c hc)
    · rw [← hafter] at hends
      exact absurd hends (not_endsName_of_isPlainIdentifier hidentifier after)
    · exact absurd hends hnumeral
  · exact isPlainPart_of_isIdentifierPart (hwhole after hafter.symm c hc)

/-- The name of an identifier in an anchored tree may stand where the identifier does. -/
theorem Node.Anchored.namedAt {node : Node} {name : String} (h : node.Anchored source)
    (hname : node.form.identifier? = some name) : NamedAt source node.span.start name.toList :=
  ((shaped_iff_named hname ..).mp h.shape).2

end Syntax

/-! ### Injected names -/

variable {options : CompileOptions}

/-- The names that the compiled text of a text may hold in addition to its own: what it calls the module
by, and what it calls an anonymous default export. -/
def CompileOptions.injectedNames (options : CompileOptions) (text : List Char) : List (List Char) :=
  [(options.referenceIn text).toList, defaultName ⟨text, options.referenceIn text⟩]

/-- An injected name is made up from a plain identifier. -/
theorem exists_of_mem_injectedNames (hvalid : options.validate = .ok ()) {text name : List Char}
    (hmem : name ∈ options.injectedNames text) :
    ∃ base, isPlainIdentifier base = true ∧ name = uniqueName base text := by
  rcases List.mem_pair.mp hmem with rfl | rfl
  · exact ⟨_, isPlainIdentifier_moduleAlias hvalid, String.toList_ofList⟩
  · refine ⟨(options.referenceIn text ++ "Default").toList, ?_, rfl⟩
    rw [String.toList_append]
    exact isPlainIdentifier_append (isPlainIdentifier_referenceIn hvalid text) (by decide)

theorem length_le_uniqueName (base text : List Char) : base.length ≤ (uniqueName base text).length := by
  rcases uniqueName_cases base text with ⟨-, heq⟩ | ⟨largest, -, heq⟩
  · rw [heq]
  · rw [heq, List.length_append]
    exact Nat.le_add_right _ _

/-- The two injected names are different ones. -/
theorem nodup_injectedNames (options : CompileOptions) (text : List Char) :
    (options.injectedNames text).Nodup := by
  have hlength := length_le_uniqueName (options.referenceIn text ++ "Default").toList text
  rw [String.toList_append, List.length_append] at hlength
  have hne : (options.referenceIn text).toList ≠ defaultName ⟨text, options.referenceIn text⟩ := by
    intro heq
    have hsame : (options.referenceIn text).toList.length =
        (uniqueName (options.referenceIn text ++ "Default").toList text).length :=
      congrArg List.length heq
    rw [String.toList_append] at hsame
    have hword : "Default".toList.length = 7 := rfl
    omega
  simpa [CompileOptions.injectedNames] using hne

/-- **Injected names are fresh.** Compiled text adds two names, which differ. None of them stands in
the source as a word, and no identifier of the program bears one that is written without escapes,
unless that is glued to a numeral. -/
theorem injectedNames_fresh (hvalid : options.validate = .ok ()) (text : List Char) :
    (options.injectedNames text).Nodup ∧
    (∀ before name after : List Char, text = before ++ (name ++ after) →
      (∀ c ∈ before.getLast?, isPlainPart c = false) → (∀ c ∈ after.head?, isPlainPart c = false) →
        name ∉ options.injectedNames text) ∧
    ∀ (settings : Settings) (program node : Node) (name : String),
      parse settings text = .ok program → node.Within program → node.form.identifier? = some name →
      name.toList <+: dropBytes node.span.start text →
        name.toList ∉ options.injectedNames text ∨ EndsNumeral text node.span.start := by
  refine ⟨nodup_injectedNames options text, fun before name after htext hbefore hafter hmem => ?_,
    fun settings program node name hparse hwithin hname hplain => ?_⟩
  · obtain ⟨base, hbase, rfl⟩ := exists_of_mem_injectedNames hvalid hmem
    obtain ⟨hfull, hletters⟩ := letters_of_isPlainIdentifier (isPlainIdentifier_uniqueName hbase text)
    exact ne_uniqueName_of_stands htext hfull hletters hbefore hafter rfl
  · have hnamed := (hwithin.anchored (anchored_of_parse hparse)).namedAt hname
    refine or_iff_not_imp_right.mpr fun hnumeral hmem => ?_
    obtain ⟨base, hbase, hmade⟩ := exists_of_mem_injectedNames hvalid hmem
    exact (hnamed.ne_uniqueName hbase hplain).elim (fun hne => hne hmade) hnumeral

/-! ### Single identifiers -/

/-- An identifier three levels down in a program, if a test finds one. -/
theorem exists_within {result : Except Nat Node} {test : Node → Bool}
    (h : (result.toOption.any fun program => program.parts.any fun statement =>
      statement.parts.any fun part => part.parts.any test) = true) :
    ∃ program node : Node, result = .ok program ∧ node.Within program ∧ test node = true := by
  obtain ⟨program, hresult, hany⟩ := exists_of_any h
  obtain ⟨statement, hstatement, hany⟩ := List.any_eq_true.mp hany
  obtain ⟨part, hpart, hany⟩ := List.any_eq_true.mp hany
  obtain ⟨node, hnode, htest⟩ := List.any_eq_true.mp hany
  exact ⟨program, node, hresult, .part hstatement (.part hpart (.part hnode .self)), htest⟩

/-- A module with a variable that has the preferred name of the module reference. -/
def takenName : List Char :=
  "import \"a\"; let module;".toList

/-- The module reference has another name in its compiled text. -/
theorem injectedNames_takenName : CompileOptions.validate {} = .ok () ∧
    takenName = "import \"a\"; let ".toList ++ ("module".toList ++ ";".toList) ∧
    "module".toList ∉ CompileOptions.injectedNames {} takenName ∧
    ∃ program node : Node, parse ⟨false, false, true⟩ takenName = .ok program ∧
      node.Within program ∧ node.form.identifier? = some "module" ∧
      "module".toList <+: dropBytes node.span.start takenName ∧
      ("module".toList ∉ CompileOptions.injectedNames {} takenName ∨
        EndsNumeral takenName node.span.start) := by
  have hvalid : CompileOptions.validate {} = .ok () := by decide +kernel
  have htest : ((parse ⟨false, false, true⟩ takenName).toOption.any fun program =>
      program.parts.any fun statement => statement.parts.any fun part => part.parts.any fun node =>
        node.form.identifier? == some "module" &&
          "module".toList.isPrefixOf (dropBytes node.span.start takenName)) = true := by
    decide +kernel
  obtain ⟨program, node, hparse, hwithin, hfound⟩ := exists_within htest
  rw [Bool.and_eq_true, beq_iff_eq, List.isPrefixOf_iff_prefix] at hfound
  have hfresh := injectedNames_fresh hvalid takenName
  refine ⟨hvalid, rfl, ?_, program, node, hparse, hwithin, hfound.1, hfound.2, ?_⟩
  · refine hfresh.2.1 "import \"a\"; let ".toList _ ";".toList rfl (fun c hc => ?_) fun c hc => ?_
    · obtain rfl : ' ' = c := Option.some.inj hc
      decide
    · obtain rfl : ';' = c := Option.some.inj hc
      decide
  · exact hfresh.2.2 _ program node "module" hparse hwithin hfound.1 hfound.2

/-- Whether a module has an identifier with a name that its compiled text adds. -/
def Clashes (options : CompileOptions) (text code : List Char) : Prop :=
  compile options text = .ok ⟨code, .module⟩ ∧
    ∃ (program node : Node) (name : String), parse (options.settings true) text = .ok program ∧
      node.Within program ∧ node.form.identifier? = some name ∧
      name.toList ∈ options.injectedNames text

theorem clashes_of_any {options : CompileOptions} {text code : List Char} {name : String}
    (hcompile : compile options text = .ok ⟨code, .module⟩)
    (hname : name.toList ∈ options.injectedNames text)
    (htest : ((parse (options.settings true) text).toOption.any fun program =>
      program.parts.any fun statement => statement.parts.any fun part => part.parts.any fun node =>
        node.form.identifier? == some name) = true) : Clashes options text code := by
  obtain ⟨program, node, hparse, hwithin, hfound⟩ := exists_within htest
  exact ⟨hcompile, program, node, name, hparse, hwithin, beq_iff_eq.mp hfound, hname⟩

/-- A module with a variable that is called `module`, but not written so. -/
def escapedModule : List Char :=
  "import x from \"x\"; let m\\u006fdule = 1;".toList

/-- The variable is declared in a text that calls for it as the module. -/
theorem clashes_escapedModule : Clashes { sourceGoal := .module } escapedModule
    "let x;module.importSync(\"x\",\x7bdefault(v)\x7bx=v\x7d\x7d,0); let m\\u006fdule = 1;".toList := by
  refine clashes_of_any ?_ (show "module".toList ∈ _ by decide +kernel) (by decide +kernel)
  unfold compile compileText lowerModule
  simp only [EditList.render_recordAll_ofSource]
  decide +kernel

/-- A variable that is glued to a number is taken for a part of the number. -/
example : Clashes { sourceGoal := .module } "import \"x\"; let.a=0e1module.b;".toList
    "module.importSync(\"x\"); let.a=0e1module.b;".toList := by
  refine clashes_of_any ?_ (show "module".toList ∈ _ by decide +kernel) (by decide +kernel)
  unfold compile compileText lowerModule
  simp only [EditList.render_recordAll_ofSource]
  decide +kernel

end ModuleLinkage
