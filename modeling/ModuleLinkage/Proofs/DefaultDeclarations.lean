import ModuleLinkage.Proofs.HoistedCode
import ModuleLinkage.Proofs.Lowering.DefaultNames
import ModuleLinkage.Proofs.Syntax.Ordering.Programs

/-!
# Default declarations without a name

A function or class that is exported as the default without a name is registered under a generated one,
which a getter in the hoisted code reads. Compiled text declares it under that name (`names_default`),
except for a class where the word `class` stands between its decorators, or its beginning, and its
keyword, as in `commentedClass`.
-/

set_option autoImplicit false

namespace ModuleLinkage.Lowering

open Syntax Text EditList

variable {subject : Subject} {program outer inner : Node}

/-! ### Declarations -/

/-- How a function or class without a name that is exported as the default stands in lowered text: with
the generated name, unless the keyword of a class is overlooked. -/
inductive DeclaresDefault (subject : Subject) (program inner : Node) : Prop
  | function {ambient : Bool} {first last : Lexeme} {tokens : List Token} {part : Node}
      {rest : List Node} (hform : inner.form = .function .declaration ambient)
      (hhead : FunctionHead subject.source false inner first last tokens part rest)
      (hnamed : NamesWithin subject program tokens ⟨inner.span.start, last.next.offset⟩ part.span.start)
  | definition {ambient : Bool} {first keyword : Lexeme} {modifiers : List String}
      {decorators rest : List Node} (hform : inner.form = .classDefinition .declaration ambient)
      (hhead : ClassHead subject.source false inner first keyword modifiers decorators rest)
      (hclear : ¬ "class".toList <:+: beforeKeyword subject inner decorators keyword)
      (hnamed : NamesWithin subject program (modifiers.map .plain ++ [.plain "class"])
        ⟨first.span.start, (readLexeme false false keyword.next).next.offset⟩ keyword.next.offset)
  | overlooked {ambient : Bool} {first keyword : Lexeme} {modifiers : List String}
      {decorators rest : List Node} (hform : inner.form = .classDefinition .declaration ambient)
      (hhead : ClassHead subject.source false inner first keyword modifiers decorators rest)
      (hword : "class".toList <:+: beforeKeyword subject inner decorators keyword)
      (hleft : RendersAs subject.source (loweringEdits subject program)
        ⟨keyword.span.start, (readLexeme false false keyword.next).next.offset⟩ [])

theorem declaresDefault_of_isDefault (h : IsDefault subject program outer inner) {ambient : Bool}
    (hinner : inner.form = .function .declaration ambient ∨
      inner.form = .classDefinition .declaration ambient) (hname : inner.ownName? = none) :
    DeclaresDefault subject program inner := by
  have hheaded := (headed_of_exportDefault (h.occurs.within.ordered h.ordered) h.form h.parts).2
  rcases hinner with hform | hform <;> rw [Headed, hform] at hheaded
  · obtain ⟨first, last, tokens, part, rest, hhead⟩ := hheaded hname
    exact .function hform hhead (namesWithin_function h hform hname hhead)
  · obtain ⟨first, keyword, modifiers, decorators, rest, hhead⟩ := hheaded
    by_cases hword : "class".toList <:+: beforeKeyword subject inner decorators keyword
    · exact .overlooked hform hhead hword (rendersAs_of_overlooked h hform hname hhead hword)
    · exact .definition hform hhead hword (namesWithin_class h hform hname hhead hword)

/-- Where the word `class` does not stand behind the place of the name, no keyword is overlooked. -/
theorem DeclaresDefault.exists_namesWithin (h : DeclaresDefault subject program inner)
    (hanchored : inner.Anchored subject.source)
    (hclear : ¬ "class".toList <:+: dropBytes (classNameOffset subject inner) subject.source) :
    ∃ tokens span offset, NamesWithin subject program tokens span offset := by
  cases h with
  | function hform hhead hnamed => exact ⟨_, _, _, hnamed⟩
  | definition hform hhead hword hnamed => exact ⟨_, _, _, hnamed⟩
  | @overlooked _ _ keyword _ _ _ hform hhead hword hleft =>
    obtain ⟨-, hbefore, -⟩ := classNameOffset_cases hhead hanchored
    obtain ⟨tail, hdrop, -⟩ := (hhead.precedes.stands hhead.stands).word_starts hhead.word
    have hkeyword : "class".toList <:+: dropBytes keyword.span.start subject.source := by
      rw [hdrop]
      exact (List.prefix_append _ _).isInfix
    exact absurd (hkeyword.trans (dropBytes_suffix (hbefore hword) _).isInfix) hclear

/-! ### Getters -/

/-- The items of a list are written one by one. -/
theorem infix_commaSeparated {items : List (List Char)} {item : List Char} (hitem : item ∈ items) :
    item <:+: commaSeparated items := by
  unfold commaSeparated
  induction items with
  | nil => cases hitem
  | cons first items ih =>
    cases items with
    | nil =>
      obtain rfl := List.mem_singleton.mp hitem
      rw [List.intercalate_singleton]
    | cons second items =>
      rw [List.intercalate_cons_cons]
      rcases List.mem_cons.mp hitem with rfl | hitem
      · rw [List.append_assoc]
        exact (List.prefix_append _ _).isInfix
      · exact (ih hitem).trans (List.suffix_append _ _).isInfix

/-- The getters of a registration are written in its call. -/
theorem infix_exportCall (reference : String) (getters : List (List Char)) (constant : Bool) :
    commaSeparated getters <:+: exportCall reference getters constant := by
  have hbraces : commaSeparated getters <:+: braced (commaSeparated getters) :=
    ⟨['\x7b'], ['\x7d'], by simp [braced]⟩
  have hcall (operation : String) (arguments : List (List Char)) :
      commaSeparated arguments <:+: callOf reference operation arguments :=
    ⟨reference.toList ++ '.' :: operation.toList ++ ['('], [')'], by simp [callOf]⟩
  exact (hbraces.trans (infix_commaSeparated List.mem_cons_self)).trans (hcall "export" _)

/-- An exported variable is read by a getter in the statement that registers it. -/
theorem infix_exportStatement (reference : String) {exports : List Export} {item : Export}
    (hitem : item ∈ exports) (constant : Bool) :
    getter item.exported item.localName <:+: exportStatement reference exports constant := by
  have hgetter : getter item.exported item.localName ∈
      exports.map fun item => getter item.exported item.localName := List.mem_map.mpr ⟨item, hitem, rfl⟩
  unfold exportStatement
  rw [if_neg (by simpa using List.ne_nil_of_mem hitem)]
  exact ((infix_commaSeparated hgetter).trans (infix_exportCall reference _ constant)).trans
    (List.prefix_append _ _).isInfix

/-- What a program registers is read by getters in the generated code. -/
theorem infix_generatedCode {item : Export} (hitem : item ∈ programExports subject program) :
    getter item.exported item.localName <:+: generatedCode subject program := by
  rw [generatedCode_eq]
  rcases List.mem_append.mp ((perm_liveExports subject program).mem_iff.mpr hitem) with hitem | hitem
  · exact (infix_exportStatement _ hitem false).trans (List.prefix_append _ _).isInfix
  · exact (infix_exportStatement _ hitem true).trans (List.infix_append' _ _ _)

/-! ### The hoisted code is rendered -/

/-- No edit of a program reaches over the end of its last directive. -/
theorem isBeside_of_lastDirective? {markers : Bool} {directive : Node} (hprogram : program.form = .program)
    (hordered : program.Ordered subject.source markers) (hanchored : program.Anchored subject.source)
    (hlast : lastDirective? program = some directive) {edit : Edit}
    (hedit : edit ∈ loweringEdits subject program) :
    edit.span.stop ≤ directive.span.stop ∨ directive.span.stop ≤ edit.span.start := by
  obtain ⟨hmem, hform⟩ := directive_of_lastDirective? hlast
  have hdirective := hordered.part hmem
  have hoccurs : directive.Occurs program := .inside (by simp [hprogram]) hmem .self
  have hvacant : Vacant subject directive directive.span.stop directive.span.stop := by
    refine ⟨by rw [hform]; rfl, hdirective.start_le_stop, Nat.le_refl _, Nat.le_refl _,
      fun _ part hpart => .inl (.inl (hdirective.stop_le hpart)), fun span hown => ?_⟩
    have hedited := hown.isEdited
    rw [hform] at hedited
    cases hedited
  refine (isBeside_of_mem_loweringEdits (by simp [hprogram]) hordered hanchored hoccurs hvacant
    hedit).resolve_right ?_
  rintro ⟨_, -, -, _, hplace, -⟩
  cases hplace with
  | function hother | definition hother => cases hform.symm.trans hother

/-- The generated code of an ordered program is rendered. -/
theorem exists_hoisted (h : IsDefault subject program outer inner)
    (hcode : generatedCode subject program ≠ []) : ∃ offset separator,
      PutAt subject.source program offset separator ∧
        .hoisting offset (separator ++ generatedCode subject program) ∈
          ((ofSource subject.source).recordAll (loweringEdits subject program)).kept := by
  obtain ⟨offset, separator, hput, hahead⟩ :=
    putAhead_generatedCode h.reference h.anchored hcode
  refine ⟨offset, separator, hput, hahead.rendered fun edit hedit hlt => ?_⟩
  have hside {directive : Node} (hlast : lastDirective? program = some directive)
      (hlt : edit.span.start < directive.span.stop) : edit.span.stop ≤ directive.span.stop :=
    (isBeside_of_lastDirective? h.whole h.ordered h.anchored hlast hedit).resolve_right
      (Nat.not_le.mpr hlt)
  cases hput with
  | start hnone => exact absurd hlt (Nat.not_lt_zero _)
  | closed hlast hends => exact hside hlast hlt
  | unclosed hlast hlacks => exact hside hlast hlt

/-! ### Default declarations -/

/-- What becomes of a function or class without a name that is exported as the default. -/
structure NamesDefault (subject : Subject) (program inner : Node) (code : List Char) : Prop where
  /-- The lowered text is what the edits of the program make of the source. -/
  lowered : code = ((ofSource subject.source).recordAll (loweringEdits subject program)).render
  /-- The default export is registered under the generated name. -/
  registered : ⟨"default", String.ofList (defaultName subject)⟩ ∈ programExports subject program
  /-- A getter in the generated code returns what has that name, and the code is rendered. -/
  read : getter "default" (String.ofList (defaultName subject)) <:+: generatedCode subject program
  hoisted : ∃ offset separator, PutAt subject.source program offset separator ∧
    .hoisting offset (separator ++ generatedCode subject program) ∈
      ((ofSource subject.source).recordAll (loweringEdits subject program)).kept
  /-- The function or class is declared under that name. -/
  declared : DeclaresDefault subject program inner

theorem namesDefault_of_isDefault (h : IsDefault subject program outer inner) {ambient : Bool}
    (hinner : inner.form = .function .declaration ambient ∨
      inner.form = .classDefinition .declaration ambient) (hname : inner.ownName? = none) :
    NamesDefault subject program inner
      ((ofSource subject.source).recordAll (loweringEdits subject program)).render := by
  have hregistered : ⟨"default", String.ofList (defaultName subject)⟩ ∈ programExports subject program := by
    obtain ⟨inside, hstands⟩ := exists_stands_of_occurs h.occurs false
    exact mem_programExports_iff.mpr ⟨outer, inside, hstands, fun _ => h.form,
      .anonymousDefault h.form h.parts hinner hname⟩
  have hread := infix_generatedCode hregistered
  refine ⟨rfl, hregistered, hread, exists_hoisted h fun hnil => ?_,
    declaresDefault_of_isDefault h hinner hname⟩
  rw [hnil, List.infix_nil] at hread
  simp [getter] at hread

end ModuleLinkage.Lowering

namespace ModuleLinkage

open Syntax Text Lowering EditList

variable {options : CompileOptions}

/-- **Default declarations.** A text that is read as a module is compiled, and each function or class
without a name that it exports as the default is declared under the name that the getter reads, unless
it is a class whose keyword is overlooked. -/
theorem names_default (hvalid : options.validate = .ok ()) {source : List Char}
    (hwants : options.wantsModule (withoutInterpreterLine source) = true) {program : Node}
    (hparse : parse (options.settings true) (withoutInterpreterLine source) = .ok program)
    {outer inner : Node} (houter : outer.Occurs program) (hform : outer.form = .exportDefault)
    (hparts : outer.parts = [inner]) {ambient : Bool}
    (hinner : inner.form = .function .declaration ambient ∨
      inner.form = .classDefinition .declaration ambient) (hname : inner.ownName? = none) :
    ∃ code, compile options source = .ok ⟨code, .module⟩ ∧
      NamesDefault ⟨withoutInterpreterLine source, options.referenceIn (withoutInterpreterLine source)⟩
        program inner code := by
  set text := withoutInterpreterLine source
  have hdefault : IsDefault ⟨text, options.referenceIn text⟩ program outer inner :=
    ⟨isPlainIdentifier_referenceIn hvalid text, (isSound_of_parse hparse).1, ordered_of_parse hparse,
      anchored_of_parse hparse, houter, hform, hparts⟩
  have hnamed := namesDefault_of_isDefault hdefault hinner hname
  refine ⟨_, ?_, hnamed⟩
  obtain ⟨offset, separator, -, hkept⟩ := hnamed.hoisted
  have hedits : loweringEdits ⟨text, options.referenceIn text⟩ program ≠ [] :=
    List.ne_nil_of_mem (mem_of_mem_kept hkept)
  rw [compile_of_validate hvalid]
  change compileText options text = _
  unfold compileText
  rw [if_pos hwants, hparse]
  dsimp only
  change Except.ok (CompileOutput.mk _ (if (loweringEdits ⟨text, options.referenceIn text⟩ program).isEmpty &&
    options.isUnambiguous then _ else _)) = _
  rw [if_neg (by simp [hedits])]
  rfl

/-- A program that is read from a text in which a function or class without a name is the default
export, and what it is compiled to: this is declared under the generated name. -/
structure DeclaresNameless (options : CompileOptions) (source output : List Char) (form : Form)
    (program outer inner : Node) : Prop where
  parsed : parse (options.settings true) (withoutInterpreterLine source) = .ok program
  occurs : outer.Occurs program
  exported : outer.form = .exportDefault
  parts : outer.parts = [inner]
  form : inner.form = form
  nameless : inner.ownName? = none
  compiled : compile options source = .ok ⟨output, .module⟩
  names : NamesDefault
    ⟨withoutInterpreterLine source, options.referenceIn (withoutInterpreterLine source)⟩ program inner output
  named : ∃ tokens span offset, NamesWithin
    ⟨withoutInterpreterLine source, options.referenceIn (withoutInterpreterLine source)⟩ program tokens
      span offset

/-- Whether a form is that of a function that is declared. -/
def isFunction : Form → Bool
  | .function .declaration false => true
  | _ => false

/-- Whether a form is that of a class that is declared. -/
def isClass : Form → Bool
  | .classDefinition .declaration false => true
  | _ => false

theorem eq_of_isFunction {form : Form} (h : isFunction form = true) :
    form = .function .declaration false := by
  unfold isFunction at h
  split at h
  · rfl
  · cases h

theorem eq_of_isClass {form : Form} (h : isClass form = true) :
    form = .classDefinition .declaration false := by
  unfold isClass at h
  split at h
  · rfl
  · cases h

/-- Whether a statement has something of certain forms, without a name, as the default export, and the
word `class` does not stand behind the place of the name. -/
def exportsNameless (subject : Subject) (test : Form → Bool) (outer : Node) : Bool :=
  match outer.form, outer.parts with
  | .exportDefault, [inner] => test inner.form && inner.ownName?.isNone &&
      !decide ("class".toList <:+: dropBytes (classNameOffset subject inner) subject.source)
  | _, _ => false

theorem exists_of_exportsNameless {subject : Subject} {test : Form → Bool} {outer : Node}
    (h : exportsNameless subject test outer = true) :
    outer.form = .exportDefault ∧ ∃ inner, outer.parts = [inner] ∧ test inner.form = true ∧
      inner.ownName? = none ∧
        ¬ "class".toList <:+: dropBytes (classNameOffset subject inner) subject.source := by
  unfold exportsNameless at h
  split at h
  · next inner hform hparts =>
    simp only [Bool.and_eq_true, Option.isNone_iff_eq_none, Bool.not_eq_true',
      decide_eq_false_iff_not] at h
    exact ⟨hform, inner, hparts, h.1.1, h.1.2, h.2⟩
  · cases h

/-- A program that is found to have such an export. -/
theorem exists_nameless {options : CompileOptions} {source : List Char} {subject : Subject}
    {test : Form → Bool}
    (h : ((parse (options.settings true) (withoutInterpreterLine source)).toOption.any fun program =>
      program.parts.any (exportsNameless subject test)) = true) :
    ∃ program outer inner : Node,
      parse (options.settings true) (withoutInterpreterLine source) = .ok program ∧
      outer.Occurs program ∧ outer.form = .exportDefault ∧ outer.parts = [inner] ∧
      test inner.form = true ∧ inner.ownName? = none ∧
        ¬ "class".toList <:+: dropBytes (classNameOffset subject inner) subject.source := by
  obtain ⟨program, hparse, hany⟩ := exists_of_any h
  obtain ⟨outer, hmem, hexports⟩ := List.any_eq_true.mp hany
  obtain ⟨hdefault, inner, hrest⟩ := exists_of_exportsNameless hexports
  exact ⟨program, outer, inner, hparse, .inside (by simp [(isSound_of_parse hparse).1]) hmem .self,
    hdefault, hrest⟩

/-- What is compiled to a text is told by it. -/
theorem declaresNameless_of_names {options : CompileOptions} {source output : List Char} {form : Form}
    {program outer inner : Node}
    (hparse : parse (options.settings true) (withoutInterpreterLine source) = .ok program)
    (houter : outer.Occurs program) (hdefault : outer.form = .exportDefault)
    (hparts : outer.parts = [inner]) (hform : inner.form = form) (hname : inner.ownName? = none)
    (hclear : ¬ "class".toList <:+: dropBytes (classNameOffset
      ⟨withoutInterpreterLine source, options.referenceIn (withoutInterpreterLine source)⟩ inner)
        (withoutInterpreterLine source))
    (hcompile : compile options source = .ok ⟨output, .module⟩)
    (hnames : ∃ code, compile options source = .ok ⟨code, .module⟩ ∧ NamesDefault
      ⟨withoutInterpreterLine source, options.referenceIn (withoutInterpreterLine source)⟩ program inner
        code) :
    DeclaresNameless options source output form program outer inner := by
  obtain ⟨code, hcode, hnames⟩ := hnames
  obtain rfl : code = output :=
    (CompileOutput.mk.inj (Except.ok.inj (hcode.symm.trans hcompile))).1
  have hanchored := (houter.anchored (anchored_of_parse hparse)).parts inner
    (hparts ▸ List.mem_singleton_self inner)
  exact ⟨hparse, houter, hdefault, hparts, hform, hname, hcompile, hnames,
    hnames.declared.exists_namesWithin hanchored hclear⟩

/-- A module whose default export is a generator with type parameters, with comments between all its
words. -/
def namelessGenerator : List Char :=
  "export default async /* a */ function /* b */ * /* c */ <T> (x: T) {}".toList

/-- The generator gets the name that the getter returns. -/
def namelessGeneratorOutput : List Char :=
  ("module.export({default:()=>moduleDefault});async /* a */ function /* b */ * /* c */ " ++
    "moduleDefault<T> (x: T) {}").toList

/-- A module whose default export is a decorated class, with comments between all its words. -/
def decoratedClass : List Char :=
  "@dec /* a */ export default /* b */ abstract /* c */ class /* d */ extends B {}".toList

/-- The class gets the name that the getter returns. -/
def decoratedClassOutput : List Char :=
  ("module.export({default:()=>moduleDefault});@dec /* a */ " ++
    "abstract /* c */ class moduleDefault /* d */ extends B {}").toList

/-- The options for text with types. -/
def typed : CompileOptions :=
  { typescript := true }

/-- The result for a function and for a class, with much between their words. -/
theorem names_default_severalForms :
    (∃ program outer inner, DeclaresNameless typed namelessGenerator
      namelessGeneratorOutput (.function .declaration false) program outer inner) ∧
    ∃ program outer inner, DeclaresNameless typed decoratedClass decoratedClassOutput
      (.classDefinition .declaration false) program outer inner := by
  constructor
  · have hprogram : ((parse (typed.settings true) (withoutInterpreterLine namelessGenerator)).toOption.any
        fun program => program.parts.any (exportsNameless
          ⟨withoutInterpreterLine namelessGenerator,
            typed.referenceIn (withoutInterpreterLine namelessGenerator)⟩ isFunction)) = true := by
      decide +kernel
    have hwants : typed.wantsModule (withoutInterpreterLine namelessGenerator) = true := by
      decide +kernel
    have houtput : compile typed namelessGenerator = .ok ⟨namelessGeneratorOutput, .module⟩ := by
      unfold compile compileText lowerModule
      simp only [EditList.render_recordAll_ofSource]
      decide +kernel
    obtain ⟨program, outer, inner, hparse, houter, hdefault, hparts, hform, hname, hclear⟩ :=
      exists_nameless hprogram
    exact ⟨program, outer, inner, declaresNameless_of_names hparse houter hdefault hparts
      (eq_of_isFunction hform) hname hclear houtput
      (names_default rfl hwants hparse houter hdefault hparts (.inl (eq_of_isFunction hform)) hname)⟩
  · have hprogram : ((parse (typed.settings true) (withoutInterpreterLine decoratedClass)).toOption.any
        fun program => program.parts.any (exportsNameless
          ⟨withoutInterpreterLine decoratedClass,
            typed.referenceIn (withoutInterpreterLine decoratedClass)⟩ isClass)) = true := by
      decide +kernel
    have hwants : typed.wantsModule (withoutInterpreterLine decoratedClass) = true := by
      decide +kernel
    have houtput : compile typed decoratedClass = .ok ⟨decoratedClassOutput, .module⟩ := by
      unfold compile compileText lowerModule
      simp only [EditList.render_recordAll_ofSource]
      decide +kernel
    obtain ⟨program, outer, inner, hparse, houter, hdefault, hparts, hform, hname, hclear⟩ :=
      exists_nameless hprogram
    exact ⟨program, outer, inner, declaresNameless_of_names hparse houter hdefault hparts
      (eq_of_isClass hform) hname hclear houtput
      (names_default rfl hwants hparse houter hdefault hparts (.inr (eq_of_isClass hform)) hname)⟩

/-! ### Overlooked keywords -/

/-- A module whose default export is a class without a name, with the word `class` in a comment behind
its decorator. -/
def commentedClass : List Char :=
  "export default @dec /* class */ class \x7b\x7d".toList

/-- The name is put into the comment, so the getter reads a variable that does not exist. -/
theorem commentedClass_unnamed : compile {} commentedClass = .ok
    ⟨"module.export(\x7bdefault:()=>moduleDefault\x7d);@dec /* class moduleDefault */ class \x7b\x7d".toList,
      .module⟩ := by
  unfold compile compileText lowerModule
  simp only [EditList.render_recordAll_ofSource]
  decide +kernel

end ModuleLinkage
