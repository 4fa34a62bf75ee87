import ModuleLinkage.Proofs.Lowering.Hygiene
import ModuleLinkage.Proofs.Lowering.Wrapping
import ModuleLinkage.Proofs.Syntax.Anchoring.Tree
import ModuleLinkage.Proofs.Text.Lines

/-!
# What holds of generated code for the names in it

Generated code is words, names and literals with marks between them. A property of texts that composes
across marks (`Composes`) holds of the whole line if it holds of the names and literals that are taken
over from the source (`Composes.hoistedCode`). Thus the code holds no line break, whatever the specifiers
and exported names are written with (`lineBreaks_hoistedCode`): specifiers are quoted, exported names
are keys of properties, and only the names of variables stand in the code as they are.
-/

set_option autoImplicit false

namespace ModuleLinkage.Lowering

open Syntax Text Unicode

/-! ### Names and literals -/

/-- Whether a name is written without a line break. -/
def IsOneLine (name : String) : Prop :=
  Edit.lineBreaks name.toList = []

@[simp] theorem lineBreaks_cons (c : Char) (text : List Char) : Edit.lineBreaks (c :: text) =
    if c = '\n' ∨ c = '\r' then c :: Edit.lineBreaks text else Edit.lineBreaks text := by
  simp [Edit.lineBreaks, List.filter_cons]

/-- Neither line break is among characters of a kind that they do not belong to. -/
theorem lineBreaks_of_forall {kind : Char → Bool} (hfeed : kind '\n' = false)
    (hreturn : kind '\r' = false) {text : List Char} (h : ∀ c ∈ text, kind c = true) :
    Edit.lineBreaks text = [] := by
  refine lineBreaks_eq_nil_iff.mpr ⟨fun hmem => ?_, fun hmem => ?_⟩
  · exact Bool.false_ne_true (hfeed.symm.trans (h _ hmem))
  · exact Bool.false_ne_true (hreturn.symm.trans (h _ hmem))

theorem lineBreaks_of_isPlainIdentifier {name : List Char} (h : isPlainIdentifier name = true) :
    Edit.lineBreaks name = [] := by
  obtain ⟨c, chars, rfl, hstart, hchars⟩ := exists_of_isPlainIdentifier h
  refine @lineBreaks_of_forall isPlainPart (by decide) (by decide) _ fun d hd => ?_
  rcases List.mem_cons.mp hd with rfl | hd
  · rw [isPlainPart, hstart, Bool.true_or]
  · exact List.all_eq_true.mp hchars d hd

theorem isOneLine_of_isPlainIdentifier {name : String} (h : isPlainIdentifier name.toList = true) :
    IsOneLine name :=
  lineBreaks_of_isPlainIdentifier h

theorem isOneLine_of_isIdentifier {name : String} (h : isIdentifier name.toList = true) :
    IsOneLine name := by
  have hpart : ∀ c ∈ name.toList, isIdentifierPart c = true := by
    cases hchars : name.toList with
    | nil => exact fun _ hmem => absurd hmem List.not_mem_nil
    | cons c chars =>
      rw [hchars] at h
      obtain ⟨hstart, hparts⟩ := Bool.and_eq_true_iff.mp h
      exact List.forall_mem_cons.mpr
        ⟨isIdentifierPart_of_isIdentifierStart hstart, List.all_eq_true.mp hparts⟩
  exact lineBreaks_of_forall (by decide) (by decide) hpart

theorem lineBreaks_escapeChar (c : Char) : Edit.lineBreaks (escapeChar c) = [] := by
  by_cases hcontrol : c < ' '
  · have hlt : c.toNat < 32 := hcontrol
    have hall : ∀ code < 32, Edit.lineBreaks (escapeChar (Char.ofNat code)) = [] := by decide
    simpa [Char.ofNat_toNat] using hall c.toNat hlt
  · have hfeed : c ≠ '\n' := by
      rintro rfl
      exact hcontrol (by decide)
    have hreturn : c ≠ '\r' := by
      rintro rfl
      exact hcontrol (by decide)
    unfold escapeChar
    simp only [beq_iff_eq, hfeed, hreturn, if_false, hcontrol]
    repeat' split
    all_goals simp [hfeed, hreturn]

/-- A string literal is written on one line, whatever it denotes. -/
@[simp] theorem lineBreaks_quote (text : List Char) : Edit.lineBreaks (quote text) = [] := by
  have hinside : Edit.lineBreaks (text.flatMap escapeChar) = [] := by
    induction text with
    | nil => rfl
    | cons c text ih => rw [List.flatMap_cons, lineBreaks_append, lineBreaks_escapeChar, ih]; rfl
  simp [quote, hinside]

/-- So is the key of a property. -/
@[simp] theorem lineBreaks_propertyKey (name : List Char) :
    Edit.lineBreaks (Text.propertyKey name) = [] := by
  unfold Text.propertyKey
  split
  · next hplain => exact lineBreaks_of_isPlainIdentifier hplain
  · exact lineBreaks_quote name

/-! ### Properties that compose -/

/-- The characters that stand between the words of generated code. -/
def codeMarks : List Char :=
  [' ', '.', ',', ';', ':', '(', ')', '[', ']', '\x7b', '\x7d', '=', '>', '!', '&', '"', '*']

/-- Whether a text is letters of words, and does not begin as `import` and `export` do. -/
def beginsOtherwise (text : List Char) : Bool :=
  text.all isWordCharacter && text.head?.all fun c => c != 'i' && c != 'e'

theorem forall_of_beginsOtherwise {text : List Char} (h : beginsOtherwise text = true) :
    ∀ c ∈ text, isWordCharacter c = true := by
  rw [beginsOtherwise, Bool.and_eq_true] at h
  exact List.all_eq_true.mp h.1

theorem beginsOtherwise_append {first second : List Char} (hfirst : beginsOtherwise first = true)
    (hfull : first ≠ []) (hsecond : ∀ c ∈ second, isWordCharacter c = true) :
    beginsOtherwise (first ++ second) = true := by
  rw [beginsOtherwise, List.all_append, List.head?_append_of_ne_nil _ hfull,
    List.all_eq_true.mpr hsecond, Bool.and_true]
  exact hfirst

/-- A property of texts that code has for its names: of words it holds unless they begin as `import` and
`export` do, and it holds of what is put together around a mark, or in a call. -/
structure Composes (P : List Char → Prop) : Prop where
  word {text : List Char} (htext : beginsOtherwise text = true) : P text
  mark {first rest : List Char} {c : Char} (hc : c ∈ codeMarks) (hfirst : P first) (hrest : P rest) :
    P (first ++ c :: rest)
  call {first operation rest : List Char} (hletters : operation.all isWordCharacter = true)
    (hfirst : P first) (hrest : P rest) : P (first ++ '.' :: (operation ++ '(' :: rest))

/-- Whether a text is statements of which a property holds, each with its semicolon. -/
inductive Ended (P : List Char → Prop) : List Char → Prop
  | nothing : Ended P []
  | statement {body rest : List Char} (hbody : P body) (hrest : Ended P rest) :
      Ended P (body ++ ';' :: rest)

namespace Ended

variable {P : List Char → Prop} {first second : List Char}

theorem append (hfirst : Ended P first) (hsecond : Ended P second) : Ended P (first ++ second) := by
  induction hfirst with
  | nothing => exact hsecond
  | statement hbody hrest ih =>
    rw [List.append_assoc, List.cons_append]
    exact .statement hbody ih

theorem single {body : List Char} (hbody : P body) : Ended P (body ++ [';']) :=
  .statement hbody .nothing

theorem flatMap {α : Type} {items : List α} {text : α → List Char}
    (h : ∀ item ∈ items, Ended P (text item)) : Ended P (items.flatMap text) := by
  induction items with
  | nil => exact .nothing
  | cons item rest ih =>
    obtain ⟨hitem, hrest⟩ := List.forall_mem_cons.mp h
    exact hitem.append (ih hrest)

end Ended

namespace Composes

variable {P : List Char → Prop} (h : Composes P)

include h

theorem nil : P [] :=
  h.word rfl

/-- Marks may stand in front. -/
theorem marks (text : List Char) {rest : List Char} (htext : text.all codeMarks.contains = true)
    (hrest : P rest) : P (text ++ rest) := by
  induction text with
  | nil => exact hrest
  | cons c text ih =>
    rw [List.all_cons, Bool.and_eq_true, List.contains_iff_mem] at htext
    exact h.mark htext.1 h.nil (ih htext.2)

theorem ended {text : List Char} (htext : Ended P text) : P text := by
  induction htext with
  | nothing => exact h.nil
  | statement hbody hrest ih => exact h.mark (by decide) hbody ih

theorem holds_intercalate {c : Char} (hc : c ∈ codeMarks) {items : List (List Char)}
    (hitems : ∀ item ∈ items, P item) : P (List.intercalate [c] items) := by
  induction items with
  | nil => exact h.nil
  | cons item rest ih =>
    obtain ⟨hitem, hrest⟩ := List.forall_mem_cons.mp hitems
    cases rest with
    | nil => simpa [List.intercalate] using hitem
    | cons next others =>
      rw [List.intercalate_cons_cons, List.append_assoc]
      exact h.mark hc hitem (ih hrest)

theorem holds_commaSeparated {items : List (List Char)} (hitems : ∀ item ∈ items, P item) :
    P (commaSeparated items) :=
  h.holds_intercalate (by decide) hitems

theorem holds_semicolonSeparated {items : List (List Char)} (hitems : ∀ item ∈ items, P item) :
    P (semicolonSeparated items) :=
  h.holds_intercalate (by decide) hitems

theorem holds_braced {text : List Char} (htext : P text) : P (braced text) :=
  h.mark (by decide) h.nil (h.mark (by decide) htext h.nil)

end Composes

/-! ### Names and callbacks -/

theorem isWordCharacter_of_isAsciiDigit {c : Char} (hc : isAsciiDigit c = true) :
    isWordCharacter c = true := by
  have hdigit := isAsciiDigit_iff.mp hc
  have hlt : c.toNat < 128 := by omega
  simp [isWordCharacter, hlt, hc]

/-- The texts that the registration of an export takes over: the exported name as a key, and the
variable. -/
def Export.texts (item : Export) : List (List Char) :=
  [Text.propertyKey item.exported.toList, item.localName.toList]

/-- The texts that what becomes of the exports of a module takes over: names as keys, and variables. -/
def RequestUse.texts : RequestUse → List (List Char)
  | .bindings names namespaces =>
    names.flatMap (fun pair => [Text.propertyKey pair.1.toList, pair.2.toList]) ++
      namespaces.map String.toList
  | .reExport names =>
    names.flatMap fun pair => [Text.propertyKey pair.1.toList, Text.propertyKey pair.2.toList]
  | .reExportAll => []
  | .reExportNamespace exported => [Text.propertyKey exported.toList]

/-- The texts that a request takes over: the specifier as a literal, names as keys, and variables. -/
def Request.texts (request : Request) : List (List Char) :=
  quote request.specifier.toList :: request.use.texts

namespace Composes

variable {P : List Char → Prop} (h : Composes P)

include h

theorem holds_freshName (base : String) (hbase : base ∈ ["v", "n", "o"]) (taken : List String) :
    P (freshName base taken).toList := by
  obtain ⟨count, hname, -⟩ := (firstFree_freshName base taken).first
  have hbases : (["v", "n", "o"].all fun base =>
      beginsOtherwise base.toList && !base.toList.isEmpty) = true := by decide
  have hletters := List.all_eq_true.mp hbases base hbase
  rw [Bool.and_eq_true, Bool.not_eq_true', List.isEmpty_eq_false_iff] at hletters
  rw [hname, underscored, String.toList_append, String.toList_ofList]
  refine h.word (beginsOtherwise_append hletters.1 hletters.2 fun c hc => ?_)
  rw [List.eq_of_mem_replicate hc]
  decide

theorem holds_toDigits (number : Nat) : P (Nat.toDigits 10 number) := by
  have hdecimal (c : Char) (hc : c ∈ Nat.toDigits 10 number) : isAsciiDigit c = true :=
    Nat.isDigit_of_mem_toDigits (by decide) (by decide) hc
  refine h.word ?_
  cases hdigits : Nat.toDigits 10 number with
  | nil => rfl
  | cons c rest =>
    rw [hdigits] at hdecimal
    have hletters := List.all_eq_true.mpr fun c hc => isWordCharacter_of_isAsciiDigit (hdecimal c hc)
    have hdigit := hdecimal c List.mem_cons_self
    rw [beginsOtherwise, hletters, Bool.true_and, List.head?_cons, Option.all_some, Bool.and_eq_true,
      bne_iff_ne, bne_iff_ne]
    constructor
    · rintro rfl
      exact absurd hdigit (by decide)
    · rintro rfl
      exact absurd hdigit (by decide)

theorem holds_wildcardKey : P wildcardKey :=
  h.marks ['"', '*', '"'] (by decide) h.nil

theorem holds_getter {exported result : String} (hkey : P (Text.propertyKey exported.toList))
    (hresult : P result.toList) : P (getter exported result) := by
  rw [getter, List.append_assoc]
  exact h.mark (by decide) hkey (h.marks "()=>".toList (by decide) hresult)

theorem holds_setter {key body : List Char} {parameters : List String} (hkey : P key)
    (hparameters : ∀ name ∈ parameters, P name.toList) (hbody : P body) :
    P (setter key parameters body) := by
  have hlist := h.holds_commaSeparated (List.forall_mem_map.mpr hparameters)
  have hcallback := h.mark (c := '(') (by decide) hkey
    (h.mark (c := ')') (by decide) hlist (h.holds_braced hbody))
  simpa [setter] using hcallback

theorem holds_memberAssignment {object name value : String} (hobject : P object.toList)
    (hname : P name.toList) (hvalue : P value.toList) : P (memberAssignment object name value) := by
  have hassignment := h.mark (c := '[') (by decide) hobject
    (h.mark (c := ']') (by decide) hname (h.mark (c := '=') (by decide) h.nil hvalue))
  simpa [memberAssignment] using hassignment

/-- The call that makes an object without members. -/
theorem holds_creation {rest : List Char} (hrest : P rest) :
    P ("Object.create(null)".toList ++ rest) := by
  have hobject : P "Object".toList := h.word (by decide)
  have hnull : P "null".toList := h.word (by decide)
  change P ("Object".toList ++ '.' :: ("create".toList ++ '(' :: ("null".toList ++ ')' :: rest)))
  exact h.call (by decide) hobject (h.mark (by decide) hnull hrest)

section Calls

variable {reference : String} (hreference : P reference.toList)

include hreference

theorem holds_callOf {operation : String} {arguments : List (List Char)}
    (hletters : operation.toList.all isWordCharacter = true)
    (harguments : ∀ argument ∈ arguments, P argument) : P (callOf reference operation arguments) := by
  have hcall := h.call hletters hreference
    (h.mark (c := ')') (by decide) (h.holds_commaSeparated harguments) h.nil)
  simpa [callOf] using hcall

theorem holds_exportCall {getters : List (List Char)} (hgetters : ∀ getter ∈ getters, P getter)
    (constant : Bool) : P (exportCall reference getters constant) := by
  refine h.holds_callOf hreference (by decide) (List.forall_mem_cons.mpr
    ⟨h.holds_braced (h.holds_commaSeparated hgetters), ?_⟩)
  split
  · exact List.forall_mem_singleton.mpr (h.word (by decide))
  · exact List.forall_mem_nil _

theorem holds_requestCall {setters : List (List Char)} {namespaces : List String}
    (hsetters : ∀ setter ∈ setters, P setter) (hnamespaces : ∀ name ∈ namespaces, P name.toList)
    {specifier : String} (hspecifier : P (quote specifier.toList)) (offset : Nat) :
    P (requestCall reference specifier setters offset namespaces) := by
  have hlist := h.holds_commaSeparated (List.forall_mem_map.mpr hnamespaces)
  refine h.holds_callOf hreference (by decide) (List.forall_mem_append.mpr
    ⟨List.forall_mem_cons.mpr ⟨hspecifier, List.forall_mem_cons.mpr
      ⟨h.holds_braced (h.holds_commaSeparated hsetters),
        List.forall_mem_singleton.mpr (h.holds_toDigits offset)⟩⟩, ?_⟩)
  split
  · exact List.forall_mem_nil _
  · exact List.forall_mem_singleton.mpr
      (h.mark (by decide) (h.mark (by decide) h.nil hlist) h.nil)

theorem holds_importAssignment {exported : List String} {value target : String}
    (hvalue : P value.toList) (htarget : P target.toList) :
    P (importAssignment ⟨reference, exported⟩ value target) := by
  have hassignment : P (target.toList ++ '=' :: value.toList) := h.mark (by decide) htarget hvalue
  unfold importAssignment
  dsimp only
  split
  · exact h.holds_callOf hreference (by decide) (List.forall_mem_singleton.mpr hassignment)
  · exact hassignment

/-! ### Requests -/

theorem holds_bindingsCall {exported : List String} {specifier : String} {names : List (String × String)}
    {namespaces : List String} (hspecifier : P (quote specifier.toList))
    (htexts : ∀ text ∈ (RequestUse.bindings names namespaces).texts, P text) (offset : Nat) :
    P (bindingsCall ⟨reference, exported⟩ specifier offset names namespaces) := by
  rw [RequestUse.texts, List.forall_mem_append, List.forall_mem_map] at htexts
  obtain ⟨hnames, hnamespaces⟩ := htexts
  have hpair {imported target : String} (hpair : (imported, target) ∈ names) :
      P (Text.propertyKey imported.toList) ∧ P target.toList := by
    simpa using List.forall_mem_flatMap.mp hnames _ hpair
  unfold bindingsCall
  dsimp only
  split
  · exact h.holds_callOf hreference (by decide) (List.forall_mem_singleton.mpr hspecifier)
  have hvalue := h.holds_freshName "v" (by decide)
    (names.map (·.2) ++ namespaces ++ [reference])
  have hname := h.holds_freshName "n" (by decide)
    (names.map (·.2) ++ namespaces ++ [reference])
  refine h.holds_requestCall hreference (List.forall_mem_append.mpr ⟨List.forall_mem_map.mpr ?_, ?_⟩)
    hnamespaces hspecifier offset
  · rintro ⟨imported, targets⟩ hgroup
    obtain ⟨rfl, hfull⟩ := ((groupsOf_groupByFirst names).mem imported targets).mp hgroup
    obtain ⟨target, htarget⟩ := List.exists_mem_of_ne_nil _ hfull
    refine h.holds_setter (hpair (mem_targetsOf.mp htarget)).1 (List.forall_mem_singleton.mpr hvalue) ?_
    refine h.holds_semicolonSeparated (List.forall_mem_map.mpr fun other hother => ?_)
    exact h.holds_importAssignment hreference hvalue (hpair (mem_targetsOf.mp hother)).2
  · split
    · exact List.forall_mem_nil _
    · refine List.forall_mem_singleton.mpr (h.holds_setter h.holds_wildcardKey ?_ ?_)
      · exact List.forall_mem_cons.mpr ⟨hvalue, List.forall_mem_singleton.mpr hname⟩
      · refine h.holds_semicolonSeparated (List.forall_mem_map.mpr fun object hobject => ?_)
        exact h.holds_memberAssignment (hnamespaces object hobject) hname hvalue

theorem holds_reExportCall {specifier : String} {names : List (String × String)}
    (hspecifier : P (quote specifier.toList)) (htexts : ∀ text ∈ (RequestUse.reExport names).texts, P text)
    (offset : Nat) : P (reExportCall reference specifier offset names) := by
  have hpair {imported exported : String} (hpair : (imported, exported) ∈ names) :
      P (Text.propertyKey imported.toList) ∧ P (Text.propertyKey exported.toList) := by
    simpa using List.forall_mem_flatMap.mp htexts _ hpair
  have hvalue := h.holds_freshName "v" (by decide) [reference]
  refine h.holds_requestCall hreference (List.forall_mem_map.mpr ?_) (List.forall_mem_nil _) hspecifier
    offset
  rintro ⟨imported, exported⟩ hgroup
  obtain ⟨rfl, hfull⟩ := ((groupsOf_groupByFirst names).mem imported exported).mp hgroup
  obtain ⟨target, htarget⟩ := List.exists_mem_of_ne_nil _ hfull
  refine h.holds_setter (hpair (mem_targetsOf.mp htarget)).1 (List.forall_mem_singleton.mpr hvalue) ?_
  refine h.holds_exportCall hreference (List.forall_mem_map.mpr fun name hname => ?_) true
  exact h.holds_getter (hpair (mem_targetsOf.mp hname)).2 hvalue

theorem holds_reExportAllCall {specifier : String} (hspecifier : P (quote specifier.toList))
    (offset : Nat) : P (reExportAllCall reference specifier offset) := by
  have hvalue := h.holds_freshName "v" (by decide) [reference]
  have hname := h.holds_freshName "n" (by decide) [reference]
  have hkey := h.mark (c := '[') (by decide) h.nil (h.mark (c := ']') (by decide) hname
    (h.marks ":()=>".toList (by decide) hvalue))
  have hcall := h.holds_exportCall hreference (List.forall_mem_singleton.mpr hkey) true
  have hdefault : P ("default".toList) := h.word (by decide)
  have hbody := h.mark (c := '!') (by decide) hname (h.marks "==\"".toList (by decide)
    (h.mark (c := '"') (by decide) hdefault (h.marks "&&".toList (by decide) hcall)))
  refine h.holds_requestCall hreference (List.forall_mem_singleton.mpr ?_) (List.forall_mem_nil _)
    hspecifier offset
  refine h.holds_setter h.holds_wildcardKey
    (List.forall_mem_cons.mpr ⟨hvalue, List.forall_mem_singleton.mpr hname⟩) ?_
  simp only [List.append_assoc]
  exact hbody

theorem holds_reExportNamespaceCall {specifier exported : String}
    (hspecifier : P (quote specifier.toList)) (hkey : P (Text.propertyKey exported.toList)) (offset : Nat) :
    P (reExportNamespaceCall reference specifier offset exported) := by
  unfold reExportNamespaceCall
  dsimp only
  have hobject := h.holds_freshName "o" (by decide) [reference]
  generalize freshName "o" [reference] = object at hobject ⊢
  have hvalue := h.holds_freshName "v" (by decide) [reference, object]
  have hname := h.holds_freshName "n" (by decide) [reference, object]
  have hregister := h.holds_exportCall hreference
    (List.forall_mem_singleton.mpr (h.holds_getter hkey hobject)) true
  have hsetter := h.holds_setter h.holds_wildcardKey
    (List.forall_mem_cons.mpr ⟨hvalue, List.forall_mem_singleton.mpr hname⟩)
    (h.holds_memberAssignment hobject hname hvalue)
  have hrequest := h.holds_requestCall hreference (List.forall_mem_singleton.mpr hsetter)
    (List.forall_mem_singleton.mpr hobject) hspecifier offset
  have hcreation : P ("Object.create(null))".toList) :=
    h.holds_creation (h.mark (c := ')') (by decide) h.nil h.nil)
  have hbody := h.holds_braced (h.mark (c := ';') (by decide) hregister hrequest)
  have happlied := h.mark (c := '(') (by decide) h.nil (h.mark (c := '=') (by decide) hobject
    (h.mark (c := '>') (by decide) h.nil (h.mark (c := ')') (by decide) hbody
      (h.mark (c := '(') (by decide) h.nil hcreation))))
  simp only [List.append_assoc, List.cons_append]
  exact happlied

theorem ended_requestStatement {exported : List String} {request : Request}
    (htexts : ∀ text ∈ request.texts, P text) :
    Ended P (requestStatement ⟨reference, exported⟩ request) := by
  obtain ⟨offset, specifier, use⟩ := request
  obtain ⟨hspecifier, htexts⟩ := List.forall_mem_cons.mp htexts
  refine .single ?_
  cases use with
  | bindings names namespaces => exact h.holds_bindingsCall hreference hspecifier htexts offset
  | reExport names => exact h.holds_reExportCall hreference hspecifier htexts offset
  | reExportAll => exact h.holds_reExportAllCall hreference hspecifier offset
  | reExportNamespace exported =>
    exact h.holds_reExportNamespaceCall hreference hspecifier (List.forall_mem_singleton.mp htexts) offset

/-! ### The whole line -/

theorem ended_exportStatement {exports : List Export}
    (hexports : ∀ item ∈ exports, ∀ text ∈ item.texts, P text) (constant : Bool) :
    Ended P (exportStatement reference exports constant) := by
  unfold exportStatement
  split
  · exact .nothing
  · refine .single (h.holds_exportCall hreference (List.forall_mem_map.mpr fun item hitem => ?_) constant)
    have htexts := List.forall_mem_cons.mp (hexports item hitem)
    exact h.holds_getter htexts.1 (List.forall_mem_singleton.mp htexts.2)

end Calls

end Composes

/-- What is kept of a list with the items that came before is neither repeated nor lost. -/
theorem foldl_withoutRepetition {names kept : List String} (hkept : kept.Nodup) :
    (names.foldl (fun kept name => if kept.contains name then kept else name :: kept) kept).Nodup ∧
      ∀ name, name ∈ names.foldl (fun kept name => if kept.contains name then kept else name :: kept)
        kept ↔ name ∈ kept ∨ name ∈ names := by
  induction names generalizing kept with
  | nil => exact ⟨hkept, by simp⟩
  | cons next rest ih =>
    rw [List.foldl_cons]
    split
    · next hcontains =>
      obtain ⟨hnodup, hmem⟩ := ih hkept
      have hnext : next ∈ kept := by simpa using hcontains
      refine ⟨hnodup, fun name => (hmem name).trans ?_⟩
      rw [List.mem_cons]
      constructor
      · exact fun h => h.imp_right Or.inr
      · rintro (h | rfl | h)
        · exact .inl h
        · exact .inl hnext
        · exact .inr h
    · next hcontains =>
      have hnext : next ∉ kept := by simpa using hcontains
      obtain ⟨hnodup, hmem⟩ := ih (List.nodup_cons.mpr ⟨hnext, hkept⟩)
      refine ⟨hnodup, fun name => (hmem name).trans ?_⟩
      rw [List.mem_cons, List.mem_cons, or_assoc, or_left_comm]

theorem nodup_withoutRepetition (names : List String) : (withoutRepetition names).Nodup :=
  List.nodup_reverse.mpr (foldl_withoutRepetition List.nodup_nil).1

theorem mem_withoutRepetition {names : List String} {name : String} :
    name ∈ withoutRepetition names ↔ name ∈ names := by
  rw [withoutRepetition, List.mem_reverse, (foldl_withoutRepetition List.nodup_nil).2]
  simp

theorem mem_texts_of_importedVariables {request : Request} {pair : String × String}
    (hpair : pair ∈ request.importedVariables) : pair.2.toList ∈ request.texts := by
  obtain ⟨offset, specifier, use⟩ := request
  cases use with
  | bindings names namespaces =>
    exact List.mem_cons_of_mem _ (List.mem_append_left _ (List.mem_flatMap.mpr ⟨pair, hpair, by simp⟩))
  | _ => cases hpair

theorem mem_texts_of_importedNamespaces {request : Request} {name : String}
    (hname : name ∈ request.importedNamespaces) : name.toList ∈ request.texts := by
  obtain ⟨offset, specifier, use⟩ := request
  cases use with
  | bindings names namespaces =>
    exact List.mem_cons_of_mem _ (List.mem_append_right _ (List.mem_map.mpr ⟨name, hname, rfl⟩))
  | _ => cases hname

namespace Composes

variable {P : List Char → Prop} (h : Composes P)

include h

theorem ended_importVariables {requests : List Request}
    (hrequests : ∀ request ∈ requests, ∀ text ∈ request.texts, P text) :
    Ended P (importVariables requests) := by
  unfold importVariables
  dsimp only
  split
  · exact .nothing
  · have hnames : ∀ name ∈ withoutRepetition (requests.flatMap fun request =>
        request.importedVariables.map (·.2)), P name.toList := by
      intro name hname
      obtain ⟨request, hrequest, hname⟩ := List.mem_flatMap.mp (mem_withoutRepetition.mp hname)
      obtain ⟨pair, hpair, rfl⟩ := List.mem_map.mp hname
      exact hrequests request hrequest _ (mem_texts_of_importedVariables hpair)
    have hlet : P "let".toList := h.word (by decide)
    have hlist := h.holds_commaSeparated (List.forall_mem_map.mpr hnames)
    exact .single (h.mark (by decide) hlet hlist)

theorem ended_importObjects {requests : List Request}
    (hrequests : ∀ request ∈ requests, ∀ text ∈ request.texts, P text) :
    Ended P (importObjects requests) := by
  refine .flatMap fun name hname => ?_
  obtain ⟨request, hrequest, hname⟩ := List.mem_flatMap.mp hname
  have hobject := hrequests request hrequest _ (mem_texts_of_importedNamespaces hname)
  have hconst : P "const".toList := h.word (by decide)
  have hdeclaration := h.mark (c := ' ') (by decide) hconst
    (h.mark (c := '=') (by decide) hobject (h.holds_creation h.nil))
  have hended := Ended.single hdeclaration
  rw [List.append_nil, List.append_assoc, List.cons_append, List.append_assoc] at hended
  rw [List.append_assoc]
  exact hended

/-- **The line.** What composes holds of the generated line if it holds of the module reference and of
the texts that are taken over. The line is statements, each with its semicolon. -/
theorem ended_hoistedCode {reference : String} (hreference : P reference.toList)
    (constants : List String) {exports : List Export} {requests : List Request}
    (hexports : ∀ item ∈ exports, ∀ text ∈ item.texts, P text)
    (hrequests : ∀ request ∈ requests, ∀ text ∈ request.texts, P text) :
    Ended P (hoistedCode reference constants exports requests) := by
  have hfiltered (test : Export → Bool) (constant : Bool) :
      Ended P (exportStatement reference (exports.filter test) constant) :=
    h.ended_exportStatement hreference
      (fun item hitem => hexports item (List.mem_of_mem_filter hitem)) constant
  have hstatements : Ended P ((inSourceOrder requests).flatMap
      (requestStatement ⟨reference, exports.map Export.localName⟩)) :=
    .flatMap fun request hrequest =>
      h.ended_requestStatement hreference (hrequests request (List.mem_mergeSort.mp hrequest))
  exact ((((hfiltered _ false).append (hfiltered _ true)).append
    (h.ended_importVariables hrequests)).append (h.ended_importObjects hrequests)).append hstatements

end Composes

/-! ### Line breaks -/

/-- Having no line break composes. -/
theorem composes_lineBreaks : Composes fun text => Edit.lineBreaks text = [] where
  word htext := lineBreaks_of_forall (by decide) (by decide) (forall_of_beginsOtherwise htext)
  mark {first rest c} hc hfirst hrest := by
    have hmarks : (codeMarks.all fun c => c != '\n' && c != '\r') = true := by decide
    have hmark := List.all_eq_true.mp hmarks c hc
    simp_all
  call hletters hfirst hrest := by
    have hnone := lineBreaks_of_forall (by decide) (by decide) (List.all_eq_true.mp hletters)
    simp [hfirst, hnone, hrest]

/-- Whether the variables that a request fills have identifiers as their names. -/
def Request.FillsIdentifiers (request : Request) : Prop :=
  (∀ pair ∈ request.importedVariables, isIdentifier pair.2.toList = true) ∧
    ∀ name ∈ request.importedNamespaces, isIdentifier name.toList = true

/-- What such a request takes over holds no line break. -/
theorem Request.FillsIdentifiers.lineBreaks_texts {request : Request} (hfills : request.FillsIdentifiers) :
    ∀ text ∈ request.texts, Edit.lineBreaks text = [] := by
  obtain ⟨offset, specifier, use⟩ := request
  refine List.forall_mem_cons.mpr ⟨lineBreaks_quote _, ?_⟩
  cases use with
  | bindings names namespaces =>
    refine List.forall_mem_append.mpr ⟨List.forall_mem_flatMap.mpr fun pair hpair => ?_,
      List.forall_mem_map.mpr fun name hname => ?_⟩
    · simpa [IsOneLine] using isOneLine_of_isIdentifier (hfills.1 pair hpair)
    · exact isOneLine_of_isIdentifier (hfills.2 name hname)
  | reExport names =>
    exact List.forall_mem_flatMap.mpr fun pair _ => by simp
  | reExportAll => exact List.forall_mem_nil _
  | reExportNamespace exported => exact List.forall_mem_singleton.mpr (lineBreaks_propertyKey _)

/-- **One line.** The generated code holds no line break if the names of the variables in it do not. -/
theorem lineBreaks_hoistedCode {reference : String} (hreference : IsOneLine reference)
    (constants : List String) {exports : List Export} {requests : List Request}
    (hexports : ∀ item ∈ exports, IsOneLine item.localName)
    (hrequests : ∀ request ∈ requests, request.FillsIdentifiers) :
    Edit.lineBreaks (hoistedCode reference constants exports requests) = [] := by
  refine composes_lineBreaks.ended (composes_lineBreaks.ended_hoistedCode hreference constants
    (fun item hitem => ?_) fun request hrequest => (hrequests request hrequest).lineBreaks_texts)
  exact List.forall_mem_cons.mpr ⟨lineBreaks_propertyKey _, List.forall_mem_singleton.mpr (hexports item hitem)⟩

end ModuleLinkage.Lowering
