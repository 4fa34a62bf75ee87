import ModuleLinkage.Proofs.Syntax.Ordering.Declarations

/-!
# What begins with a bracket

Type parameters, parameters and the body of a class begin with the token that the parser stands at, and
what they hold lies behind it (`Lexeme.Brackets`). The parts of a function behind its name begin with the
first of these, and so do those of a class without a name, unless it states others: then all its
parts lie behind the word that says so.
-/

set_option autoImplicit false
set_option synthInstance.maxSize 1000000000
set_option synthInstance.maxHeartbeats 200000

namespace ModuleLinkage.Syntax

open Text

variable {source : List Char} {markers : Bool} {g : Grammar} {s s' : State}

/-! ### Runs -/

section Runs

variable {α : Type} {parser : Parser α} {value : α}

/-- A fault that is noted when a parser begins is noted when it ends. -/
theorem clean_of_reads (source : List Char) [Located α] [hreads : Reads source True 0 0 parser]
    (hrun : parser s = .done value s') (hclean : s'.faulty = false) : s.faulty = false := by
  by_contra hfault
  rw [(hreads.run s value s' hrun).1 (by simpa using hfault)] at hclean
  cases hclean

/-- Whether a fault is noted does not depend on where anything lies. -/
theorem clean_of_lays (source : List Char) (markers : Bool) [Placed α]
    [hlays : Lays source markers False 0 0 0 parser] (hrun : parser s = .done value s')
    (hclean : s'.faulty = false) : s.faulty = false :=
  (hlays.run s).clean hrun hclean

instance atMost_false {lower upper : Nat} : AtMost False lower upper := ⟨False.elim⟩

instance given_false {α : Type} [Placed α] {value : α} {lo hi : Nat} :
    Given source markers False lo value hi := ⟨False.elim⟩

/-- What a parser gives lies behind the token before the one that it begins with. -/
theorem placed_of_run [Placed α]
    [hlays : Lays source markers True s.previousStop s.previousStop s.previousStop parser]
    (hreading : s.Reading source markers) (hrun : parser s = .done value s')
    (hclean : s'.faulty = false) : s'.Reading source markers ∧ s.Before s' ∧
      Lies source markers s.previousStop s'.previousStop value :=
  (hlays.run s value s' hrun).2 hclean trivial hreading hreading.sound.order (Nat.le_refl _)

/-- Behind a token that is passed stands the next one. -/
theorem reading_of_advance (hreading : s.Reading source markers) (hrun : advance s = .done () s')
    (hclean : s'.faulty = false) :
    s'.Reading source markers ∧ s'.previousStop = s.lexeme.next.offset := by
  rw [← hreading.sound.lexeme.stop_eq]
  exact ⟨((moves_of_reads source markers hrun).2 hclean hreading).1, previousStop_of_advance hrun⟩

end Runs

/-- A mark that has to be there is passed. -/
theorem reading_of_expect {mark : String} (hreading : s.Reading source markers)
    (hrun : expect mark s = .done () s') (hclean : s'.faulty = false) :
    s.lexeme.token = .punctuator mark ∧ s'.Reading source markers ∧
      s'.previousStop = s.lexeme.next.offset := by
  obtain ⟨htoken, hadvance⟩ := advance_of_expect hrun
  exact ⟨htoken, reading_of_advance hreading hadvance hclean⟩

/-- What is asked for holds if no fault is noted. -/
theorem done_of_check {condition : Bool} (hrun : Parser.check condition s = .done () s')
    (hclean : s'.faulty = false) : condition = true ∧ s' = s := by
  unfold Parser.check at hrun
  split at hrun
  · next hcondition =>
    cases hrun
    exact ⟨hcondition, rfl⟩
  · cases hrun
    cases hclean

/-- A word is passed if it is the present token, and else nothing is. -/
theorem cases_eatWord {word : String} {eaten : Bool} (hrun : eatWord word s = .done eaten s') :
    (eaten = true ∧ (∃ escaped, s.lexeme.token = .word word escaped) ∧ advance s = .done () s') ∨
      eaten = false ∧ s' = s := by
  obtain ⟨found, s₁, hfound, hrun⟩ := done_of_bind hrun
  obtain ⟨rfl, htoken⟩ := token_of_isAtWord hfound
  cases found with
  | true =>
    obtain ⟨_, s₂, hadvance, hpure⟩ := done_of_bind hrun
    cases hpure
    exact .inl ⟨rfl, htoken rfl, hadvance⟩
  | false =>
    cases hrun
    exact .inr ⟨rfl, rfl⟩

/-- A step is taken, and either it gives nothing or further ones are. -/
theorem cases_iterateUpTo {α : Type} {count : Nat} {step : α → Parser (Option α)} {value result : α}
    (hrun : Parser.iterateUpTo (count + 1) step value s = .done result s') :
    ∃ next? s₁, step value s = .done next? s₁ ∧ ((next? = none ∧ result = value ∧ s' = s₁) ∨
      ∃ next, next? = some next ∧ Parser.iterateUpTo count step next s₁ = .done result s') := by
  obtain ⟨next?, s₁, hnext, hrest⟩ := done_of_bind hrun
  refine ⟨next?, s₁, hnext, ?_⟩
  cases next? with
  | none =>
    cases hrest
    exact .inl ⟨rfl, rfl, rfl⟩
  | some next => exact .inr ⟨next, rfl, hrest⟩

/-! ### Brackets -/

theorem front_of_lies {node : Node} {lo hi : Nat} (h : Lies source markers lo hi node) :
    lo ≤ node.front :=
  (lies_node_iff.mp h).2.1

theorem fronts_of_lies {nodes : List Node} {lo hi : Nat} (h : Lies source markers lo hi nodes) :
    ∀ node ∈ nodes, lo ≤ node.front :=
  (lies_nodes_iff.mp h).front

/-- Nodes one behind another, of which the first begins with a bracket. -/
theorem Lexeme.Brackets.opens {lexeme : Lexeme} {node : Node} {rest : List Node} {lo hi : Nat}
    (h : lexeme.Brackets node) (hline : InLine source markers lo hi (node :: rest)) :
    lexeme.Opens (node :: rest) := by
  intro other hother
  rcases List.mem_cons.mp hother with rfl | hother
  · exact .inl h
  · exact .inr (h.stop.trans ((List.pairwise_cons.mp hline.chain).1 other hother))

/-- What stands in angle brackets lies behind the first of them. -/
theorem behind_of_angleList {item : Parser Node}
    [∀ h lo left, Lays source markers h lo lo left item] {items : List Node}
    (hreading : s.Reading source markers) (htoken : s.lexeme.token = .punctuator "<")
    (hrun : angleList item s = .done items s') (hclean : s'.faulty = false) :
    s.lexeme.next.offset ≤ s'.previousStop ∧ ∀ part ∈ items, s.lexeme.next.offset ≤ part.front := by
  obtain ⟨found, s₁, hfound, hbehind⟩ := done_of_bind hrun
  obtain ⟨token, s₂, hpresent, hmatch⟩ := done_of_bind hfound
  cases hpresent
  rw [htoken] at hmatch
  cases hmatch
  obtain ⟨_, s₂, hrequire, hopened⟩ := done_of_bind hbehind
  obtain rfl := (done_of_require hrequire).2
  obtain ⟨_, s₃, hadvance, hinside⟩ := done_of_bind hopened
  obtain ⟨list, s₄, hlist, hlast⟩ := done_of_bind hinside
  obtain ⟨_, s₅, hsome, hpure⟩ := done_of_bind hlast
  cases hpure
  obtain rfl := (done_of_require hsome).2
  obtain ⟨hreading₃, hprevious⟩ :=
    reading_of_advance hreading hadvance (clean_of_lays source markers hlist hclean)
  obtain ⟨-, horder, hlies⟩ := placed_of_run hreading₃ hlist hclean
  rw [← hprevious]
  exact ⟨horder.previous, fronts_of_lies hlies⟩

section Brackets

variable [LaysAll source markers g]

/-- The parameters in parentheses. -/
def parameterList (g : Grammar) (owner : ParameterOwner) : Parser (List Node) := do
  let this ← if (← typescript) && (← isAtWord "this") then pure [← thisParameter g] else pure []
  let items ← commaListUntil ")" (parameter g owner)
  return this ++ items

theorem parameters_eq (g : Grammar) (owner : ParameterOwner) : parameters g owner = (do
    let start ← offset
    expect "("
    withInOperator do
      let parts ← parameterList g owner
      finish start .parameters parts) := by
  unfold parameters parameterList
  simp only [bind_assoc]
  refine bind_congr fun start => bind_congr fun _ => congrArg withInOperator ?_
  refine bind_congr fun types => bind_congr fun isThis => ?_
  split <;> simp only [bind_assoc, pure_bind]

instance lays_parameterList {h : Prop} {outset lo left : Nat} [AtMost h outset lo]
    (owner : ParameterOwner) :
    Lays source markers h outset lo left (parameterList g owner) := by
  unfold parameterList
  dsimp only
  infer_instance

/-- There are no type parameters, or they begin with the present token. -/
theorem cases_typeParameters (hreading : s.Reading source markers) {nodes : List Node}
    (hrun : typeParameters? g s = .done nodes s') (hclean : s'.faulty = false) :
    nodes = [] ∧ s'.lexeme = s.lexeme ∨ s.lexeme.token = .punctuator "<" ∧
      ∃ node : Node, nodes = [node] ∧ node.form = .typeParameters ∧ s.lexeme.Brackets node := by
  obtain ⟨types, s₁, htypes, hrun⟩ := done_of_bind hrun
  cases htypes
  obtain ⟨found, s₂, hfound, hrun⟩ := done_of_bind hrun
  cases hfound
  split at hrun
  · next hopens =>
    obtain ⟨start, s₃, hstart, hrun⟩ := done_of_bind hrun
    cases hstart
    obtain ⟨items, s₄, hitems, hrun⟩ := done_of_bind hrun
    obtain ⟨node, s₅, hnode, hpure⟩ := done_of_bind hrun
    cases hnode
    cases hpure
    have htoken : s.lexeme.token = .punctuator "<" := by simpa using (Bool.and_eq_true_iff.mp hopens).2
    obtain ⟨hle, hinside⟩ := behind_of_angleList hreading htoken hitems hclean
    exact .inr ⟨htoken, _, rfl, rfl, ⟨List.mem_cons_self, rfl, hle, hinside⟩⟩
  · cases hrun
    exact .inl ⟨rfl, rfl⟩

/-- Parameters begin with the present token. -/
theorem brackets_of_parameters (hreading : s.Reading source markers) {owner : ParameterOwner}
    {node : Node} (hrun : parameters g owner s = .done node s') (hclean : s'.faulty = false) :
    s.lexeme.token = .punctuator "(" ∧ node.form = .parameters ∧ s.lexeme.Brackets node := by
  rw [parameters_eq] at hrun
  obtain ⟨start, s₁, hstart, hbehind⟩ := done_of_bind hrun
  cases hstart
  obtain ⟨_, s₁, hexpect, hwithin⟩ := done_of_bind hbehind
  unfold withInOperator Parser.within at hwithin
  split at hwithin
  case h_2 => cases hwithin
  next inner s₂ hinner =>
  obtain ⟨parts, s₃, hparts, hfinish⟩ := done_of_bind hinner
  cases hfinish
  cases hwithin
  have hclean₁ := clean_of_lays source markers hparts hclean
  obtain ⟨htoken, hreading₁, hprevious⟩ := reading_of_expect hreading hexpect hclean₁
  obtain ⟨-, horder, hlies⟩ := placed_of_run (hreading₁.inContext _) hparts hclean
  have hle : s.lexeme.next.offset ≤ s₂.previousStop := hprevious ▸ horder.previous
  have hinside : ∀ part ∈ parts, s.lexeme.next.offset ≤ part.front := hprevious ▸ fronts_of_lies hlies
  exact ⟨htoken, rfl, ⟨by simp, rfl, hle, hinside⟩⟩

/-- The body of a class begins with the present token. -/
theorem brackets_of_classBody (hreading : s.Reading source markers) {node : Node}
    (hrun : classBody g s = .done node s') (hclean : s'.faulty = false) :
    s.lexeme.token = .punctuator "\x7b" ∧ s.lexeme.Brackets node := by
  obtain ⟨start, s₁, hstart, hbehind⟩ := done_of_bind hrun
  cases hstart
  obtain ⟨_, s₁, hexpect, hinside⟩ := done_of_bind hbehind
  obtain ⟨members, s₂, hmembers, hlast⟩ := done_of_bind hinside
  obtain ⟨_, s₃, hclose, hfinish⟩ := done_of_bind hlast
  cases hfinish
  have hclean₂ := clean_of_reads source hclose hclean
  obtain ⟨htoken, hreading₁, hprevious⟩ :=
    reading_of_expect hreading hexpect (clean_of_lays source markers hmembers hclean₂)
  obtain ⟨hreading₂, horder, hlies⟩ := placed_of_run hreading₁ hmembers hclean₂
  have horder' := ((moves_of_reads source markers hclose).2 hclean hreading₂).2
  have hle := horder.previous.trans horder'.previous
  have hparts := fronts_of_lies (found_flatten.imp ⟨trivial, hlies⟩)
  rw [hprevious] at hle hparts
  exact ⟨htoken, ⟨by simp, rfl, hle, hparts⟩⟩

/-- The parts of a function behind its name begin where the parser stands. -/
theorem exists_part_of_functionParts (hreading : s.Reading source markers) {marks : FunctionMarks}
    {owner : ParameterOwner} {parts : List Node} (hrun : functionParts g marks owner s = .done parts s')
    (hclean : s'.faulty = false) :
    s.lexeme.token ∈ [.punctuator "<", .punctuator "("] ∧ ∃ (part : Node) (rest : List Node),
      parts = part :: rest ∧ (part.form = .typeParameters ∨ part.form = .parameters) ∧
        s.lexeme.Brackets part ∧ s.lexeme.Opens parts := by
  have hline := lies_nodes_iff.mp (placed_of_run hreading hrun hclean).2.2
  unfold functionParts insideFunction Parser.within at hrun
  split at hrun
  case h_2 => cases hrun
  next hfound =>
  cases hrun
  obtain ⟨nodes, s₁, htypes, hinside⟩ := done_of_bind hfound
  obtain ⟨parameters, s₂, hparameters, hbehind⟩ := done_of_bind hinside
  obtain ⟨⟨rest, rfl⟩, hclean₂⟩ :
      (∃ rest, parts = nodes ++ (parameters :: rest)) ∧ s₂.faulty = false := by
    have hsplit (result body : List Node) :
        ∃ rest, nodes ++ [parameters] ++ result ++ body = nodes ++ (parameters :: rest) :=
      ⟨result ++ body, by simp⟩
    obtain ⟨result, s₃, hresult, hending⟩ := done_of_bind hbehind
    obtain ⟨isBody, s₄, hisBody, hlast⟩ := done_of_bind hending
    cases hisBody
    split at hlast
    · obtain ⟨body, s₅, hbody, hpure⟩ := done_of_bind hlast
      cases hpure
      exact ⟨hsplit result [body], clean_of_lays source markers hresult
        (clean_of_lays source markers hbody hclean)⟩
    · obtain ⟨types, s₅, htypes, hrequiring⟩ := done_of_bind hlast
      cases htypes
      obtain ⟨_, s₆, hrequire, hclosing⟩ := done_of_bind hrequiring
      obtain rfl := (done_of_require hrequire).2
      obtain ⟨_, s₇, hsemicolon, hpure⟩ := done_of_bind hclosing
      cases hpure
      exact ⟨hsplit result [], clean_of_lays source markers hresult
        (clean_of_reads source hsemicolon hclean)⟩
  have hclean₁ := clean_of_lays source markers hparameters hclean₂
  have hreading₁ := (placed_of_run (hreading.inContext _) htypes hclean₁).1
  rcases cases_typeParameters (hreading.inContext _) htypes hclean₁ with
    ⟨rfl, hlexeme⟩ | ⟨htoken, node, rfl, hform, hbrackets⟩
  · obtain ⟨htoken, hform, hbrackets⟩ := brackets_of_parameters hreading₁ hparameters hclean₂
    rw [hlexeme] at htoken hbrackets
    exact ⟨List.mem_pair.mpr (.inr htoken), parameters, rest, rfl, .inr hform, hbrackets,
      Lexeme.Brackets.opens hbrackets hline⟩
  · exact ⟨List.mem_pair.mpr (.inl htoken), node, _, rfl, .inl hform, hbrackets,
      Lexeme.Brackets.opens hbrackets hline⟩

/-! ### Classes without a name -/

/-- What is read behind a word that states others lies behind the word. -/
theorem behind_of_kinds {parser : Parser (Option Heritage)} {count : Nat} {next? : Option Heritage}
    {stated : Heritage} {s₁ s₂ : State}
    (hlays : ∀ h, Lays source markers h s₁.previousStop s₁.previousStop s₁.previousStop parser)
    (hreading : s.Reading source markers) (hadvance : advance s = .done () s₁)
    (hkind : parser s₁ = .done next? s₂)
    (hrest : (next? = none ∧ stated = {} ∧ s' = s₂) ∨ ∃ next, next? = some next ∧
      Parser.iterateUpTo count (oneKind g) next s₂ = .done stated s') (hclean : s'.faulty = false) :
    s₁.faulty = false ∧ s.lexeme.next.offset ≤ s'.previousStop ∧
      ∀ part ∈ stated.parents.flatten ++ stated.implemented, s.lexeme.next.offset ≤ part.front := by
  rcases hrest with ⟨rfl, rfl, rfl⟩ | ⟨next, rfl, hrest⟩
  · have hclean₁ := ((hlays True).run s₁).clean hkind hclean
    obtain ⟨hreading₁, hprevious⟩ := reading_of_advance hreading hadvance hclean₁
    obtain ⟨-, horder, -⟩ := placed_of_run hreading₁ hkind hclean
    exact ⟨hclean₁, hprevious ▸ horder.previous, List.forall_mem_nil _⟩
  · have hupTo (h : Prop) (hvalue : h ∧ s₁.previousStop ≤ s₂.previousStop →
        Lies source markers s₁.previousStop s₂.previousStop next) :
        LaysAt source markers (h ∧ s₁.previousStop ≤ s₂.previousStop) s₁.previousStop s₂.previousStop
          s₂.previousStop s₂ (Parser.iterateUpTo count (oneKind g) next) :=
      .iterateUpTo count hvalue fun heritage lo' left' => lays_oneKind
    have hclean₂ := (hupTo False (False.elim ∘ And.left)).clean hrest hclean
    have hclean₁ := ((hlays True).run s₁).clean hkind hclean₂
    obtain ⟨hreading₁, hprevious⟩ := reading_of_advance hreading hadvance hclean₁
    obtain ⟨hreading₂, horder, hlies⟩ := placed_of_run hreading₁ hkind hclean₂
    obtain ⟨-, horder', hlies'⟩ := (hupTo True (fun _ => lies_some_iff.mp hlies) stated s' hrest).2
      hclean ⟨trivial, horder.previous⟩ hreading₂ hreading₂.sound.order (Nat.le_refl _)
    rw [← hprevious]
    exact ⟨hclean₁, horder.previous.trans horder'.previous, hlies'.front⟩

/-- A class states nothing of others, or all that it states stands behind the word that says so. -/
theorem cases_heritage (hreading : s.Reading source markers) {stated : Heritage}
    (hrun : heritage g s = .done stated s') (hclean : s'.faulty = false) :
    (stated.parents = [] ∧ stated.implemented = [] ∧ s'.lexeme = s.lexeme) ∨
      s.lexeme.token ∈ [.plain "extends", .plain "implements"] ∧
        s.lexeme.next.offset ≤ s'.previousStop ∧
          ∀ part ∈ stated.parents.flatten ++ stated.implemented, s.lexeme.next.offset ≤ part.front := by
  have hnone (h : Prop) (lo : Nat) : Found source markers h ({} : Heritage) lo lo := ⟨fun _ => .nil⟩
  rw [heritage_eq] at hrun
  obtain ⟨state, s₁, hget, hupTo⟩ := done_of_bind hrun
  cases hget
  generalize s.total + 3 - s.lexeme.span.start = count at hupTo
  cases count with
  | zero => cases hupTo
  | succ count =>
    obtain ⟨next?, s₂, hnext, hrest⟩ := cases_iterateUpTo hupTo
    obtain ⟨extends', s₃, hextends, hkind⟩ := done_of_bind hnext
    rcases cases_eatWord hextends with ⟨rfl, ⟨escaped, htoken⟩, hadvance⟩ | ⟨rfl, rfl⟩
    · right
      obtain ⟨hclean₃, hbehind⟩ :=
        behind_of_kinds (fun h => have _ := hnone h s₃.previousStop; lays_superclasses) hreading hadvance
          hkind hrest hclean
      exact ⟨List.mem_pair.mpr (.inl (unescaped_of_advance (by decide) htoken hadvance hclean₃)), hbehind⟩
    obtain ⟨implements, s₄, himplements, hkind'⟩ := done_of_bind hkind
    rcases cases_eatWord himplements with ⟨rfl, ⟨escaped, htoken⟩, hadvance⟩ | ⟨rfl, rfl⟩
    · right
      obtain ⟨hclean₄, hbehind⟩ :=
        behind_of_kinds (fun h => have _ := hnone h s₄.previousStop; lays_interfaces) hreading hadvance
          hkind' hrest hclean
      exact ⟨List.mem_pair.mpr (.inr (unescaped_of_advance (by decide) htoken hadvance hclean₄)), hbehind⟩
    · left
      cases hkind'
      rcases hrest with ⟨-, rfl, rfl⟩ | ⟨next, hsome, -⟩
      · exact ⟨rfl, rfl, rfl⟩
      · cases hsome

instance stays_isAtName : Stays isAtName := by
  refine ⟨fun s found s' hrun => ?_⟩
  obtain ⟨token, s₁, hpresent, hrest⟩ := done_of_bind hrun
  obtain ⟨rfl, rfl⟩ := Outcome.done.inj hpresent
  generalize s.lexeme.token = token at hrest
  cases token <;> cases hrest <;> exact ⟨rfl, rfl⟩

instance stays_checkModifiers (allowed modifiers : List String) :
    Stays (checkModifiers allowed modifiers) := by
  unfold checkModifiers
  infer_instance

theorem boundName?_of_binding {node : Node} {word : String} (hform : node.form = .binding word) :
    node.boundName? = some word := by
  obtain ⟨span, form, parts⟩ := node
  cases hform
  rfl

/-- The parts of a class without a name begin with the token behind the word `class`, or all of them
lie behind that. -/
theorem opens_of_classParts (hreading : s.Reading source markers) {modifiers : List String}
    {parts : List Node} (hrun : classParts g modifiers s = .done parts s') (hclean : s'.faulty = false)
    (hname : ∀ part ∈ parts, part.boundName? = none) :
    s.lexeme.token ∈ classTails ∧ s.lexeme.Opens parts := by
  have hline := lies_nodes_iff.mp (placed_of_run hreading hrun hclean).2.2
  obtain ⟨_, s₁, hcheck, hnaming⟩ := done_of_bind hrun
  obtain ⟨isImplements, s₂, himplements, hnamed⟩ := done_of_bind hnaming
  obtain ⟨isNamed, s₃, hisNamed, hbehind⟩ := done_of_bind hnamed
  split at hbehind
  · -- A name is bound.
    obtain ⟨name, s₄, hbinding, hjoined⟩ := done_of_bind hbehind
    obtain ⟨names, s₅, hnames, hrest⟩ := done_of_bind hjoined
    cases hnames
    have hform : Gives bindingName fun node => ∃ word, node.form = .binding word :=
      gives_variableName fun _ word => ⟨word, rfl⟩
    obtain ⟨word, hword⟩ := hform _ _ _ hbinding
    have hmem : name ∈ parts := by
      obtain ⟨types, s₅, -, hheritage⟩ := done_of_bind hrest
      obtain ⟨stated, s₆, -, hchecking⟩ := done_of_bind hheritage
      obtain ⟨_, s₇, -, hbody⟩ := done_of_bind hchecking
      obtain ⟨body, s₈, -, hpure⟩ := done_of_bind hbody
      cases hpure
      exact List.mem_append_left _ (List.mem_singleton_self name)
    have hnone := hname name hmem
    rw [boundName?_of_binding hword] at hnone
    cases hnone
  · obtain ⟨names, s₄, hnames, hrest⟩ := done_of_bind hbehind
    cases hnames
    obtain ⟨types, s₄, htypes, hheritage⟩ := done_of_bind hrest
    obtain ⟨stated, s₅, hstated, hchecking⟩ := done_of_bind hheritage
    obtain ⟨_, s₆, hsingle, hlast⟩ := done_of_bind hchecking
    obtain ⟨body, s₇, hbody, hpure⟩ := done_of_bind hlast
    cases hpure
    have hclean₆ := clean_of_lays source markers hbody hclean
    have hclean₅ := clean_of_reads source hsingle hclean₆
    have hclean₄ := clean_of_lays source markers hstated hclean₅
    have hclean₃ := clean_of_lays source markers htypes hclean₄
    have hclean₂ := clean_of_reads source hisNamed hclean₃
    have hclean₁ := clean_of_reads source himplements hclean₂
    have hreading₁ := ((moves_of_reads source markers hcheck).2 hclean₁ hreading).1
    have hreading₂ := ((moves_of_reads source markers himplements).2 hclean₂ hreading₁).1
    have hreading₃ := ((moves_of_reads source markers hisNamed).2 hclean₃ hreading₂).1
    have hreading₄ := (placed_of_run hreading₃ htypes hclean₄).1
    have hreading₅ := (placed_of_run hreading₄ hstated hclean₅).1
    obtain ⟨-, rfl⟩ := done_of_check hsingle hclean₆
    have hlexeme : s₃.lexeme = s.lexeme := by
      rw [Stays.lexeme _ _ _ hisNamed, Stays.lexeme _ _ _ himplements, Stays.lexeme _ _ _ hcheck]
    rw [← hlexeme]
    rcases cases_typeParameters hreading₃ htypes hclean₄ with
      ⟨rfl, hlexeme₄⟩ | ⟨htoken, node, rfl, -, hbrackets⟩
    · rw [← hlexeme₄]
      rcases cases_heritage hreading₄ hstated hclean₅ with
        ⟨hparents, himplemented, hlexeme₅⟩ | ⟨htoken, hle, hfronts⟩
      · obtain ⟨htoken, hbrackets⟩ := brackets_of_classBody hreading₅ hbody hclean
        rw [hlexeme₅] at htoken hbrackets
        rw [hparents, himplemented, htoken]
        exact ⟨by decide, List.forall_mem_singleton.mpr (.inl hbrackets)⟩
      · have hbehind := hle.trans (front_of_lies (placed_of_run hreading₅ hbody hclean).2.2)
        refine ⟨?_, fun part hpart => .inr ?_⟩
        · rcases List.mem_pair.mp htoken with htoken | htoken <;> rw [htoken] <;> decide
        · rw [List.nil_append, List.nil_append, ← List.append_assoc] at hpart
          rcases List.mem_append.mp hpart with hpart | hpart
          · exact hfronts part hpart
          · rwa [List.mem_singleton.mp hpart]
    · rw [htoken]
      exact ⟨by decide, Lexeme.Brackets.opens hbrackets hline⟩

end Brackets

end ModuleLinkage.Syntax
