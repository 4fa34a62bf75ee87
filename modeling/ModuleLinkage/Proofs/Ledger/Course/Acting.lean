import ModuleLinkage.Proofs.Ledger.Course.Sight

/-!
# Effects act in sight

A relation between worlds follows acts (`Follows`) if it is reflexive and transitive, contains every
act and leaves in sight what was. Effects heed the sight (`Effect.Heeds`): run in a confined world
that is in sight, and whatever comes of it, an effect leaves such a world that is related to the
first one, and what it gives is in sight too.

Here this is shown of terms and of the commands that leave the ledger alone (`stays_perform_outside`).
These run no callbacks, and what a sight hides they do not get at.
-/

set_option autoImplicit false

namespace ModuleLinkage.Ledger

/-- A world is confined and in sight. -/
structure World.Fits (allowed : Command → Prop) (sight : Sight) (world : World) : Prop where
  confined : world.Confined allowed
  inSight : world.InSight sight

/-- A relation between worlds that contains every act and what acts come to together. -/
structure Follows (allowed : Command → Prop) (sight : Sight) (rel : World → World → Prop) : Prop where
  refl : ∀ world, rel world world
  trans : ∀ {first second third}, rel first second → rel second third → rel first third
  act : ∀ {world after}, Act allowed sight world after → rel world after
  lasts : ∀ {world after}, rel world after → sight.Lasts world.spaces.size after.spaces.size

namespace Effect

variable {α : Type}

/-- From a world an effect leads to a fitting one that is related to it, and a value that it gives
satisfies `post`, with the number of namespaces there are then. -/
def HeedsIn (allowed : Command → Prop) (sight : Sight) (rel : World → World → Prop) (world : World)
    (action : Effect α) (post : Nat → α → Prop) : Prop :=
  rel world (action.outcome world).2 ∧ (action.outcome world).2.Fits allowed sight ∧
    ∀ value, (action.outcome world).1 = .ok value → post (action.outcome world).2.spaces.size value

/-- So an effect does from every fitting world in which everything is in sight that is among `count`
namespaces. -/
def Heeds (allowed : Command → Prop) (sight : Sight) (rel : World → World → Prop) (count : Nat)
    (action : Effect α) (post : Nat → α → Prop) : Prop :=
  ∀ world, sight.Lasts count world.spaces.size → world.Fits allowed sight →
    action.HeedsIn allowed sight rel world post

/-- So an effect does whatever it gives. -/
abbrev Stays (allowed : Command → Prop) (sight : Sight) (rel : World → World → Prop) (count : Nat)
    (action : Effect α) : Prop :=
  action.Heeds allowed sight rel count fun _ _ => True

end Effect

open Effect

section

variable {α β : Type} {allowed : Command → Prop} {sight : Sight} {rel : World → World → Prop}
  {count : Nat}

theorem Act.fits {world after : World} (h : Act allowed sight world after)
    (hworld : world.Fits allowed sight) : after.Fits allowed sight :=
  ⟨h.move.confined hworld.confined, h.inSight⟩

namespace Follows

/-! ### Ways of putting effects together -/

theorem givesIn (hrel : Follows allowed sight rel) {post : Nat → α → Prop} {value : α} {world : World}
    (hworld : world.Fits allowed sight) (hvalue : post world.spaces.size value) :
    (pure value : Effect α).HeedsIn allowed sight rel world post := by
  refine ⟨hrel.refl world, hworld, fun other hother => ?_⟩
  cases hother
  exact hvalue

theorem gives (hrel : Follows allowed sight rel) {post : Nat → α → Prop} {value : α}
    (hvalue : ∀ n, sight.Lasts count n → post n value) :
    (pure value : Effect α).Heeds allowed sight rel count post :=
  fun _ hcount hworld => hrel.givesIn hworld (hvalue _ hcount)

/-- An effect that gives nothing that matters. -/
theorem done (hrel : Follows allowed sight rel) {value : α} :
    (pure value : Effect α).Stays allowed sight rel count :=
  hrel.gives fun _ _ => trivial

theorem throws (hrel : Follows allowed sight rel) {post : Nat → α → Prop} (fault : Fault) :
    (throw fault : Effect α).Heeds allowed sight rel count post :=
  fun world _ hworld => ⟨hrel.refl world, hworld, nofun⟩

theorem fails (hrel : Follows allowed sight rel) {post : Nat → α → Prop} (error : LinkError) :
    (fail error : Effect α).Heeds allowed sight rel count post :=
  hrel.throws _

/-- The present world fits. -/
theorem reads (hrel : Follows allowed sight rel) :
    (get : Effect World).Heeds allowed sight rel count fun n world =>
      n = world.spaces.size ∧ world.Fits allowed sight := by
  intro world _ hworld
  refine ⟨hrel.refl world, hworld, fun other hother => ?_⟩
  cases hother
  exact ⟨rfl, hworld⟩

/-- The rule for sequencing, from one world. -/
theorem bindIn (hrel : Follows allowed sight rel) {action : Effect α} {next : α → Effect β}
    {world : World} {post : Nat → α → Prop} {post' : Nat → β → Prop}
    (h : action.HeedsIn allowed sight rel world post)
    (hnext : ∀ value after, action.outcome world = (.ok value, after) →
      sight.Lasts world.spaces.size after.spaces.size → after.Fits allowed sight →
        post after.spaces.size value → (next value).HeedsIn allowed sight rel after post') :
    (action >>= next).HeedsIn allowed sight rel world post' := by
  obtain ⟨hbefore, hfits, hpost⟩ := h
  unfold HeedsIn
  rw [outcome_bind]
  rcases houtcome : action.outcome world with ⟨fault | value, after⟩ <;>
    rw [houtcome] at hbefore hfits hpost
  · exact ⟨hbefore, hfits, nofun⟩
  · obtain ⟨hafter, hrest⟩ := hnext value after houtcome (hrel.lasts hbefore) hfits (hpost value rfl)
    exact ⟨hrel.trans hbefore hafter, hrest⟩

theorem bind (hrel : Follows allowed sight rel) {action : Effect α} {next : α → Effect β}
    {post : Nat → α → Prop} {post' : Nat → β → Prop} (h : action.Heeds allowed sight rel count post)
    (hnext : ∀ n value, sight.Lasts count n → post n value →
      (next value).Heeds allowed sight rel n post') :
    (action >>= next).Heeds allowed sight rel count post' := by
  intro world hcount hworld
  refine hrel.bindIn (h world hcount hworld) fun value after _ hlasts hafter hvalue => ?_
  exact hnext _ value (hcount.trans hlasts) hvalue after (.refl _ _) hafter

theorem changesIn (hrel : Follows allowed sight rel) {change : World → World} {world : World}
    (hworld : world.Fits allowed sight) (h : Act allowed sight world (change world)) :
    (modify change : Effect Unit).HeedsIn allowed sight rel world fun _ _ => True :=
  ⟨hrel.act h, h.fits hworld, fun _ _ => trivial⟩

theorem changes (hrel : Follows allowed sight rel) {change : World → World}
    (h : ∀ world, sight.Lasts count world.spaces.size → world.InSight sight →
      Act allowed sight world (change world)) :
    (modify change : Effect Unit).Stays allowed sight rel count :=
  fun world hcount hworld => hrel.changesIn hworld (h world hcount hworld.inSight)

theorem makes (hrel : Follows allowed sight rel) {change : World → α × World} {post : Nat → α → Prop}
    (h : ∀ world, sight.Lasts count world.spaces.size → world.InSight sight →
      Act allowed sight world (change world).2 ∧ post (change world).2.spaces.size (change world).1) :
    (modifyGet change : Effect α).Heeds allowed sight rel count post := by
  intro world hcount hworld
  obtain ⟨hact, hpost⟩ := h world hcount hworld.inSight
  refine ⟨hrel.act hact, hact.fits hworld, fun value hvalue => ?_⟩
  cases hvalue
  exact hpost

/-- A change of held things, of counted labels or of reports. -/
theorem notes (hrel : Follows allowed sight rel) {change : World → World}
    (h : ∀ world : World, world.Noted (change world) ∧ (change world).imports = world.imports ∧
      (change world).names.loaded = world.names.loaded ∧
        (change world).names.spaces = world.names.spaces) :
    (modify change : Effect Unit).Stays allowed sight rel count := by
  refine hrel.changes fun world _ hinSight => ?_
  obtain ⟨hnoted, himports, hloaded, hspaces⟩ := h world
  refine hinSight.act_noted hnoted himports (fun hgrounded hrows => ?_) fun row hrow => ?_
  · rw [hnoted]
    exact hgrounded (hloaded ▸ hrows)
  · exact .inl (hspaces ▸ hrow)

theorem reports (hrel : Follows allowed sight rel) (event : Event) :
    (report event).Stays allowed sight rel count :=
  hrel.notes fun _ => ⟨rfl, rfl, rfl, rfl⟩

theorem act_held {world : World} (hinSight : world.InSight sight) (held : List Holding) :
    Act allowed sight world { world with held } :=
  hinSight.act_noted rfl rfl id fun _ => .inl

theorem holds (hrel : Follows allowed sight rel) {action : Effect α} {post : Nat → α → Prop}
    (things : List Holding) (h : action.Heeds allowed sight rel count post) :
    (holding things action).Heeds allowed sight rel count post := by
  intro world hcount hworld
  let held : World := { world with held := things ++ world.held }
  have hheld : Act allowed sight world held := act_held hworld.inSight _
  obtain ⟨hafter, hfits, hpost⟩ := h held hcount (hheld.fits hworld)
  unfold HeedsIn
  rw [outcome_holding]
  have hleft : Act allowed sight (action.outcome held).2
      { (action.outcome held).2 with held := world.held } := act_held hfits.inSight _
  refine ⟨?_, hleft.fits hfits, hpost⟩
  exact hrel.trans (hrel.act hheld) (hrel.trans hafter (hrel.act hleft))

/-- What a table has is found in it. -/
theorem finds (hrel : Follows allowed sight rel) {post : Nat → α → Prop} (name : String)
    {found : Option α} (h : ∀ n value, sight.Lasts count n → found = some value → post n value) :
    (bound name found).Heeds allowed sight rel count post := by
  cases found with
  | some value => exact hrel.gives fun n hn => h n value hn rfl
  | none => exact hrel.throws _

end Follows

theorem Effect.Stays.attempt {action : Effect α} (h : action.Stays allowed sight rel count) :
    action.attempt.Stays allowed sight rel count := by
  intro world hcount hworld
  obtain ⟨hafter, hfits, -⟩ := h world hcount hworld
  unfold HeedsIn
  rw [outcome_attempt]
  rcases houtcome : action.outcome world with ⟨fault | value, after⟩ <;>
    rw [houtcome] at hafter hfits
  · cases fault <;> exact ⟨hafter, hfits, fun _ _ => trivial⟩
  · exact ⟨hafter, hfits, fun _ _ => trivial⟩

theorem Effect.Heeds.stays {action : Effect α} {post : Nat → α → Prop}
    (h : action.Heeds allowed sight rel count post) : action.Stays allowed sight rel count := by
  intro world hcount hworld
  obtain ⟨hafter, hfits, -⟩ := h world hcount hworld
  exact ⟨hafter, hfits, fun _ _ => trivial⟩

theorem Effect.Heeds.mono {action : Effect α} {post : Nat → α → Prop} {later : Nat}
    (h : action.Heeds allowed sight rel count post) (hlasts : sight.Lasts count later) :
    action.Heeds allowed sight rel later post :=
  fun world hcount => h world (hlasts.trans hcount)

/-! ### Names, values and terms -/

theorem stays_moduleNamed (hrel : Follows allowed sight rel) (name : String) :
    (moduleNamed name).Stays allowed sight rel count :=
  hrel.bind hrel.reads fun _ _ _ _ => hrel.finds _ fun _ _ _ _ => trivial

theorem stays_scope_module (hrel : Follows allowed sight rel) (scope : Scope) (name : Option String) :
    (scope.module name).Stays allowed sight rel count := by
  unfold Scope.module
  split
  · exact stays_moduleNamed hrel _
  · exact hrel.throws _

/-- The namespace that a term stands for is in sight. -/
theorem heeds_find (hrel : Follows allowed sight rel) (term : NamespaceTerm) :
    term.find.Heeds allowed sight rel count sight.sees := by
  cases term with
  | named name =>
    refine hrel.bind hrel.reads ?_
    rintro _ world - ⟨rfl, hworld⟩
    refine hrel.finds name fun n ref hn hfound => ?_
    obtain ⟨row, hrow, rfl⟩ := Option.map_eq_some_iff.mp hfound
    exact hn _ (hworld.inSight.named row (List.mem_of_find?_eq_some hrow))
  | exportsOf name =>
    refine hrel.bind (stays_moduleNamed hrel name) fun _ module _ _ => ?_
    refine hrel.bind hrel.reads ?_
    rintro _ world - ⟨rfl, hworld⟩
    exact hrel.gives fun n hn => hn _ (hworld.inSight.exports module)

theorem stays_findBinding (hrel : Follows allowed sight rel) (name : String) :
    (findBinding name).Stays allowed sight rel count := by
  intro world _ hworld
  change rel world (world.bindingNamed name).2 ∧ (world.bindingNamed name).2.Fits allowed sight ∧ _
  unfold World.bindingNamed
  split
  · exact ⟨hrel.refl world, hworld, fun _ _ => trivial⟩
  · have hnew : Act allowed sight world (world.newBinding none).2 :=
      hworld.inSight.act_newBinding Sight.shows_nil
    have hnamed : Act allowed sight (world.newBinding none).2 ((world.newBinding none).2.updateNames
        fun names => { names with bindings := names.bindings.put name (world.newBinding none).1 }) :=
      hnew.inSight.act_noted rfl rfl id fun _ => .inl
    exact ⟨hrel.trans (hrel.act hnew) (hrel.act hnamed), hnamed.fits (hnew.fits hworld),
      fun _ _ => trivial⟩

/-- A term's value is in sight where what was received is. -/
theorem heeds_evaluate (hrel : Follows allowed sight rel) {scope : Scope}
    (hscope : sight.Shows count scope.holdings) (term : ValueTerm) :
    (term.evaluate scope).Heeds allowed sight rel count fun n value => sight.Shows n value.holdings := by
  cases term with
  | space term =>
    refine hrel.bind (heeds_find hrel term) fun n ref _ hsees => ?_
    exact hrel.gives fun later hlater => Sight.shows_space.mpr (hlater _ hsees)
  | binding name =>
    refine hrel.bind (stays_findBinding hrel name) fun _ ref _ _ => ?_
    refine hrel.bind hrel.reads ?_
    rintro _ world - ⟨rfl, hworld⟩
    refine hrel.gives fun n hn => ?_
    cases hvalue : world.binding ref with
    | some value => exact (hworld.inSight.binding hvalue).mono hn
    | none => exact Sight.shows_nil
  | receivedValue =>
    refine hrel.finds _ fun n value hn hfound => ?_
    obtain ⟨received, hreceived, rfl⟩ := Option.map_eq_some_iff.mp hfound
    refine Sight.Shows.mono (fun ref hmem => hscope ref ?_) hn
    rw [Scope.holdings, hreceived]
    exact List.mem_flatMap.mpr ⟨received, List.mem_singleton.mpr rfl, hmem⟩
  | receivedName =>
    refine hrel.finds _ fun n value hn hfound => ?_
    obtain ⟨received, -, rfl⟩ := Option.map_eq_some_iff.mp hfound
    exact Sight.shows_nil
  | _ => exact hrel.gives fun _ _ => Sight.shows_nil

/-- A new namespace is in sight. -/
theorem heeds_newSpace (hrel : Follows allowed sight rel) (isModule : Bool) :
    (modifyGet (·.newSpace isModule) : Effect NamespaceRef).Heeds allowed sight rel count
      sight.sees := by
  refine hrel.makes fun world _ hinSight => ⟨hinSight.act_newSpace isModule, ?_⟩
  rw [show (world.newSpace isModule).2.spaces.size = world.spaces.size + 1 from Store.size_add ..]
  exact sight.fresh hinSight.start

/-- A namespace in sight may be given a name. -/
theorem stays_nameOfSpace (hrel : Follows allowed sight rel) {ref : NamespaceRef}
    (href : sight.sees count ref) :
    (modifyGet (·.nameOfSpace ref) : Effect String).Stays allowed sight rel count := by
  refine hrel.makes fun world hcount hinSight => ⟨?_, trivial⟩
  unfold World.nameOfSpace
  split
  · exact hinSight.act_noted rfl rfl id fun _ => .inl
  · refine hinSight.act_noted rfl rfl id fun row hrow => ?_
    refine (Table.mem_rows_put hrow).imp_right fun hnew => ?_
    rw [hnew]
    exact hcount _ href

theorem stays_showValue (hrel : Follows allowed sight rel) {value : Value}
    (hvalue : sight.Shows count value.holdings) : (showValue value).Stays allowed sight rel count := by
  cases value with
  | space ref =>
    refine hrel.bind (stays_nameOfSpace hrel (Sight.shows_space.mp hvalue)) fun _ _ _ _ => ?_
    exact hrel.done
  | _ => exact hrel.done

theorem stays_showOptional (hrel : Follows allowed sight rel) {value : Option Value}
    (hvalue : sight.Shows count (value.toList.flatMap Value.holdings)) :
    (showOptional value).Stays allowed sight rel count := by
  cases value with
  | some value =>
    refine hrel.bind (stays_showValue hrel ?_) fun _ _ _ _ => hrel.done
    exact Sight.shows_flatMap.mp hvalue value (List.mem_singleton.mpr rfl)
  | none => exact hrel.done

theorem stays_showValues (hrel : Follows allowed sight rel) {rows : List (String × Value)}
    (hrows : ∀ row ∈ rows, sight.Shows count row.2.holdings) :
    (showValues rows).Stays allowed sight rel count := by
  induction rows generalizing count with
  | nil => exact hrel.done
  | cons row rest ih =>
    obtain ⟨hrow, hrest⟩ := List.forall_mem_cons.mp hrows
    refine hrel.bind (stays_showValue hrel hrow) fun n _ hn _ => ?_
    refine hrel.bind (ih fun row hmem => (hrest row hmem).mono hn) fun _ _ _ _ => hrel.done

/-- The source of a provider runs the lines of its term, and is in sight. -/
theorem heeds_source (hrel : Follows allowed sight rel) {scope : Scope}
    (hscope : sight.Shows count scope.holdings) (term : ProviderTerm) :
    (term.source scope).Heeds allowed sight rel count fun n source =>
      source.lines = term.lines ∧ sight.Shows n source.holdings := by
  cases term with
  | value term =>
    refine hrel.bind (heeds_evaluate hrel hscope term) fun _ _ _ hvalue => ?_
    exact hrel.gives fun n hn => ⟨rfl, hvalue.mono hn⟩
  | binding name =>
    refine hrel.bind (stays_findBinding hrel name) fun _ _ _ _ => ?_
    exact hrel.gives fun n hn => ⟨rfl, by simp [Sight.Shows, Source.holdings]⟩
  | failing => exact hrel.gives fun _ _ => ⟨rfl, Sight.shows_nil⟩
  | _ => exact hrel.gives fun n hn => ⟨rfl, hscope.mono hn⟩

theorem stays_newProviders (hrel : Follows allowed sight rel) {scope : Scope}
    (hscope : sight.Shows count scope.holdings) {terms : List (NameTerm × ProviderTerm)}
    (hterms : Program.Confined allowed (terms.flatMap fun row => row.2.lines)) :
    (newProviders scope terms).Stays allowed sight rel count := by
  induction terms generalizing count with
  | nil => exact hrel.done
  | cons row rest ih =>
    rw [List.flatMap_cons, Program.confined_append] at hterms
    refine hrel.bind (heeds_source hrel hscope row.2) ?_
    rintro n source hn ⟨hlines, hsource⟩
    have hmakes : (modifyGet (·.newProvider source) : Effect ProviderRef).Stays allowed sight rel n :=
      hrel.makes fun world hcount hinSight =>
        ⟨hinSight.act_newProvider (hlines ▸ hterms.1) (hsource.mono hcount), trivial⟩
    refine hrel.bind hmakes fun later _ hlater _ => ?_
    exact hrel.bind (ih (hscope.mono (hn.trans hlater)) hterms.2) fun _ _ _ _ => hrel.done

/-- A consumer runs the lines of its term, and is in sight. -/
theorem heeds_consumer (hrel : Follows allowed sight rel) {scope : Scope}
    (hscope : sight.Shows count scope.holdings) (term : ConsumerTerm) :
    (term.consumer scope).Heeds allowed sight rel count fun n consumer =>
      consumer.lines = term.lines ∧ sight.Shows n consumer.holdings := by
  cases term with
  | assign name =>
    refine hrel.bind (stays_findBinding hrel name) fun _ _ _ _ => ?_
    exact hrel.gives fun n hn => ⟨rfl, by simp [Sight.Shows, Consumer.holdings]⟩
  | copyInto space =>
    refine hrel.bind (heeds_find hrel space) fun _ ref _ hsees => ?_
    exact hrel.gives fun n hn => ⟨rfl, Sight.shows_space.mpr (hn _ hsees)⟩
  | callback label lines => exact hrel.gives fun n hn => ⟨rfl, hscope.mono hn⟩

theorem heeds_newConsumers (hrel : Follows allowed sight rel) {scope : Scope}
    (hscope : sight.Shows count scope.holdings) {terms : List (NameTerm × ConsumerTerm)}
    (hterms : Program.Confined allowed (terms.flatMap fun row => row.2.lines)) :
    (newConsumers scope terms).Heeds allowed sight rel count fun n rows =>
      ∀ row ∈ rows, Program.Confined allowed row.2.lines ∧ sight.Shows n row.2.holdings := by
  induction terms generalizing count with
  | nil => exact hrel.gives fun _ _ _ h => absurd h List.not_mem_nil
  | cons row rest ih =>
    rw [List.flatMap_cons, Program.confined_append] at hterms
    refine hrel.bind (heeds_consumer hrel hscope row.2) ?_
    rintro n consumer hn ⟨hlines, hconsumer⟩
    refine hrel.bind (ih (hscope.mono hn) hterms.2) fun later rows hlater hrows => ?_
    refine hrel.gives fun last hlast => List.forall_mem_cons.mpr ⟨⟨?_, ?_⟩, fun row hrow => ?_⟩
    · exact hlines ▸ hterms.1
    · exact hconsumer.mono (hlater.trans hlast)
    · exact ⟨(hrows row hrow).1, (hrows row hrow).2.mono hlast⟩

theorem heeds_mapM_find (hrel : Follows allowed sight rel) (terms : List NamespaceTerm) :
    (terms.mapM NamespaceTerm.find).Heeds allowed sight rel count fun n refs =>
      ∀ ref ∈ refs, sight.sees n ref := by
  induction terms generalizing count with
  | nil => exact hrel.gives fun _ _ _ h => absurd h List.not_mem_nil
  | cons term rest ih =>
    rw [List.mapM_cons]
    refine hrel.bind (heeds_find hrel term) fun n ref hn hsees => ?_
    refine hrel.bind ih fun later refs hlater hrefs => ?_
    refine hrel.gives fun last hlast => List.forall_mem_cons.mpr ⟨?_, fun other hother => ?_⟩
    · exact hlast _ (hlater _ hsees)
    · exact hlast _ (hrefs other hother)

/-- The lines that the consumers of a registration run. -/
def Registration.lines (registration : Registration) : Program :=
  Consumer.linesOf (registration.consumers.getD .empty)

/-- What a registration leads to is in sight. -/
structure Registration.Fits (allowed : Command → Prop) (sight : Sight) (count : Nat)
    (registration : Registration) : Prop where
  lines : Program.Confined allowed registration.lines
  consumers : ∀ row ∈ (registration.consumers.getD .empty).rows, sight.Shows count row.2.holdings
  spaces : ∀ ref ∈ registration.spaces, sight.sees count ref

theorem Registration.Fits.mono {registration : Registration} {later : Nat}
    (h : registration.Fits allowed sight count) (hlasts : sight.Lasts count later) :
    registration.Fits allowed sight later where
  lines := h.lines
  consumers row hrow := (h.consumers row hrow).mono hlasts
  spaces ref href := hlasts _ (h.spaces ref href)

/-- What a subscription registers fits if the lines of the subscription are confined. -/
theorem heeds_subscription (hrel : Follows allowed sight rel) {scope : Scope}
    (hscope : sight.Shows count scope.holdings) {subscription : Subscription ConsumerTerm}
    (hlines : Program.Confined allowed subscription.lines) :
    (subscription.evaluate scope).Heeds allowed sight rel count fun n registration =>
      registration.Fits allowed sight n := by
  have hspaces {n : Nat} (consumers : Option (Table Consumer))
      (hconsumers : ∀ row ∈ (consumers.getD .empty).rows,
        Program.Confined allowed row.2.lines ∧ sight.Shows n row.2.holdings) :
      Effect.Heeds allowed sight rel n (do
        let spaces ← subscription.spaces.mapM NamespaceTerm.find
        return ({ consumers, key := subscription.key, spaces } : Registration))
        fun n registration => registration.Fits allowed sight n := by
    refine hrel.bind (heeds_mapM_find hrel _) fun later refs hlater hrefs => ?_
    refine hrel.gives fun last hlast => ⟨?_, fun row hrow => ?_, fun ref href => ?_⟩
    · exact Consumer.confined_linesOf.mpr fun row hrow => (hconsumers row hrow).1
    · exact (hconsumers row hrow).2.mono (hlater.trans hlast)
    · exact hlast _ (hrefs ref href)
  unfold Subscription.lines at hlines
  unfold Subscription.evaluate
  dsimp only
  split
  · next terms hterms =>
    rw [hterms] at hlines
    refine hrel.bind (heeds_newConsumers hrel hscope hlines) fun n rows hn hrows => ?_
    rw [pure_bind]
    refine hspaces _ fun row hrow => ?_
    exact hrows row ((Table.mem_rows_putAll hrow).resolve_left List.not_mem_nil)
  · rw [pure_bind]
    exact hspaces _ fun _ h => absurd h List.not_mem_nil

theorem stays_entry_find (hrel : Follows allowed sight rel) (term : EntryTerm) :
    term.find?.Stays allowed sight rel count := by
  cases term with
  | kept name => exact hrel.bind hrel.reads fun _ _ _ _ => hrel.done
  | ofNamespace term =>
    refine hrel.bind (heeds_find hrel term) fun _ _ _ _ => ?_
    exact hrel.bind hrel.reads fun _ _ _ _ => hrel.done

/-! ### Modules and their entries -/

theorem stays_ownedEntryFor (hrel : Follows allowed sight rel) {space : NamespaceRef}
    (hspace : sight.sees count space) (module : ModuleRef) :
    (modifyGet (·.ownedEntryFor space module) : Effect EntryRef).Stays allowed sight rel count := by
  intro world hcount hworld
  have hentry : Act allowed sight world (world.entryFor space).2 :=
    hworld.inSight.act_entryFor (hcount _ hspace)
  have howner : Act allowed sight (world.entryFor space).2 (world.ownedEntryFor space module).2 :=
    hentry.inSight.act_settleOwner _ module
  exact ⟨hrel.trans (hrel.act hentry) (hrel.act howner), howner.fits (hentry.fits hworld),
    fun _ _ => trivial⟩

theorem stays_claimExports (hrel : Follows allowed sight rel) (module : ModuleRef) :
    (modifyGet (·.claimExports module) : Effect EntryRef).Stays allowed sight rel count := by
  intro world _ hworld
  have hmarked : Act allowed sight world (world.markModule (world.module module).exports) :=
    hworld.inSight.act_markModule _
  have hfits := hmarked.fits hworld
  obtain ⟨howned, hclaimed, -⟩ := stays_ownedEntryFor hrel (hfits.inSight.exports module) module _
    (.refl _ _) hfits
  exact ⟨hrel.trans (hrel.act hmarked) howned, hclaimed, fun _ _ => trivial⟩

/-! ### Commands that leave the ledger alone -/

theorem Follows.silent (hrel : Follows allowed sight rel) {action : Effect Unit}
    (h : action.Stays allowed sight rel count) : (silently action).Stays allowed sight rel count :=
  hrel.bind h fun _ _ _ _ => hrel.done

theorem stays_withModule (hrel : Follows allowed sight rel) (scope : Scope) (name : Option String)
    {action : ModuleRef → Effect Answer}
    (h : ∀ n module, sight.Lasts count n → (action module).Stays allowed sight rel n) :
    (withModule scope name action).Stays allowed sight rel count :=
  hrel.bind (stays_scope_module hrel scope name) fun n module hn _ => hrel.holds _ (h n module hn)

theorem stays_withEntry (hrel : Follows allowed sight rel) (term : EntryTerm)
    {answer : EntryRef → Effect Answer}
    (h : ∀ n entry, sight.Lasts count n → (answer entry).Stays allowed sight rel n) :
    (withEntry term answer).Stays allowed sight rel count := by
  refine hrel.bind (stays_entry_find hrel term) fun n entry hn _ => ?_
  split
  · exact hrel.holds _ (h n _ hn)
  · exact hrel.done

theorem stays_createBinding (hrel : Follows allowed sight rel) {scope : Scope}
    (hscope : sight.Shows count scope.holdings) (name : String) (term : Option ValueTerm) :
    (createBinding scope name term).Stays allowed sight rel count := by
  have hmade {n : Nat} (value : Option Value)
      (hvalue : sight.Shows n (value.toList.flatMap Value.holdings)) :
      Effect.Stays allowed sight rel n (do
        let binding ← modifyGet (·.newBinding value)
        modify (·.updateNames fun names =>
          { names with bindings := names.bindings.put name binding }) : Effect Unit) := by
    have hnew : (modifyGet (·.newBinding value) : Effect BindingRef).Stays allowed sight rel n :=
      hrel.makes fun _ hcount hinSight => ⟨hinSight.act_newBinding (hvalue.mono hcount), trivial⟩
    exact hrel.bind hnew fun _ _ _ _ => hrel.notes fun _ => ⟨rfl, rfl, rfl, rfl⟩
  unfold createBinding
  dsimp only
  split
  · refine hrel.bind (heeds_evaluate hrel hscope _) fun _ value _ hvalue => ?_
    rw [pure_bind]
    exact hmade _ (by simpa using hvalue)
  · rw [pure_bind]
    exact hmade _ Sight.shows_nil

theorem stays_createImport (hrel : Follows allowed sight rel) (name specifier : String)
    (module : ModuleRef) : (createImport name specifier module).Stays allowed sight rel count := by
  have hnew : (modifyGet (·.newImport module specifier) : Effect ImportRef).Stays allowed sight rel
      count :=
    hrel.makes fun _ _ hinSight => ⟨hinSight.act_newImport module specifier, trivial⟩
  exact hrel.bind hnew fun _ _ _ _ => hrel.notes fun _ => ⟨rfl, rfl, rfl, rfl⟩

theorem stays_showModule (hrel : Follows allowed sight rel) (module : ModuleRef) :
    (showModule module).Stays allowed sight rel count := by
  refine hrel.bind hrel.reads ?_
  rintro _ world - ⟨rfl, hworld⟩
  refine hrel.bind (stays_nameOfSpace hrel (hworld.inSight.exports module)) fun _ _ _ _ => ?_
  exact hrel.bind hrel.reads fun _ _ _ _ => hrel.done

theorem stays_showNamespace (hrel : Follows allowed sight rel) (ref : NamespaceRef) :
    (showNamespace ref).Stays allowed sight rel count := by
  refine hrel.bind hrel.reads ?_
  rintro _ world - ⟨rfl, hworld⟩
  refine hrel.bind (stays_showValues hrel fun _ => hworld.inSight.member) fun _ _ _ _ => ?_
  exact hrel.bind hrel.reads fun _ _ _ _ => hrel.done

theorem stays_showBinding (hrel : Follows allowed sight rel) (name : String) :
    (showBinding name).Stays allowed sight rel count := by
  refine hrel.bind (stays_findBinding hrel name) fun _ ref _ _ => hrel.bind hrel.reads ?_
  rintro _ world - ⟨rfl, hworld⟩
  refine hrel.bind (stays_showOptional hrel ?_) fun _ _ _ _ => ?_
  · exact hworld.inSight.kept (.binding ref) nofun
  · exact hrel.bind hrel.reads fun _ _ _ _ => hrel.done

theorem stays_showEntry (hrel : Follows allowed sight rel) (entry : EntryRef) :
    (showEntry entry).Stays allowed sight rel count := by
  refine hrel.bind hrel.reads ?_
  rintro _ world - ⟨rfl, hworld⟩
  dsimp only
  split
  · next ref hspace =>
    have hsees : sight.sees world.spaces.size ref := by
      dsimp only [World.spaceOf?] at hspace
      split at hspace
      · exact Option.some.inj hspace ▸ hworld.inSight.entries entry
      · cases hspace
    refine hrel.bind (stays_nameOfSpace hrel hsees) fun _ _ _ _ => ?_
    rw [pure_bind]
    exact hrel.done
  · rw [pure_bind]
    exact hrel.done

theorem stays_openEntry (hrel : Follows allowed sight rel) (scope : Scope) (term : NamespaceTerm)
    (owner name : Option String) :
    (openEntry scope term owner name).Stays allowed sight rel count := by
  refine hrel.bind (heeds_find hrel term) fun n space _ hspace => ?_
  have hnamed {n : Nat} (name : String) (entry : EntryRef) : (modify (·.updateNames fun names =>
      { names with entries := names.entries.put name entry }) : Effect Unit).Stays allowed sight rel n :=
    hrel.notes fun _ => ⟨rfl, rfl, rfl, rfl⟩
  dsimp only
  split
  · refine hrel.bind (stays_scope_module hrel scope _) fun later module hlater _ => ?_
    refine hrel.bind (stays_ownedEntryFor hrel (hlater _ hspace) module) fun _ entry _ _ => ?_
    cases name with
    | some name => exact hnamed name entry
    | none => exact hrel.done
  · have hmade : (modifyGet (·.entryFor space) : Effect EntryRef).Stays allowed sight rel n :=
      hrel.makes fun _ hcount hinSight => ⟨hinSight.act_entryFor (hcount _ hspace), trivial⟩
    refine hrel.bind hmade fun _ entry _ _ => ?_
    cases name with
    | some name => exact hnamed name entry
    | none => exact hrel.done

/-- Whether a command has to do with what modules have provided and registered: it provides, registers,
asks or delivers, or it runs a module. -/
def Command.entersLedger : Command → Bool
  | .provide .. | .provideDefault .. | .watch .. | .importNow .. | .poll .. | .evaluate ..
  | .propagate .. | .addProviders .. | .addConsumers .. | .refresh .. | .deliver .. => true
  | _ => false

/-- A command that leaves the ledger alone heeds every sight, whatever callbacks would do. -/
theorem stays_perform_outside (hrel : Follows allowed sight rel) (run : Runner) {scope : Scope}
    (hscope : sight.Shows count scope.holdings) {command : Command}
    (hcommand : command.Confined allowed) (houtside : command.entersLedger = false) :
    (perform run scope command).Stays allowed sight rel count := by
  cases command with
  | createModule name id isEnabled =>
    have hnew : (modifyGet (·.newModule id isEnabled) : Effect ModuleRef).Stays allowed sight rel count :=
      hrel.makes fun _ _ hinSight => ⟨hinSight.act_newModule id isEnabled, trivial⟩
    exact hrel.silent (hrel.bind hnew fun _ _ _ _ => hrel.notes fun _ => ⟨rfl, rfl, rfl, rfl⟩)
  | enable name =>
    refine stays_withModule hrel scope name fun n module _ => ?_
    have henabled : (modifyGet (·.enable module) : Effect Bool).Stays allowed sight rel n :=
      hrel.makes fun _ _ hinSight => ⟨hinSight.act_enable module, trivial⟩
    exact hrel.bind henabled fun _ _ _ _ => hrel.done
  | showModule name => exact stays_withModule hrel scope name fun _ _ _ => stays_showModule hrel _
  | sameModule first second =>
    refine hrel.bind (stays_moduleNamed hrel first) fun _ _ _ _ => ?_
    exact hrel.bind (stays_moduleNamed hrel second) fun _ _ _ _ => hrel.done
  | setLoaded name loaded =>
    refine stays_withModule hrel scope name fun _ module _ => hrel.silent ?_
    exact hrel.changes fun _ _ hinSight => hinSight.act_setLoaded module loaded
  | setExports name term =>
    refine stays_withModule hrel scope name fun n module _ => ?_
    refine hrel.bind (heeds_find hrel term) fun _ space _ hspace => hrel.silent ?_
    exact hrel.changes fun _ hcount hinSight => hinSight.act_setExports module (hcount _ hspace)
  | importLater module specifier name =>
    exact stays_withModule hrel scope module fun _ _ _ => hrel.silent (stays_createImport hrel _ _ _)
  | fail error => exact hrel.fails error
  | createNamespace name =>
    refine hrel.silent (hrel.bind (heeds_newSpace hrel false) fun _ _ _ hspace => ?_)
    refine hrel.changes fun _ hcount hinSight => ?_
    exact hinSight.act_nameSpace name (hcount _ hspace)
  | nameNamespace name term =>
    refine hrel.bind (heeds_find hrel term) fun _ _ _ hspace => hrel.silent ?_
    exact hrel.changes fun _ hcount hinSight => hinSight.act_nameSpace name (hcount _ hspace)
  | dropModule name =>
    have hdropped : (modifyGet (·.dropModule name) : Effect Bool).Stays allowed sight rel count := by
      refine hrel.makes fun world _ hinSight => ⟨?_, trivial⟩
      refine hinSight.act_noted rfl rfl (fun hgrounded hrows => hgrounded fun hnone => hrows ?_)
        fun _ => .inl
      exact List.filter_eq_nil_iff.mpr (hnone ▸ nofun)
    exact hrel.bind hdropped fun _ _ _ _ => hrel.done
  | dropNamespace name =>
    have hdropped : (modifyGet (·.dropSpace name) : Effect Bool).Stays allowed sight rel count :=
      hrel.makes fun _ _ hinSight => ⟨hinSight.act_noted rfl rfl id fun _ hrow =>
        .inl (List.mem_filter.mp hrow).1, trivial⟩
    exact hrel.bind hdropped fun _ _ _ _ => hrel.done
  | dropEntry name =>
    have hdropped : (modifyGet (·.dropEntry name) : Effect Bool).Stays allowed sight rel count :=
      hrel.makes fun _ _ hinSight => ⟨hinSight.act_noted rfl rfl id fun _ => .inl, trivial⟩
    exact hrel.bind hdropped fun _ _ _ _ => hrel.done
  | sameNamespace first second =>
    refine hrel.bind (heeds_find hrel first) fun _ _ _ _ => ?_
    exact hrel.bind (heeds_find hrel second) fun _ _ _ _ => hrel.done
  | setMember term name value =>
    refine hrel.bind (heeds_find hrel term) fun _ _ hn hspace => ?_
    refine hrel.bind (heeds_evaluate hrel (hscope.mono hn) value) fun _ _ hlater hvalue => ?_
    refine hrel.silent (hrel.changes fun _ hcount hinSight => ?_)
    exact hinSight.act_setMember _ (hcount _ (hlater _ hspace)) (hvalue.mono hcount)
  | markModule term =>
    refine hrel.bind (heeds_find hrel term) fun _ _ _ _ => hrel.silent ?_
    exact hrel.changes fun _ _ hinSight => hinSight.act_markModule _
  | getMember term name =>
    refine hrel.bind (heeds_find hrel term) fun _ ref _ _ => hrel.bind hrel.reads ?_
    rintro _ world - ⟨rfl, hworld⟩
    refine hrel.bind (stays_showOptional hrel ?_) fun _ _ _ _ => hrel.done
    exact hworld.inSight.memberAt _ _
  | removeMember term name =>
    refine hrel.bind (heeds_find hrel term) fun _ ref _ hspace => hrel.bind hrel.reads ?_
    rintro _ world hn ⟨rfl, hworld⟩
    have hremoved : (modify (·.removeMember ref (name.evaluate scope)) : Effect Unit).Stays allowed
        sight rel world.spaces.size :=
      hrel.changes fun _ hcount hinSight => hinSight.act_removeMember _ (hcount _ (hn _ hspace))
    refine hrel.bind hremoved fun _ _ hlater _ => ?_
    refine hrel.bind (stays_showOptional hrel ?_) fun _ _ _ _ => hrel.done
    exact (hworld.inSight.memberAt _ _).mono hlater
  | hasMember term name | snapshot term =>
    refine hrel.bind (heeds_find hrel term) fun _ _ _ _ => ?_
    exact hrel.bind hrel.reads fun _ _ _ _ => hrel.done
  | showNamespace term =>
    exact hrel.bind (heeds_find hrel term) fun _ _ _ _ => stays_showNamespace hrel _
  | createBinding name term => exact hrel.silent (stays_createBinding hrel hscope name term)
  | setBinding name term =>
    refine hrel.bind (stays_findBinding hrel name) fun _ _ hn _ => ?_
    refine hrel.bind (heeds_evaluate hrel (hscope.mono hn) term) fun _ _ _ hvalue => hrel.silent ?_
    exact hrel.changes fun _ hcount hinSight => hinSight.act_setBinding _ (hvalue.mono hcount)
  | showBinding name => exact stays_showBinding hrel name
  | compare first second =>
    refine hrel.bind (heeds_evaluate hrel hscope first) fun _ _ hn _ => ?_
    exact hrel.bind (heeds_evaluate hrel (hscope.mono hn) second) fun _ _ _ _ => hrel.done
  | showValue term =>
    refine hrel.bind (heeds_evaluate hrel hscope term) fun _ _ _ _ => ?_
    exact hrel.bind hrel.reads fun _ _ _ _ => hrel.done
  | openEntry term owner name => exact hrel.silent (stays_openEntry hrel scope term owner name)
  | showEntry term => exact stays_withEntry hrel term fun _ _ _ => stays_showEntry hrel _
  | sameEntry first second =>
    have hmade {n : Nat} (space : NamespaceRef) (hspace : sight.sees n space) :
        (modifyGet (·.entryFor space) : Effect EntryRef).Stays allowed sight rel n :=
      hrel.makes fun _ hcount hinSight => ⟨hinSight.act_entryFor (hcount _ hspace), trivial⟩
    refine hrel.bind (heeds_find hrel first) fun _ space _ hspace => ?_
    refine hrel.bind (hmade space hspace) fun _ _ _ _ => ?_
    refine hrel.bind (heeds_find hrel second) fun _ space _ hspace => ?_
    exact hrel.bind (hmade space hspace) fun _ _ _ _ => hrel.done
  | ownedBy term name =>
    refine stays_withEntry hrel term fun _ _ _ => stays_withModule hrel scope name fun _ _ _ => ?_
    exact hrel.bind hrel.reads fun _ _ _ _ => hrel.done
  | markLoaded term =>
    refine stays_withEntry hrel term fun _ entry _ => hrel.silent ?_
    refine hrel.changes fun _ _ hinSight => ?_
    exact hinSight.act_markLoaded entry ⟨term, (Command.confined_iff.mp hcommand).1⟩
  | describeCallbacks => exact hrel.done
  | _ => cases houtside

end

end ModuleLinkage.Ledger
