import ModuleLinkage.Proofs.Ledger.Round

/-!
# Rules for commands

The commands of lowered modules, one rule each: assigning a variable (`meets_perform_setBinding`),
showing the values of a module (`meets_perform_propagate`), and what a consumer does with a value
(`meets_deliver_one`, `meets_respond_callback`). Holding on to things, looking up modules, working
out values and reporting change nothing that rounds are about, so the rules ask for what comes after
them in every world that is `World.Alike`.
-/

set_option autoImplicit false

namespace ModuleLinkage.Ledger

variable {run : Runner} {scope : Scope} {world : World} {allowed : Fault → Prop}

/-! ### The module of a command -/

/-- A command for a module that has a name runs with a hold on that module. -/
theorem meets_withModule {name : Option String} {id : String} {module : ModuleRef}
    {action : ModuleRef → Effect Answer} {post : Answer → World → Prop}
    (hname : (name <|> scope.current) = some id)
    (hmodule : world.names.modules.get? id = some module) :
    (withModule scope name action).Meets world post allowed ↔
      (action module).Meets { world with held := [.module module] ++ world.held }
        (fun answer after => post answer { after with held := world.held }) allowed := by
  simp only [withModule, Scope.module, hname, moduleNamed, Effect.meets_bind, Effect.meets_get,
    hmodule, Effect.meets_bound_some, Effect.meets_holding]

/-- What is meant by an effect that answers nothing. -/
@[simp] theorem meets_silently {action : Effect Unit} {post : Answer → World → Prop} :
    (silently action).Meets world post allowed ↔
      action.Meets world (fun _ after => post .done after) allowed := by
  simp only [silently, Effect.meets_bind, Effect.meets_pure]

/-! ### Entries that are there -/

namespace World

/-- Finding the entry of a namespace that has one, with an owner settled, changes nothing. -/
theorem alike_ownedEntryFor {space : NamespaceRef} {entry : EntryRef}
    (hentry : (world.space space).entry = some entry) (module : ModuleRef) :
    (world.ownedEntryFor space module).1 = entry ∧
      world.Alike (world.ownedEntryFor space module).2 := by
  simp only [ownedEntryFor, entryFor, hentry]
  exact ⟨trivial, alike_settleOwner world entry module⟩

/-- Marking a namespace that is a module's already changes nothing. -/
theorem alike_markModule {space : NamespaceRef} (hmodule : (world.space space).isModule = true) :
    world.Alike (world.markModule space) := by
  have hmembers (ref : NamespaceRef) :
      ((world.markModule space).space ref).members = (world.space ref).members :=
    Store.proj_get_update _ _ _ Namespace.members fun _ => rfl
  refine
    { toKeeps := { Keeps.refl world with
        spaceCount := Store.size_update ..
        isModule := fun ref => ?_
        entryOf := fun _ => Store.proj_get_update _ _ _ Namespace.entry fun _ => rfl }
      binding := fun _ => rfl
      batch := fun _ => rfl
      members := hmembers
      calls := rfl }
  change ((world.spaces.update _ _).get _).isModule = _
  rw [Store.get_update]
  split
  · next h =>
    have href : ref = space := by
      cases ref
      cases space
      simpa using h.1
    rw [href, hmodule]
  · rfl

/-- A module whose namespace has an entry and is known as a module's claims nothing new. -/
theorem alike_claimExports {module : ModuleRef} {entry : EntryRef}
    (hmodule : (world.space (world.module module).exports).isModule = true)
    (hentry : (world.space (world.module module).exports).entry = some entry) :
    (world.claimExports module).1 = entry ∧ world.Alike (world.claimExports module).2 := by
  have hmark := alike_markModule hmodule
  obtain ⟨hfound, halike⟩ := alike_ownedEntryFor ((hmark.entryOf _).trans hentry) module
  exact ⟨hfound, hmark.trans halike⟩

end World

/-! ### Showing the values of a module -/

section

variable {entry : EntryRef} {post : World → Prop}

/-- A round over the entry of a namespace, with a hold on both. -/
theorem meets_propagateFrom {space : NamespaceRef}
    (hentry : (world.space space).entry = some entry)
    (hround : ∀ start, world.Alike start → (propagate run entry).Meets start
      (fun _ after => ∀ last, after.Alike last → post last) allowed) :
    (propagateFrom run space).Meets world (fun _ after => post after) allowed := by
  simp only [propagateFrom, Effect.meets_bind, Effect.meets_get, hentry, propagateHeld,
    Effect.meets_holding]
  have hheld := (World.alike_held world ([.space space] ++ world.held)).trans
    (World.alike_held _ ([.entry entry] ++ ([.space space] ++ world.held)))
  refine (hround _ hheld).weaken fun _ after hafter => hafter _ ?_
  exact (World.alike_held after _).trans (World.alike_held _ _)

/-- Showing the values of a module is a round over its entry, and nothing else that matters. -/
theorem meets_propagateExports {module : ModuleRef}
    (hentry : (world.space (world.module module).exports).entry = some entry)
    (hround : ∀ start, world.Alike start → (propagate run entry).Meets start
      (fun _ after => start.Keeps after ∧ ∀ last, after.Alike last → post last) allowed) :
    (propagateExports run module).Meets world (fun _ after => post after) allowed := by
  simp only [propagateExports, Effect.meets_bind, Effect.meets_get]
  have hrule : (propagateFrom run (world.module module).exports).Meets world
      (fun _ after => world.Keeps after ∧ ∀ last, after.Alike last → post last) allowed := by
    refine meets_propagateFrom hentry fun start hstart => ?_
    refine (hround start hstart).weaken fun _ after hafter last hlast => ?_
    exact ⟨hstart.toKeeps.trans (hafter.1.trans hlast.toKeeps),
      fun final hfinal => hafter.2 final (hlast.trans hfinal)⟩
  refine hrule.weaken fun _ after hafter => ?_
  obtain ⟨hkeeps, hpost⟩ := hafter
  have hentry' : (after.space (world.module module).exports).entry = some entry :=
    (hkeeps.entryOf _).trans hentry
  obtain ⟨hfound, hsettled⟩ := World.alike_ownedEntryFor hentry' module
  split
  · simp only [Effect.meets_bind, Effect.meets_modifyGet, Effect.meets_get, hfound]
    split
    · exact Effect.meets_modify.mpr (hpost _ (hsettled.trans (World.alike_markLoaded _ _)))
    · exact (Effect.meets_pure _).mpr (hpost _ hsettled)
  · exact (Effect.meets_pure _).mpr (hpost _ (.refl after))

/-- The command that shows the values of a module. -/
theorem meets_perform_propagate {name : Option String} {id : String} {module : ModuleRef}
    {term : ValueTerm} (hname : (name <|> scope.current) = some id)
    (hmodule : world.names.modules.get? id = some module)
    (hentry : (world.space (world.module module).exports).entry = some entry)
    (hterm : ∀ start, world.Alike start →
      (term.evaluate scope).Meets start (fun _ after => start.Alike after) allowed)
    (hround : ∀ start, world.Alike start → (propagate run entry).Meets start
      (fun _ after => start.Keeps after ∧ ∀ last, after.Alike last → post last) allowed) :
    (perform run scope (.propagate name term)).Meets world (fun _ after => post after) allowed := by
  simp only [perform, meets_withModule hname hmodule, Effect.meets_bind]
  have hheld := World.alike_held world ([.module module] ++ world.held)
  refine (hterm _ hheld).weaken fun value middle hmiddle => ?_
  have hbefore := hheld.trans hmiddle
  simp only [Effect.meets_holding]
  have hinner := hbefore.trans (World.alike_held middle (value.holdings ++ middle.held))
  have hentry' := (hinner.entryOf _).trans hentry
  rw [← hinner.module] at hentry'
  have hexports : (propagateExports run module).Meets
      { middle with held := value.holdings ++ middle.held }
      (fun _ after => ∀ last, after.Alike last → post last) allowed := by
    refine meets_propagateExports hentry' fun start hstart => ?_
    refine (hround start (hinner.trans hstart)).weaken fun _ after hafter => ⟨hafter.1, ?_⟩
    exact fun last hlast final hfinal => hafter.2 final (hlast.trans hfinal)
  refine hexports.weaken fun _ after hafter => ?_
  simp only [Effect.meets_pure]
  refine (meets_showValue value).weaken fun _ last hlast => hafter _ ?_
  exact ((World.alike_held after middle.held).trans hlast).trans (World.alike_held last _)

end

/-! ### Assigning variables -/

/-- The command that assigns a variable: its name leads to a variable, and that one is assigned a
value that the term may have. -/
theorem meets_perform_setBinding (isValue : Value → Prop) {name : String} {term : ValueTerm}
    {post : Answer → World → Prop}
    (hterm : ∀ start, world.Alike start → (term.evaluate scope).Meets start
      (fun value after => start.Alike after ∧ isValue value) allowed)
    (h : ∀ middle ref value, world.Alike middle → middle.names.bindings.get? name = some ref →
      isValue value → post .done (middle.setBinding ref value)) :
    (perform run scope (.setBinding name term)).Meets world post allowed := by
  simp only [perform, findBinding, Effect.meets_bind, Effect.meets_modifyGet, meets_silently,
    Effect.meets_modify]
  have hnamed := World.alike_bindingNamed world name
  refine (hterm _ hnamed).weaken fun value middle hmiddle => ?_
  refine h middle _ value (hnamed.trans hmiddle.1) ?_ hmiddle.2
  exact hmiddle.1.bindingNamed (World.get?_bindingNamed world name)

/-! ### Deliveries to one consumer -/

section

variable {batch : BatchRef} {name : String} {value : Value} {post : World → Prop}

/-- A batch that is not concerned with a name takes no notice of it. -/
theorem meets_deliver_none (hconcerned : (world.batch batch).concerned name = [])
    (h : post world) :
    (deliver run batch name value).Meets world (fun _ after => post after) allowed := by
  simp only [deliver, Effect.meets_bind, Effect.meets_get, hconcerned, List.isEmpty_nil, if_true,
    Effect.meets_pure]
  exact h

/-- A delivery to a batch without namespaces that has one consumer for the name. -/
theorem meets_deliver_one {slot : String} {consumer : Consumer}
    (hconcerned : (world.batch batch).concerned name = [(slot, consumer)])
    (hspaces : (world.batch batch).spaces = [])
    (hactive : (world.batch batch).isActive = true)
    (hseen : world.seen? batch slot name = some value → post world)
    (hnew : (consumer.respond run name value).Meets (world.handOver batch slot name value)
      (fun _ after => post after) allowed) :
    (deliver run batch name value).Meets world (fun _ after => post after) allowed := by
  have hwrite : world.writeThrough batch name value = world := by
    unfold World.writeThrough
    rw [hspaces]
  simp only [deliver, Effect.meets_bind, Effect.meets_get, hconcerned, List.isEmpty_cons,
    Bool.false_eq_true, if_false, Effect.meets_modify, hwrite, deliverToAll]
  refine meets_deliverTo hactive ?_ ?_
  · simpa using hseen
  · simpa using hnew

/-- A consumer that runs lines. Assumes: no error that the lines could meet is allowed. -/
theorem meets_respond_callback {label : Option String} {lines : List Line} {inner : Scope}
    (hallowed : ∀ error, ¬ allowed (.failed error))
    (h : ∀ start, world.Alike start →
      (run { inner with received := some (value, name) } "setter" lines).Meets start
        (fun _ after => post after) allowed) :
    ((Consumer.callback label lines inner).respond run name value).Meets world
      (fun _ after => post after) allowed := by
  cases label with
  | none => exact .reported hallowed (h world (.refl world))
  | some label =>
    simp only [Consumer.respond, Effect.meets_bind, Effect.meets_report]
    refine (meets_showValue value).weaken fun shown middle hmiddle => ?_
    have hstart := h _ (hmiddle.trans (World.alike_addEvent middle (.received label name shown)))
    have hreported := Effect.Meets.reported hallowed hstart
    rw [Effect.reported, Effect.meets_bind] at hreported
    exact hreported

end

end ModuleLinkage.Ledger
