import ModuleLinkage.Proofs.Ledger.ImportGraph.Progress

/-!
# Beginning to load a module

When the host loads a module for the first time it makes a record and a namespace for it, the body
begins by claiming an entry for that namespace, and its first line provides the module's variables.
`ImportGraph.Opened` says that the ledger is as before but for the new module, and
`ImportGraph.Opened.running` that linking then goes on with the body of that module running.
-/

set_option autoImplicit false

namespace ModuleLinkage.Ledger

namespace World

/-- The world in which a module has just been made for an id. -/
def created (world : World) (id : String) : World :=
  (world.newModule id true).2.updateNames fun names =>
    { names with
      modules := names.modules.put id ⟨world.modules.size⟩
      loaded := names.loaded.put id ⟨world.modules.size⟩ }

/-- Where a module that is made next will stand. -/
def nextPlace (world : World) : Place :=
  ⟨⟨world.modules.size⟩, ⟨world.spaces.size⟩, ⟨world.entries.size⟩⟩

/-- The world is as before but for a new module, which has no batches. -/
structure Opened (world after : World) (id : String) (place : Place) : Prop where
  host : after.host = world.host
  namesValid : NamesValid world.names.bindings world.bindings.size →
    NamesValid after.names.bindings after.bindings.size
  bindingNamed : ∀ {name ref}, world.names.bindings.get? name = some ref →
    after.names.bindings.get? name = some ref
  content : ∀ name, after.content name = world.content name
  loaded : ∀ other, after.loaded? other =
    if other = id then some place.module else world.loaded? other
  named : ∀ other, after.names.modules.get? other =
    if other = id then some place.module else world.names.modules.get? other
  module : ∀ {ref : ModuleRef}, ref.index < world.modules.size →
    after.module ref = world.module ref
  isModule : ∀ {ref : NamespaceRef}, ref.index < world.spaces.size →
    (after.space ref).isModule = (world.space ref).isModule
  entryOf : ∀ {ref : NamespaceRef}, ref.index < world.spaces.size →
    (after.space ref).entry = (world.space ref).entry
  spaceOf : ∀ {ref : EntryRef}, ref.index < world.entries.size →
    (after.entry ref).space = (world.entry ref).space
  batches : ∀ {ref : EntryRef}, ref.index < world.entries.size →
    (after.entry ref).batches = (world.entry ref).batches
  exported : ∀ {ref : EntryRef}, ref.index < world.entries.size →
    (after.entry ref).exported = (world.entry ref).exported
  source : ∀ {ref : ProviderRef}, ref.index < world.providers.size →
    (after.provider ref).source = (world.provider ref).source
  member : ∀ ref name, after.member? ref name = world.member? ref name
  batch : ∀ ref, after.batch ref = world.batch ref
  moduleCount : world.modules.size ≤ after.modules.size
  spaceCount : world.spaces.size ≤ after.spaces.size
  entryCount : world.entries.size ≤ after.entries.size
  batchCount : after.batches.size = world.batches.size
  providerCount : world.providers.size ≤ after.providers.size
  moduleFresh : world.modules.size ≤ place.module.index
  spaceFresh : world.spaces.size ≤ place.space.index
  entryFresh : world.entries.size ≤ place.entry.index
  places : after.Places id place
  isLoaded : (after.module place.module).isLoaded = false
  noBatches : (after.entry place.entry).batches = []

variable {world after : World} {id : String} {place : Place}

/-- What does not matter to rounds does not matter to a module that begins to load. -/
theorem Opened.alike_right (h : world.Opened after id place) {last : World}
    (halike : after.Alike last) : world.Opened last id place where
  host := halike.host.trans h.host
  namesValid hvalid := halike.namesValid (h.namesValid hvalid)
  bindingNamed hname := halike.bindingNamed (h.bindingNamed hname)
  content name := (halike.content name).trans (h.content name)
  loaded other := (halike.loaded? other).trans (h.loaded other)
  named other := by rw [halike.moduleNames, h.named]
  module href := (halike.module _).trans (h.module href)
  isModule href := (halike.isModule _).trans (h.isModule href)
  entryOf href := (halike.entryOf _).trans (h.entryOf href)
  spaceOf href := (halike.spaceOf _).trans (h.spaceOf href)
  batches href := (halike.batches _).trans (h.batches href)
  exported href := (halike.exported _).trans (h.exported href)
  source href := (halike.source _).trans (h.source href)
  member ref name := (halike.member? ref name).trans (h.member ref name)
  batch ref := (halike.batch ref).trans (h.batch ref)
  moduleCount := halike.modules ▸ h.moduleCount
  spaceCount := halike.spaceCount ▸ h.spaceCount
  entryCount := halike.entryCount ▸ h.entryCount
  batchCount := halike.batchCount.trans h.batchCount
  providerCount := halike.providerCount ▸ h.providerCount
  moduleFresh := h.moduleFresh
  spaceFresh := h.spaceFresh
  entryFresh := h.entryFresh
  places := halike.places_iff.mpr h.places
  isLoaded := by rw [halike.module, h.isLoaded]
  noBatches := (halike.batches _).trans h.noBatches

/-- The world in which a module that has just been made has an entry, still without an owner. -/
def claimed (world : World) (id : String) (held : List Holding) : World :=
  let start : World := { world.created id with held }
  let space := world.nextPlace.space
  ((start.markModule space).newEntry space).2.updateSpace space fun record =>
    { record with entry := some world.nextPlace.entry }

section

variable (world : World) (id : String) (held : List Holding)

theorem claimExports_created :
    ({ world.created id with held } : World).claimExports world.nextPlace.module =
      (world.nextPlace.entry,
        (world.claimed id held).settleOwner world.nextPlace.entry world.nextPlace.module) := by
  generalize hstart : ({ world.created id with held } : World) = start
  have hexports : (start.module world.nextPlace.module).exports = world.nextPlace.space := by
    rw [← hstart]
    exact congrArg Module.exports (Store.get_add_size world.modules _)
  have hspace : start.space world.nextPlace.space = ⟨.empty, false, none⟩ := by
    rw [← hstart]
    exact Store.get_add_size world.spaces _
  have hnone : ((start.markModule world.nextPlace.space).space world.nextPlace.space).entry =
      none := by
    have hproj : ((start.markModule world.nextPlace.space).space world.nextPlace.space).entry =
        (start.space world.nextPlace.space).entry :=
      Store.proj_get_update _ _ _ Namespace.entry fun _ => rfl
    rw [hproj, hspace]
  unfold claimExports ownedEntryFor entryFor
  rw [hexports]
  dsimp only
  rw [hnone]
  subst hstart
  rfl

/-- The namespaces are as before but for the new one, which is a module's and has an entry. -/
theorem space_claimed (ref : NamespaceRef) :
    (world.claimed id held).space ref =
      if ref = world.nextPlace.space then ⟨.empty, true, some world.nextPlace.entry⟩
      else world.space ref := by
  change (((world.spaces.add _).update _ _).update _ _).get _ = _
  by_cases href : ref = world.nextPlace.space
  · have hsize : world.nextPlace.space.index <
        (world.spaces.add ⟨.empty, false, none⟩).size := by
      rw [Store.size_add]
      exact Nat.lt_succ_self _
    rw [if_pos href, href, Store.get_update_self _ _ (by rw [Store.size_update]; exact hsize),
      Store.get_update_self _ _ hsize]
    change Namespace.mk ((world.spaces.add _).get world.spaces.size).members true _ = _
    rw [Store.get_add_size]
  · have hindex : ref.index ≠ world.nextPlace.space.index := by
      intro heq
      exact href (congrArg NamespaceRef.mk heq)
    have hsize : ref.index ≠ world.spaces.size := hindex
    rw [if_neg href, Store.get_update_of_ne _ _ hindex, Store.get_update_of_ne _ _ hindex,
      Store.get_add, if_neg hsize]
    rfl

/-- Claiming an entry for a module just made opens that module. Its entry has no slots. -/
theorem opened_claimExports :
    let claim := ({ world.created id with held } : World).claimExports world.nextPlace.module
    claim.1 = world.nextPlace.entry ∧ world.Opened claim.2 id world.nextPlace ∧
      (claim.2.entry world.nextPlace.entry).exported = [] := by
  rw [claimExports_created]
  have hsettled := alike_settleOwner (world.claimed id held) world.nextPlace.entry
    world.nextPlace.module
  have hspace := world.space_claimed id held
  have hold {ref : NamespaceRef} (href : ref.index < world.spaces.size) :
      (world.claimed id held).space ref = world.space ref := by
    rw [hspace, if_neg]
    rintro rfl
    exact Nat.lt_irrefl _ href
  have hnew : (world.claimed id held).space world.nextPlace.space =
      ⟨.empty, true, some world.nextPlace.entry⟩ := by
    rw [hspace, if_pos rfl]
  have hentry : (world.claimed id held).entry world.nextPlace.entry =
      ⟨world.nextPlace.space, none, false, .empty, []⟩ :=
    Store.get_add_size world.entries _
  have hentries {ref : EntryRef} (href : ref.index < world.entries.size) :
      (world.claimed id held).entry ref = world.entry ref :=
    Store.get_add_of_lt world.entries _ href
  have hmodule : (world.claimed id held).module world.nextPlace.module =
      ⟨id, world.nextPlace.space, false, true⟩ :=
    Store.get_add_size world.modules _
  have hspaces : (world.claimed id held).spaces.size = world.spaces.size + 1 := by
    change (((world.spaces.add _).update _ _).update _ _).size = _
    rw [Store.size_update, Store.size_update, Store.size_add]
  have hentryCount : (world.claimed id held).entries.size = world.entries.size + 1 :=
    Store.size_add ..
  have hmoduleCount : (world.claimed id held).modules.size = world.modules.size + 1 :=
    Store.size_add ..
  have hopened : world.Opened (world.claimed id held) id world.nextPlace :=
    { host := rfl
      namesValid := fun h => h
      bindingNamed := fun h => h
      content := fun _ => rfl
      loaded := fun other => Table.get?_put ..
      named := fun other => Table.get?_put ..
      module := fun href => Store.get_add_of_lt world.modules _ href
      isModule := fun href => by rw [hold href]
      entryOf := fun href => by rw [hold href]
      spaceOf := fun href => by rw [hentries href]
      batches := fun href => by rw [hentries href]
      exported := fun href => by rw [hentries href]
      source := fun _ => rfl
      member := fun ref name => by
        unfold member?
        rw [hspace]
        split
        · next href =>
          rw [href]
          change _ = (world.spaces.get world.spaces.size).members.get? name
          rw [Store.get_of_size_le _ (Nat.le_refl _)]
          rfl
        · rfl
      batch := fun _ => rfl
      moduleCount := by omega
      spaceCount := by omega
      entryCount := by omega
      batchCount := rfl
      providerCount := Nat.le_refl _
      moduleFresh := Nat.le_refl _
      spaceFresh := Nat.le_refl _
      entryFresh := Nat.le_refl _
      places :=
        { loaded := Table.get?_put_self ..
          named := Table.get?_put_self ..
          moduleId := by rw [hmodule]
          isEnabled := by rw [hmodule]
          exports := by rw [hmodule]
          isModule := by rw [hnew]
          entryOf := by rw [hnew]
          spaceOf := by rw [hentry]
          moduleLt := by rw [hmoduleCount]; exact Nat.lt_succ_self _
          spaceLt := by rw [hspaces]; exact Nat.lt_succ_self _
          entryLt := by rw [hentryCount]; exact Nat.lt_succ_self _ }
      isLoaded := by rw [hmodule]
      noBatches := by rw [hentry] }
  refine ⟨rfl, hopened.alike_right hsettled, ?_⟩
  rw [hsettled.exported, hentry]
  rfl

end

/-! ### Providing the variables -/

/-- Between two worlds there may be new providers, and nothing else that matters to rounds. -/
structure Supplied (before after : World) : Prop where
  opened : ∀ {world id place}, World.Opened world before id place → world.Opened after id place
  row : ∀ {row slot}, before.ProvidesRow row slot → after.ProvidesRow row slot
  exported : ∀ ref, (after.entry ref).exported = (before.entry ref).exported

namespace Supplied

theorem of_alike {before after : World} (h : before.Alike after) : before.Supplied after where
  opened hopened := hopened.alike_right h
  row := h.providesRow
  exported := h.exported

theorem trans {first second third : World} (h : first.Supplied second)
    (h' : second.Supplied third) : first.Supplied third where
  opened hopened := h'.opened (h.opened hopened)
  row hrow := h'.row (h.row hrow)
  exported ref := (h'.exported ref).trans (h.exported ref)

theorem newProvider (world : World) (source : Source) :
    world.Supplied (world.newProvider source).2 := by
  have hkept {ref : ProviderRef} (href : ref.index < world.providers.size) :
      (world.newProvider source).2.provider ref = world.provider ref :=
    Store.get_add_of_lt world.providers _ href
  have hsize : (world.newProvider source).2.providers.size = world.providers.size + 1 :=
    Store.size_add ..
  refine { opened := fun {first id place} h => ?_, row := fun {row slot} h => ?_,
           exported := fun _ => rfl }
  · have hcount := h.providerCount
    exact
      { h with
        source := fun href => by rw [hkept (Nat.lt_of_lt_of_le href hcount), h.source href]
        providerCount := by omega
        places := { h.places with } }
  · obtain ⟨ref, hsource, hname⟩ := h.binding
    exact
      { name := h.name
        isConstant := h.isConstant
        providerLt := hsize ▸ Nat.lt_succ_of_lt h.providerLt
        binding := ⟨ref, by rw [hkept h.providerLt, hsource], hname⟩ }

end Supplied

end World

/-- Making providers of the variables that a module exports. -/
theorem meets_newProviders {scope : Scope} {allowed : Fault → Prop} {world : World}
    (exports : List (String × String)) :
    (newProviders scope (exports.map fun row => (.fixed row.1, .binding row.2))).Meets world
      (fun rows after => world.Supplied after ∧
        List.Forall₂ (fun row provided => after.ProvidesRow row (provided.1, provided.2, false))
          exports rows) allowed := by
  induction exports generalizing world with
  | nil =>
    simp only [List.map_nil, newProviders, Effect.meets_pure]
    exact ⟨.of_alike (.refl world), .nil⟩
  | cons row rest ih =>
    simp only [List.map_cons, newProviders, ProviderTerm.source, findBinding, Effect.meets_bind,
      Effect.meets_modifyGet, Effect.meets_pure]
    have hnamed := World.alike_bindingNamed world row.2
    have hname := World.get?_bindingNamed world row.2
    generalize (world.bindingNamed row.2).1 = ref at hname
    generalize (world.bindingNamed row.2).2 = named at hnamed hname
    have hprovided := World.Supplied.newProvider named (.binding ref)
    have hrow : (named.newProvider (.binding ref)).2.ProvidesRow row
        (row.1, ⟨named.providers.size⟩, false) := by
      refine ⟨rfl, rfl, ?_, ref, ?_, hname⟩
      · change _ < (named.providers.add _).size
        rw [Store.size_add]
        exact Nat.lt_succ_self _
      · exact congrArg Provider.source (Store.get_add_size named.providers _)
    refine ih.weaken fun rows after hafter => ⟨?_, .cons (hafter.1.row hrow) hafter.2⟩
    exact (World.Supplied.of_alike hnamed).trans (hprovided.trans hafter.1)

/-- Providers put into an entry without slots are what the entry provides. -/
theorem World.Opened.addProviders {world before : World} {id : String} {place : Place}
    (h : world.Opened before id place) (hnone : (before.entry place.entry).exported = [])
    {rows : List (String × ProviderRef)} (hrows : (rows.map (·.1)).Nodup) :
    world.Opened (before.addProviders place.entry (.ofList rows) false) id place ∧
      ((before.addProviders place.entry (.ofList rows) false).entry place.entry).exported =
        rows.map fun row => (row.1, row.2, false) := by
  have hspaceOf (ref : EntryRef) :
      ((before.addProviders place.entry (.ofList rows) false).entry ref).space =
        (before.entry ref).space :=
    Store.proj_get_update _ _ _ Entry.space fun _ => rfl
  have hbatches (ref : EntryRef) :
      ((before.addProviders place.entry (.ofList rows) false).entry ref).batches =
        (before.entry ref).batches :=
    Store.proj_get_update _ _ _ Entry.batches fun _ => rfl
  have hsize : (before.addProviders place.entry (.ofList rows) false).entries.size =
      before.entries.size :=
    Store.size_update ..
  refine ⟨{ h with
    spaceOf := fun href => by rw [hspaceOf, h.spaceOf href]
    batches := fun href => by rw [hbatches, h.batches href]
    exported := fun {ref} href => ?_
    entryCount := hsize ▸ h.entryCount
    places := { h.places with
      spaceOf := (hspaceOf _).trans h.places.spaceOf
      entryLt := hsize ▸ h.places.entryLt }
    noBatches := (hbatches _).trans h.noBatches }, ?_⟩
  · have hne : ref.index ≠ place.entry.index :=
      Nat.ne_of_lt (Nat.lt_of_lt_of_le href h.entryFresh)
    rw [← h.exported href]
    exact congrArg Entry.exported (Store.get_update_of_ne before.entries _ hne)
  · have hslots : (before.entry place.entry).slots.rows = [] := List.map_eq_nil_iff.mp hnone
    have hget := Store.get_update_self before.entries (fun entry : Entry =>
      { entry with slots := entry.slots.putAll ((Table.ofList rows).rows.map fun row =>
        (row.1, ({ provider := row.2, isConstant := false, cached := none } : Slot))) })
      h.places.entryLt
    change Entry.exported (Store.get (before.entries.update _ _) _) = _
    rw [hget, Entry.exported, Table.rows_ofList hrows, Table.rows_putAll]
    · change List.map _ ((before.entry place.entry).slots.rows ++ _) = _
      rw [hslots, List.nil_append, List.map_map]
      rfl
    · rw [List.map_map]
      exact hrows
    · intro row _
      change row.1 ∉ (before.entry place.entry).slots.rows.map (·.1)
      rw [hslots]
      exact List.not_mem_nil

/-! ### The new module among the others -/

namespace World.Opened

variable {graph : ImportGraph} {world after : World} {id : String} {place : Place}

/-- A module that was there before stands where it stood. -/
theorem places_of_places (h : world.Opened after id place) (hnew : world.loaded? id = none)
    {other : String} {otherPlace : Place} (hplace : world.Places other otherPlace) :
    after.Places other otherPlace := by
  have hne : other ≠ id := by
    rintro rfl
    rw [hplace.loaded] at hnew
    cases hnew
  exact
    { loaded := by rw [h.loaded, if_neg hne, hplace.loaded]
      named := by rw [h.named, if_neg hne, hplace.named]
      moduleId := by rw [h.module hplace.moduleLt, hplace.moduleId]
      isEnabled := by rw [h.module hplace.moduleLt, hplace.isEnabled]
      exports := by rw [h.module hplace.moduleLt, hplace.exports]
      isModule := by rw [h.isModule hplace.spaceLt, hplace.isModule]
      entryOf := by rw [h.entryOf hplace.spaceLt, hplace.entryOf]
      spaceOf := by rw [h.spaceOf hplace.entryLt, hplace.spaceOf]
      moduleLt := Nat.lt_of_lt_of_le hplace.moduleLt h.moduleCount
      spaceLt := Nat.lt_of_lt_of_le hplace.spaceLt h.spaceCount
      entryLt := Nat.lt_of_lt_of_le hplace.entryLt h.entryCount }

/-- A module is the new one, or was there before. -/
theorem places_cases (h : world.Opened after id place) (hwired : graph.Wired world)
    (hnew : world.loaded? id = none) {other : String} {otherPlace : Place}
    (hplace : after.Places other otherPlace) :
    (other = id ∧ otherPlace = place) ∨ (other ≠ id ∧ world.Places other otherPlace) := by
  by_cases hsame : other = id
  · subst hsame
    exact .inl ⟨rfl, hplace.unique h.places⟩
  · have hloaded := hplace.loaded
    rw [h.loaded, if_neg hsame] at hloaded
    obtain ⟨-, before, hbefore⟩ := hwired.placed hloaded
    rw [hplace.unique (h.places_of_places hnew hbefore)]
    exact .inr ⟨hsame, hbefore⟩

/-- The batches of a module were there before. -/
theorem batches_cases (h : world.Opened after id place) (hwired : graph.Wired world)
    (hnew : world.loaded? id = none) {other : String} {otherPlace : Place} {batch : BatchRef}
    (hplace : after.Places other otherPlace)
    (hbatch : batch ∈ (after.entry otherPlace.entry).batches) :
    world.Places other otherPlace ∧ batch ∈ (world.entry otherPlace.entry).batches := by
  rcases h.places_cases hwired hnew hplace with ⟨rfl, rfl⟩ | ⟨-, hbefore⟩
  · rw [h.noBatches] at hbatch
    cases hbatch
  · rw [h.batches hbefore.entryLt] at hbatch
    exact ⟨hbefore, hbatch⟩

theorem subscribed_iff (h : world.Opened after id place) (hwired : graph.Wired world)
    (hnew : world.loaded? id = none) {shape : ModuleShape} {imp : Import} {batch : BatchRef} :
    after.Subscribed shape imp batch ↔ world.Subscribed shape imp batch := by
  constructor
  · rintro ⟨other, hplace, hbatch, hkey⟩
    obtain ⟨hbefore, hmem⟩ := h.batches_cases hwired hnew hplace hbatch
    exact ⟨other, hbefore, hmem, h.batch batch ▸ hkey⟩
  · rintro ⟨other, hplace, hbatch, hkey⟩
    refine ⟨other, h.places_of_places hnew hplace, ?_, ?_⟩
    · rw [h.batches hplace.entryLt]
      exact hbatch
    · rw [h.batch]
      exact hkey

/-- The form of the ledger is kept. Assumes: the new module provides its variables. -/
theorem wired (h : world.Opened after id place) (hgraph : graph.WellFormed)
    (hwired : graph.Wired world) (hnew : world.loaded? id = none) {shape : ModuleShape}
    (hshape : shape ∈ graph.modules) (hid : shape.id = id)
    (hprovides : after.Provides place.entry shape.exports) : graph.Wired after where
  host := h.host.trans hwired.host
  namesValid := h.namesValid hwired.namesValid
  placed {other module} hloaded := by
    rw [h.loaded] at hloaded
    by_cases hsame : other = id
    · subst hsame
      exact ⟨hid ▸ ImportGraph.mem_ids hshape, place, h.places⟩
    · rw [if_neg hsame] at hloaded
      obtain ⟨hmem, before, hbefore⟩ := hwired.placed hloaded
      exact ⟨hmem, before, h.places_of_places hnew hbefore⟩
  apart {other other' otherPlace otherPlace'} hplace hplace' hspace := by
    -- The namespace of the new module is none of those that were there before.
    have hfresh {name : String} {before : Place} (hbefore : world.Places name before) :
        before.space ≠ place.space := by
      intro heq
      have hlt := hbefore.spaceLt
      rw [heq] at hlt
      exact absurd h.spaceFresh (Nat.not_le_of_lt hlt)
    rcases h.places_cases hwired hnew hplace with ⟨rfl, rfl⟩ | ⟨-, hbefore⟩ <;>
      rcases h.places_cases hwired hnew hplace' with ⟨rfl, rfl⟩ | ⟨-, hbefore'⟩
    · rfl
    · exact absurd hspace.symm (hfresh hbefore')
    · exact absurd hspace (hfresh hbefore)
    · exact hwired.apart hbefore hbefore' hspace
  provides {other otherPlace} hother hplace := by
    rcases h.places_cases hwired hnew hplace with ⟨hsame, rfl⟩ | ⟨-, hbefore⟩
    · obtain rfl := hgraph.eq_of_id hother hshape (hsame.trans hid.symm)
      exact hprovides
    · have hrows := hwired.provides hother hbefore
      unfold World.Provides at hrows ⊢
      rw [h.exported hbefore.entryLt]
      refine hrows.imp fun row slot hrow => ?_
      obtain ⟨ref, hsource, hname⟩ := hrow.binding
      exact ⟨hrow.name, hrow.isConstant, Nat.lt_of_lt_of_le hrow.providerLt h.providerCount, ref,
        by rw [h.source hrow.providerLt, hsource], h.bindingNamed hname⟩
  registered hplace hbatch := by
    obtain ⟨hbefore, hmem⟩ := h.batches_cases hwired hnew hplace hbatch
    obtain ⟨other, hother, imp, himp, hsource, ⟨otherPlace, hplaced⟩, hregistered⟩ :=
      hwired.registered hbefore hmem
    exact ⟨other, hother, imp, himp, hsource, ⟨otherPlace, h.places_of_places hnew hplaced⟩,
      hregistered.mono h.bindingNamed (Nat.le_of_eq h.batchCount.symm) (by rw [h.batch])⟩
  once hplace hbatch hbatch' hkey := by
    obtain ⟨hbefore, hmem⟩ := h.batches_cases hwired hnew hplace hbatch
    obtain ⟨-, hmem'⟩ := h.batches_cases hwired hnew hplace hbatch'
    rw [h.batch, h.batch] at hkey
    exact hwired.once hbefore hmem hmem' hkey

/-- After its variables are provided, the body of a new module is running, and none of its imports
has subscribed. -/
theorem running (h : world.Opened after id place) (hgraph : graph.WellFormed)
    (hsettled : graph.Settled world) (hnew : world.loaded? id = none) {shape : ModuleShape}
    (hshape : shape ∈ graph.modules) (hid : shape.id = id)
    (hprovides : after.Provides place.entry shape.exports) :
    graph.Running (fun _ => False) shape place [] after ∧ graph.Grows (· = id) world after := by
  have hwired := hsettled.wired
  have hsubscribed {other : ModuleShape} {imp : Import} {batch : BatchRef} :
      after.Subscribed other imp batch ↔ world.Subscribed other imp batch :=
    h.subscribed_iff hwired hnew
  have hmodule {other : String} {otherPlace : Place} (hplace : world.Places other otherPlace) :
      after.module otherPlace.module = world.module otherPlace.module :=
    h.module hplace.moduleLt
  have hcopy (copy : Copy) (name : String) : after.copy copy name = world.copy copy name := by
    cases copy with
    | space ref => exact h.member ref name
    | batch ref =>
      change World.seen? _ ref name name = World.seen? _ ref name name
      unfold World.seen?
      rw [h.batch]
  -- A copy of another module was there before; the new module has one that shows nothing.
  have hcopies {other : ModuleShape} {name : String} {copy : Copy}
      (hcopyOf : after.CopyOf other.id name copy) :
      (other.id ≠ id ∧ world.CopyOf other.id name copy) ∨ other.id = id ∧
        world.copy copy name = none := by
    obtain ⟨otherPlace, hplace, hcases⟩ := hcopyOf
    rcases h.places_cases hwired hnew hplace with ⟨hsame, rfl⟩ | ⟨hne, hbefore⟩
    · right
      rcases hcases with rfl | ⟨batch, hbatch, -⟩
      · refine ⟨hsame, ?_⟩
        change (world.spaces.get otherPlace.space.index).members.get? name = none
        rw [Store.get_of_size_le _ h.spaceFresh]
        rfl
      · rw [h.noBatches] at hbatch
        cases hbatch
    · left
      refine ⟨hne, otherPlace, hbefore, hcases.imp_right ?_⟩
      rintro ⟨batch, hbatch, rfl, hconcerned⟩
      refine ⟨batch, h.batches hbefore.entryLt ▸ hbatch, rfl, ?_⟩
      rwa [h.batch] at hconcerned
  have hafter : graph.Settled after :=
    { wired := h.wired hgraph hwired hnew hshape hid hprovides
      fed := fun hfeeds hsub => by
        have hfed := hsettled.fed hfeeds (hsubscribed.mp hsub)
        unfold World.IsFed World.seen? at hfed ⊢
        rw [h.content, hfed, h.batch]
      unfed := fun hfeeds hnone => by
        rw [h.content]
        exact hsettled.unfed hfeeds fun batch hsub => hnone batch (hsubscribed.mpr hsub)
      unset := fun hother hexport hcopyOf hnone => by
        rw [h.content] at hnone
        rw [hcopy]
        rcases hcopies hcopyOf with ⟨-, hbefore⟩ | ⟨-, hempty⟩
        · exact hsettled.unset hother hexport hbefore hnone
        · exact hempty
      imported := fun hother hplace hloaded imp himp => by
        rcases h.places_cases hwired hnew hplace with ⟨-, rfl⟩ | ⟨-, hbefore⟩
        · rw [h.isLoaded] at hloaded
          cases hloaded
        · rw [hmodule hbefore] at hloaded
          obtain ⟨batch, hbatch⟩ := hsettled.imported hother hbefore hloaded imp himp
          exact ⟨batch, hsubscribed.mpr hbatch⟩
      current := fun {other _} hother hplace hloaded _ {name target copy} hexport hcopyOf => by
        rcases h.places_cases hwired hnew hplace with ⟨-, rfl⟩ | ⟨hne, hbefore⟩
        · rw [h.isLoaded] at hloaded
          cases hloaded
        · rw [hmodule hbefore] at hloaded
          rcases hcopies hcopyOf with ⟨-, hcopyOf'⟩ | ⟨hsame, -⟩
          · have hcurrent := hsettled.current hother hbefore hloaded not_false hexport
              hcopyOf'
            unfold World.IsCurrent at hcurrent ⊢
            rw [hcopy, h.content, hcurrent]
          · exact absurd hsame hne }
  refine ⟨⟨hafter, hid ▸ h.places, h.isLoaded, fun imp himp => ?_⟩, ?_⟩
  · -- An import that had subscribed would belong to a module that was loaded.
    refine iff_of_false ?_ List.not_mem_nil
    rintro ⟨batch, hbatch⟩
    obtain ⟨⟨before, hbefore⟩, -⟩ :=
      hwired.registered_of_subscribed hgraph hshape himp (hsubscribed.mp hbatch)
    rw [hid] at hbefore
    rw [hbefore.loaded] at hnew
    cases hnew
  · exact
      { named := h.bindingNamed
        places := h.places_of_places hnew
        isLoaded := fun hplace _ => by rw [hmodule hplace]
        kept := hsubscribed.mpr
        subscribed := fun _ _ _ _ _ _ hsub => hsubscribed.mp hsub
        finished := fun hplace hown => by
          rcases h.places_cases hwired hnew hplace with ⟨hsame, -⟩ | ⟨-, hbefore⟩
          · exact absurd hsame hown
          · exact .inl hbefore }

end World.Opened

end ModuleLinkage.Ledger
