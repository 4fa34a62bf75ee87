import ModuleLinkage.Proofs.Ledger.DynamicImport.Rounds

/-!
# The namespace of a dynamic import

A dynamic import requests its module, makes a namespace, registers a batch for it at the entry of
the module's exports (`World.enrollView`), and begins a round over that entry. In the world in which
the round begins, the batch is at the entry, and nothing but the batch leads to the namespace, which
is empty (`World.Ready`).
-/

set_option autoImplicit false

namespace ModuleLinkage.Ledger

open Effect

namespace World

variable (world : World) (module : ModuleRef) (exports view : NamespaceRef)

/-- The entry at which a dynamic import registers its batch. -/
def exporterEntry : EntryRef × World :=
  (world.claimExports module).2.entryFor exports

/-- The batch that it registers there. -/
def viewBatch : BatchRef :=
  ⟨(world.exporterEntry module exports).2.batches.size⟩

/-- The world in which it has registered the batch. -/
def enrollView : World :=
  (world.exporterEntry module exports).2.addConsumers (world.exporterEntry module exports).1 module
    (Table.ofList [(everyName, .copyInto view)]) none [view]

theorem outcome_subscribe_view :
    (subscribe module exports
      { consumers := some (Table.ofList [(everyName, Consumer.copyInto view)])
        key := none, spaces := [view] }).outcome world =
      (.ok (), world.enrollView module exports view) := by
  simp only [subscribe, outcome_bind, outcome_modifyGet, outcome_modify]
  rw [World.enrollView, World.exporterEntry]

end World

variable {world : World} {module : ModuleRef} {exports view : NamespaceRef} {sight : Sight}
  {rel : World → World → Prop}

variable (module) in
/-- The entry is found or made by acts of every sight. -/
theorem follows_exporterEntry (hrel : Follows (fun _ => True) sight rel)
    (hworld : world.Fits (fun _ => True) sight) (hexports : sight.sees world.spaces.size exports) :
    rel world (world.exporterEntry module exports).2 ∧
      (world.exporterEntry module exports).2.Fits (fun _ => True) sight := by
  obtain ⟨hclaimed, hfits, -⟩ := stays_claimExports hrel module world (.refl _ _) hworld
  have hentered : Act (fun _ => True) sight (world.claimExports module).2
      (world.exporterEntry module exports).2 :=
    hfits.inSight.act_entryFor (hrel.lasts hclaimed _ hexports)
  exact ⟨hrel.trans hclaimed (hrel.act hentered), hentered.fits hfits⟩

variable (module view) in
/-- The batch is registered by acts of every sight in which the namespace is, or which has the batch
hide it. -/
theorem follows_enrollView (hrel : Follows (fun _ => True) sight rel)
    (hworld : world.Fits (fun _ => True) sight) (hexports : sight.sees world.spaces.size exports)
    (hview : ¬ sight.hides (world.viewBatch module exports) → sight.sees world.spaces.size view) :
    rel world (world.enrollView module exports view) ∧
      (world.enrollView module exports view).Fits (fun _ => True) sight := by
  obtain ⟨hentered, hfits⟩ := follows_exporterEntry module hrel hworld hexports
  have hlasts := hrel.lasts hentered
  have hadded : Act (fun _ => True) sight (world.exporterEntry module exports).2
      (world.enrollView module exports view) := by
    refine hfits.inSight.act_addConsumers _ module none (Program.confined_true _)
      (fun batch hbatch => ?_) fun hnew => ⟨fun row hrow => ?_, fun ref href => ?_⟩
    · obtain ⟨-, hkey, -⟩ := World.InOrder.mem_replacedBy.mp hbatch
      cases hkey
    · rw [List.mem_singleton.mp hrow]
      exact Sight.shows_space.mpr (hlasts _ (hview hnew))
    · rw [List.mem_singleton.mp href]
      exact hlasts _ (hview hnew)
  exact ⟨hrel.trans hentered (hrel.act hadded), hadded.fits hfits⟩

/-- A new namespace is hidden, as long as no batch has it. -/
theorem World.InSight.hidden_newSpace (h : world.InSight Sight.existing) (batch : BatchRef)
    (hview : (world.newSpace true).1.index ≠ 0) :
    (world.newSpace true).2.InSight (Sight.without (world.newSpace true).1 batch hview) := by
  have hne {ref : NamespaceRef} (hsees : Sight.existing.sees world.spaces.size ref) :
      ref ≠ (world.newSpace true).1 := by
    rintro rfl
    rcases hsees with hzero | hlt
    · exact hview hzero
    · exact Nat.lt_irrefl _ hlt
  refine ⟨Nat.le_of_eq (Store.size_add ..).symm, fun row hrow => hne (h.named row hrow),
    fun ref => hne (h.entries ref), fun thing _ ref hmem => hne (h.kept thing (fun _ _ => id) ref ?_)⟩
  cases thing with
  | space other =>
    obtain ⟨row, hrow, hmem⟩ := World.InSight.mem_holdings_space.mp hmem
    rw [World.InSight.members_newSpace] at hrow
    exact World.InSight.mem_holdings_space.mpr ⟨row, hrow, hmem⟩
  | _ => exact hmem

/-- Namespaces are made and never unmade, whatever acts there are. -/
theorem follows_grows : Follows (fun _ => True) Sight.all fun before after =>
    before.spaces.size ≤ after.spaces.size where
  refl _ := Nat.le_refl _
  trans := Nat.le_trans
  act h := h.move.grows
  lasts _ := .refl _ _

theorem grows_runner {depth : Nat} {scope : Scope} {label : String} {lines : Program}
    {outcome : Except Fault Unit} {after : World}
    (houtcome : (runner depth scope label lines).outcome world = (outcome, after)) :
    world.spaces.size ≤ after.spaces.size := by
  have hmarked {called marked : World} (entry : EntryRef) (h : called.spaces.size ≤ marked.spaces.size) :
      called.spaces.size ≤ (marked.markLoaded entry).spaces.size := h
  have hrun := heeds_runner follows_grows (fun _ => id) (fun _ _ _ _ entry _ _ _ h _ => hmarked entry h)
    depth
  obtain ⟨hgrown, -⟩ := (hrun.lines label (Program.confined_true lines) (Sight.shows_all 0 scope.holdings))
    world (fun _ _ => trivial) ⟨world.confined_true, world.inSight_all⟩
  rw [houtcome] at hgrown
  exact hgrown

/-- Where the host has found or made a module there are namespaces. -/
theorem spaces_of_load {depth : Nat} {name : String} {loaded : World} (hworld : world.Grounded)
    (houtcome : (load (runner depth) name).outcome world = (.ok exports, loaded)) :
    0 < loaded.spaces.size := by
  obtain ⟨_, _, hread, houtcome⟩ := exists_of_outcome_bind houtcome
  cases hread
  split at houtcome
  · next found hfound =>
    cases houtcome
    refine hworld fun hnone => ?_
    simp [World.loaded?, Table.get?, hnone] at hfound
  · split at houtcome
    · cases houtcome
    · obtain ⟨body, bodied, -, houtcome⟩ := exists_of_outcome_bind houtcome
      obtain ⟨module, made, hmade, houtcome⟩ := exists_of_outcome_bind houtcome
      obtain ⟨_, noted, hnoted, houtcome⟩ := exists_of_outcome_bind houtcome
      obtain ⟨_, held, hheld, houtcome⟩ := exists_of_outcome_bind houtcome
      obtain ⟨ran, hran, rfl⟩ := exists_of_outcome_holding hheld
      cases houtcome
      have hcount : made.spaces.size = bodied.spaces.size + 1 :=
        (Prod.mk.inj hmade).2 ▸ Store.size_add ..
      have hsame : noted.spaces = made.spaces := (Prod.mk.inj hnoted).2 ▸ rfl
      have hgrown := grows_runner hran
      dsimp only at hgrown
      rw [hsame, hcount] at hgrown
      exact Nat.lt_of_lt_of_le (Nat.succ_pos _) hgrown

theorem spaces_of_request {depth : Nat} {specifier : String} {requested : World} (hworld : world.Grounded)
    (houtcome : (request (runner depth) module specifier).outcome world = (.ok exports, requested)) :
    0 < requested.spaces.size := by
  obtain ⟨_, _, hread, houtcome⟩ := exists_of_outcome_bind houtcome
  cases hread
  dsimp only at houtcome
  split at houtcome
  · obtain ⟨_, _, hfails, -⟩ := exists_of_outcome_bind houtcome
    cases hfails
  · split at houtcome
    · exact spaces_of_load hworld houtcome
    · cases houtcome

/-- In the world the round of a dynamic import may begin: the batch is at the entry of the exports, and
nothing but the batch leads to the namespace, which is that of a module and empty. -/
structure World.Ready (batch : BatchRef) (view exports : NamespaceRef) (entry : EntryRef) (world : World) :
    Prop where
  conceals : ∃ hview, world.Conceals batch view hview .empty
  listed : batch ∈ (world.entry entry).batches
  entryOf : (world.space exports).entry = some entry
  isModule : (world.space view).isModule = true

theorem World.Ready.held {batch : BatchRef} {entry : EntryRef}
    (h : world.Ready batch view exports entry) (held : List Holding) :
    { world with held }.Ready batch view exports entry where
  conceals := h.conceals.imp fun _ hconceals => hconceals.held held
  listed := h.listed
  entryOf := h.entryOf
  isModule := h.isModule

/-- A namespace that is hidden and empty is ready once its batch is registered. -/
theorem ready_enrollView (hworld : world.Coherent) (hexports : exports.index < world.spaces.size)
    (hne : exports ≠ view) (hview : view.index ≠ 0) (hlt : view.index < world.spaces.size)
    (hhidden : world.InSight (Sight.without view (world.viewBatch module exports) hview))
    (hmembers : (world.space view).members = .empty) (hmodule : (world.space view).isModule = true) :
    world.Reaches (world.enrollView module exports view) ∧
      (world.enrollView module exports view).Ready (world.viewBatch module exports) view exports
        (world.exporterEntry module exports).1 := by
  have hsees : Sight.existing.sees world.spaces.size exports := .inr hexports
  obtain ⟨hclaimed, -⟩ := stays_claimExports follows_reaches module world (.refl _ _) hworld.inSight.fits
  obtain ⟨hentered, -⟩ := follows_exporterEntry module follows_reaches hworld.inSight.fits hsees
  obtain ⟨hreaches, -⟩ := follows_enrollView module view follows_reaches hworld.inSight.fits hsees
    fun _ => .inr hlt
  obtain ⟨hleft, hfits⟩ := follows_enrollView module view (follows_leavesView _ hview)
    ⟨world.confined_true, hhidden⟩ hne fun hhides => absurd rfl hhides
  have hentry : ((world.exporterEntry module exports).2.space exports).entry =
      some (world.exporterEntry module exports).1 :=
    World.entryOf_entryFor _ (Nat.lt_of_lt_of_le hexports hclaimed.spaceCount)
  obtain ⟨hplaced, -⟩ := (hentered.coherent hworld).attached hentry
  have hrenewed := (world.exporterEntry module exports).2.renewed_addConsumers
    (world.exporterEntry module exports).1 module (Table.ofList [(everyName, .copyInto view)]) none [view]
  refine ⟨hreaches, ⟨hview, hfits.inSight, ⟨?_, ?_, module, ?_⟩, hleft.2.trans hmembers⟩, ?_, ?_, ?_⟩
  · exact Nat.lt_of_lt_of_eq (Nat.lt_succ_self _) hrenewed.batchCount.symm
  · exact Nat.lt_of_lt_of_le hlt hreaches.spaceCount
  · exact congrArg Batch.registered hrenewed.added
  · rw [World.enrollView, hrenewed.listed hplaced]
    exact List.mem_append_right _ (List.mem_singleton.mpr rfl)
  · exact (hrenewed.entryOf exports).trans hentry
  · exact (hreaches.retains hworld).isModule view hmodule

/-- So is a namespace that has just been made, which no world before has had. -/
theorem ready_newSpace (hworld : world.Coherent) (hspaces : 0 < world.spaces.size)
    (hexports : Sight.existing.sees world.spaces.size exports) (module : ModuleRef) :
    world.Reaches ((world.newSpace true).2.enrollView module exports (world.newSpace true).1) ∧
      ((world.newSpace true).2.enrollView module exports (world.newSpace true).1).Ready
        ((world.newSpace true).2.viewBatch module exports) (world.newSpace true).1 exports
          ((world.newSpace true).2.exporterEntry module exports).1 := by
  have hmade : Act (fun _ => True) Sight.existing world (world.newSpace true).2 :=
    hworld.inSight.act_newSpace true
  have hcount : (world.newSpace true).2.spaces.size = world.spaces.size + 1 := Store.size_add ..
  have hspace : (world.newSpace true).2.space (world.newSpace true).1 = ⟨.empty, true, none⟩ :=
    (Store.get_add _ _ _).trans (if_pos rfl)
  have hview : (world.newSpace true).1.index ≠ 0 := Nat.ne_of_gt hspaces
  have hlt : exports.index < world.spaces.size := hexports.elim (fun hzero => hzero ▸ hspaces) id
  have hne : exports ≠ (world.newSpace true).1 := by
    rintro rfl
    exact Nat.lt_irrefl _ hlt
  obtain ⟨hreaches, hready⟩ := ready_enrollView (hmade.coherent hworld)
    (hcount ▸ Nat.lt_succ_of_lt hlt) hne hview (hcount ▸ Nat.lt_succ_self _)
    (hworld.inSight.hidden_newSpace ((world.newSpace true).2.viewBatch module exports) hview)
    (congrArg Namespace.members hspace) (congrArg Namespace.isModule hspace)
  exact ⟨(follows_reaches.act hmade).trans hreaches, hready⟩

end ModuleLinkage.Ledger
