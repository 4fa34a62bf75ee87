import ModuleLinkage.Proofs.Ledger.ImportGraph.Opening

/-!
# Subscribing to a module

An import of a running body subscribes under a key that no batch of the imported module has yet, so
that nothing is replaced: the module gets one more batch, which has seen nothing
(`World.addConsumers_fresh`). Until a round has run over it, the imported module is pending
(`ImportGraph.Running.subscribe`); after that the import counts as done
(`ImportGraph.Running.imported`).
-/

set_option autoImplicit false

namespace ModuleLinkage.Ledger

namespace World

/-- The world in which an entry has one more batch. -/
def withBatch (world : World) (entry : EntryRef) (batch : Batch) : World :=
  (world.newBatch batch).2.updateEntry entry fun record =>
    { record with batches := record.batches ++ [⟨world.batches.size⟩] }

/-- Under a key that no batch of the entry has, consumers are registered beside the others. -/
theorem addConsumers_fresh {world : World} {entry : EntryRef} {module : ModuleRef}
    {consumers : Table Consumer} {key : String} {spaces : List NamespaceRef}
    (hkey : ∀ batch ∈ (world.entry entry).batches,
      (world.batch batch).key ≠ some (scopedKey (world.module module).id key)) :
    world.addConsumers entry module consumers (some key) spaces =
      world.withBatch entry ⟨some (scopedKey (world.module module).id key), module, consumers,
        spaces, true, [], []⟩ := by
  have hreplaced : ((world.entry entry).batches.filter fun batch =>
      (some (scopedKey (world.module module).id key)).isSome &&
        (world.batch batch).key == some (scopedKey (world.module module).id key)) = [] := by
    rw [List.filter_eq_nil_iff]
    intro batch hbatch
    simpa using hkey batch hbatch
  have hkept (batches : List BatchRef) :
      (batches.filter fun batch => !([] : List BatchRef).contains batch) = batches := by
    simp
  unfold addConsumers withBatch
  simp only [Option.map_some, hreplaced, List.foldl_nil, hkept]
  rfl

section

variable (world : World) (entry : EntryRef) (record : Batch)

theorem batch_withBatch (batch : BatchRef) :
    (world.withBatch entry record).batch batch =
      if batch = ⟨world.batches.size⟩ then record else world.batch batch := by
  change (world.batches.add record).get batch.index = _
  rw [Store.get_add]
  cases batch
  simp only [BatchRef.mk.injEq]
  rfl

theorem batch_withBatch_of_lt {batch : BatchRef} (hlt : batch.index < world.batches.size) :
    (world.withBatch entry record).batch batch = world.batch batch := by
  rw [batch_withBatch, if_neg]
  rintro rfl
  exact Nat.lt_irrefl _ hlt

theorem batches_withBatch (hlt : entry.index < world.entries.size) (other : EntryRef) :
    ((world.withBatch entry record).entry other).batches =
      if other = entry then (world.entry entry).batches ++ [⟨world.batches.size⟩]
      else (world.entry other).batches := by
  change ((world.entries.update _ _).get _).batches = _
  rw [Store.get_update]
  cases other
  cases entry
  simp only [EntryRef.mk.injEq, and_iff_left hlt]
  split <;> rfl

theorem seen?_withBatch (hnew : record.seen = []) (batch : BatchRef) (slot name : String) :
    (world.withBatch entry record).seen? batch slot name = world.seen? batch slot name := by
  unfold seen?
  rw [batch_withBatch]
  split
  · next heq =>
    have hdefault : world.batch batch = default := by
      rw [heq]
      exact Store.get_of_size_le world.batches (Nat.le_refl _)
    rw [hnew, hdefault]
    rfl
  · rfl

variable {world entry record}

/-- One more batch does not change where modules stand. -/
theorem places_withBatch {id : String} {place : Place} :
    (world.withBatch entry record).Places id place ↔ world.Places id place := by
  have hspace (ref : EntryRef) :
      ((world.withBatch entry record).entry ref).space = (world.entry ref).space :=
    Store.proj_get_update _ _ _ Entry.space fun _ => rfl
  have hsize : (world.withBatch entry record).entries.size = world.entries.size :=
    Store.size_update ..
  constructor <;> intro h
  · exact
      { loaded := h.loaded, named := h.named, moduleId := h.moduleId, isEnabled := h.isEnabled
        exports := h.exports, isModule := h.isModule, entryOf := h.entryOf
        spaceOf := hspace _ ▸ h.spaceOf, moduleLt := h.moduleLt, spaceLt := h.spaceLt
        entryLt := hsize ▸ h.entryLt }
  · exact
      { loaded := h.loaded, named := h.named, moduleId := h.moduleId, isEnabled := h.isEnabled
        exports := h.exports, isModule := h.isModule, entryOf := h.entryOf
        spaceOf := (hspace _).trans h.spaceOf, moduleLt := h.moduleLt, spaceLt := h.spaceLt
        entryLt := hsize ▸ h.entryLt }

end

end World

namespace ImportGraph

variable {graph : ImportGraph} {world : World} {record : Batch} {id : String} {place : Place}

/-- The batches of a module, after one more was added to those of a module. -/
theorem mem_batches_withBatch (hwired : graph.Wired world) (hplace : world.Places id place)
    {other : String} {otherPlace : Place} (hother : world.Places other otherPlace)
    {batch : BatchRef} :
    batch ∈ ((world.withBatch place.entry record).entry otherPlace.entry).batches ↔
      batch ∈ (world.entry otherPlace.entry).batches ∨
        other = id ∧ batch = ⟨world.batches.size⟩ := by
  rw [World.batches_withBatch _ _ _ hplace.entryLt]
  by_cases hentry : otherPlace.entry = place.entry
  · have hspace : otherPlace.space = place.space := by
      rw [← hother.spaceOf, hentry, hplace.spaceOf]
    have hsame := hwired.apart hother hplace hspace
    rw [if_pos hentry, hentry, List.mem_append, List.mem_singleton]
    simp only [hsame, true_and]
  · have hne : other ≠ id := by
      rintro rfl
      exact hentry (congrArg Place.entry (hother.unique hplace))
    rw [if_neg hentry]
    simp only [hne, false_and, or_false]

/-- The batches that a module had before exist. -/
theorem Wired.batch_lt (hwired : graph.Wired world) (hplace : world.Places id place)
    {batch : BatchRef} (hbatch : batch ∈ (world.entry place.entry).batches) :
    batch.index < world.batches.size := by
  obtain ⟨_, _, _, _, _, _, hregistered⟩ := hwired.registered hplace hbatch
  exact hregistered.lt

end ImportGraph

namespace World

/-- The world is as before but for one more batch of a module, which has seen nothing. -/
structure Joined (world after : World) (id : String) (record : Batch) : Prop where
  host : after.host = world.host
  names : after.names = world.names
  modules : after.modules = world.modules
  spaces : after.spaces = world.spaces
  providers : after.providers = world.providers
  bindings : after.bindings = world.bindings
  places : ∀ {other place}, after.Places other place ↔ world.Places other place
  exported : ∀ ref, (after.entry ref).exported = (world.entry ref).exported
  batches : ∀ {other place batch}, world.Places other place →
    (batch ∈ (after.entry place.entry).batches ↔
      batch ∈ (world.entry place.entry).batches ∨ other = id ∧ batch = ⟨world.batches.size⟩)
  old : ∀ {batch : BatchRef}, batch.index < world.batches.size →
    after.batch batch = world.batch batch
  new : after.batch ⟨world.batches.size⟩ = record
  batchCount : after.batches.size = world.batches.size + 1
  seen : ∀ batch slot name, after.seen? batch slot name = world.seen? batch slot name

/-- A batch that has seen nothing joins those of a module. -/
theorem joined_withBatch {graph : ImportGraph} {world : World} (hwired : graph.Wired world)
    {id : String} {place : Place} (hplace : world.Places id place) {record : Batch}
    (hrecord : record.seen = []) :
    world.Joined (world.withBatch place.entry record) id record where
  host := rfl
  names := rfl
  modules := rfl
  spaces := rfl
  providers := rfl
  bindings := rfl
  places := places_withBatch
  exported _ := Store.proj_get_update _ _ _ Entry.exported fun _ => rfl
  batches hother := ImportGraph.mem_batches_withBatch hwired hplace hother
  old := batch_withBatch_of_lt world place.entry record
  new := by rw [batch_withBatch, if_pos rfl]
  batchCount := Store.size_add ..
  seen := seen?_withBatch world place.entry record hrecord

namespace Joined

variable {graph : ImportGraph} {world after : World} {id : String} {record : Batch}

theorem content (h : world.Joined after id record) (name : String) :
    after.content name = world.content name := by
  unfold World.content World.binding
  rw [h.names, h.bindings]

theorem module (h : world.Joined after id record) (ref : ModuleRef) :
    after.module ref = world.module ref := by
  unfold World.module
  rw [h.modules]

theorem copy (h : world.Joined after id record) (copy : Copy) (name : String) :
    after.copy copy name = world.copy copy name := by
  cases copy with
  | space ref =>
    change World.member? _ ref name = World.member? _ ref name
    unfold World.member? World.space
    rw [h.spaces]
  | batch ref => exact h.seen ref name name

/-- The new batch has seen nothing. -/
theorem seen_new (h : world.Joined after id record) (slot name : String) :
    after.seen? ⟨world.batches.size⟩ slot name = none := by
  rw [h.seen]
  unfold World.seen? World.batch
  rw [Store.get_of_size_le _ (Nat.le_refl _)]
  rfl

/-- A batch of a module had joined it before, or is the new one. -/
theorem batch_cases (h : world.Joined after id record) (hwired : graph.Wired world)
    {other : String} {place : Place} {batch : BatchRef} (hplace : world.Places other place)
    (hbatch : batch ∈ (after.entry place.entry).batches) :
    (batch ∈ (world.entry place.entry).batches ∧ after.batch batch = world.batch batch) ∨
      (other = id ∧ batch = ⟨world.batches.size⟩) := by
  rcases (h.batches hplace).mp hbatch with hold | hnew
  · exact .inl ⟨hold, h.old (hwired.batch_lt hplace hold)⟩
  · exact .inr hnew

/-- An import had subscribed before, or has done so with the new batch. -/
theorem subscribed_cases (h : world.Joined after id record) (hwired : graph.Wired world)
    {shape : ModuleShape} {imp : Import} {batch : BatchRef}
    (hsubscribed : after.Subscribed shape imp batch) :
    world.Subscribed shape imp batch ∨ (batch = ⟨world.batches.size⟩ ∧
      record.key = some (scopedKey shape.id imp.key.repr)) := by
  obtain ⟨place, hplace, hbatch, hkey⟩ := hsubscribed
  have hplace := h.places.mp hplace
  rcases h.batch_cases hwired hplace hbatch with ⟨hold, hsame⟩ | ⟨-, rfl⟩
  · rw [hsame] at hkey
    exact .inl ⟨place, hplace, hold, hkey⟩
  · rw [h.new] at hkey
    exact .inr ⟨rfl, hkey⟩

theorem subscribed_of_subscribed (h : world.Joined after id record) (hwired : graph.Wired world)
    {shape : ModuleShape} {imp : Import} {batch : BatchRef}
    (hsubscribed : world.Subscribed shape imp batch) : after.Subscribed shape imp batch := by
  obtain ⟨place, hplace, hbatch, hkey⟩ := hsubscribed
  refine ⟨place, h.places.mpr hplace, (h.batches hplace).mpr (.inl hbatch), ?_⟩
  rw [h.old (hwired.batch_lt hplace hbatch), hkey]

/-- A copy of an exported name was one before, or is the new batch. -/
theorem copyOf_cases (h : world.Joined after id record) (hwired : graph.Wired world)
    {other name : String} {copy : Copy} (hcopy : after.CopyOf other name copy) :
    world.CopyOf other name copy ∨ (other = id ∧ copy = .batch ⟨world.batches.size⟩) := by
  obtain ⟨place, hplace, rfl | ⟨batch, hbatch, rfl, hconcerned⟩⟩ := hcopy
  · exact .inl ⟨place, h.places.mp hplace, .inl rfl⟩
  · have hplace := h.places.mp hplace
    rcases h.batch_cases hwired hplace hbatch with ⟨hold, hsame⟩ | ⟨rfl, rfl⟩
    · rw [hsame] at hconcerned
      exact .inl ⟨place, hplace, .inr ⟨batch, hold, rfl, hconcerned⟩⟩
    · exact .inr ⟨rfl, rfl⟩

/-- The form of the ledger is kept. Assumes: the new batch is what an import has subscribed with,
and no other batch of the module has its key. -/
theorem wired (h : world.Joined after id record) (hwired : graph.Wired world) {shape : ModuleShape}
    {imp : Import} (hshape : shape ∈ graph.modules) (himp : imp ∈ shape.imports)
    (hid : imp.source = id) {place : Place} (hplace : world.Places shape.id place)
    (hregistered : after.Registered shape imp ⟨world.batches.size⟩)
    (hkey : ∀ {source batch}, world.Places id source →
      batch ∈ (world.entry source.entry).batches → (world.batch batch).key ≠ record.key) :
    graph.Wired after where
  host := h.host.trans hwired.host
  namesValid := by
    rw [h.names, h.bindings]
    exact hwired.namesValid
  placed {other module} hloaded := by
    have hloaded' : world.loaded? other = some module := by
      unfold World.loaded? at hloaded ⊢
      rwa [h.names] at hloaded
    obtain ⟨hmem, otherPlace, hother⟩ := hwired.placed hloaded'
    exact ⟨hmem, otherPlace, h.places.mpr hother⟩
  apart hplace hplace' := hwired.apart (h.places.mp hplace) (h.places.mp hplace')
  provides hother hplace := by
    have hrows := hwired.provides hother (h.places.mp hplace)
    unfold World.Provides at hrows ⊢
    rw [h.exported]
    refine hrows.imp fun row slot hrow => ?_
    obtain ⟨ref, hsource, hname⟩ := hrow.binding
    refine ⟨hrow.name, hrow.isConstant, ?_, ref, ?_, ?_⟩
    · rw [h.providers]
      exact hrow.providerLt
    · unfold World.provider at hsource ⊢
      rw [h.providers, hsource]
    · rw [h.names, hname]
  registered hother hbatch := by
    have hother := h.places.mp hother
    rcases h.batch_cases hwired hother hbatch with ⟨hold, hsame⟩ | ⟨rfl, rfl⟩
    · obtain ⟨shape', hshape', imp', himp', hsource, ⟨place', hplace'⟩, hregistered'⟩ :=
        hwired.registered hother hold
      refine ⟨shape', hshape', imp', himp', hsource, ⟨place', h.places.mpr hplace'⟩, ?_⟩
      refine hregistered'.mono (fun hname => ?_) ?_ (by rw [hsame])
      · rw [h.names]
        exact hname
      · rw [h.batchCount]
        exact Nat.le_succ _
    · exact ⟨shape, hshape, imp, himp, hid, ⟨place, h.places.mpr hplace⟩, hregistered⟩
  once {other otherPlace batch batch'} hother hbatch hbatch' heq := by
    have hother := h.places.mp hother
    rcases h.batch_cases hwired hother hbatch with ⟨hold, hsame⟩ | ⟨rfl, rfl⟩ <;>
      rcases h.batch_cases hwired hother hbatch' with ⟨hold', hsame'⟩ | ⟨hid', rfl⟩
    · rw [hsame, hsame'] at heq
      exact hwired.once hother hold hold' heq
    · subst hid'
      rw [hsame, h.new] at heq
      exact absurd heq (hkey hother hold)
    · rw [hsame', h.new] at heq
      exact absurd heq.symm (hkey hother hold')
    · rfl

end Joined

end World

namespace ImportGraph

variable {graph : ImportGraph} {world after : World} {place : Place}

/-- A running body subscribes with an import that has not subscribed: the imported module is pending
then. -/
theorem Running.subscribe (hgraph : graph.WellFormed) {shape : ModuleShape}
    {finished : List Import} (hshape : shape ∈ graph.modules)
    (h : graph.Running (fun _ => False) shape place finished world) {imp : Import}
    (himp : imp ∈ shape.imports) (hnot : imp ∉ finished) {source : Place}
    (hsource : world.Places imp.source source) {record : Batch}
    (hjoined : world.Joined after imp.source record)
    (hregistered : after.Registered shape imp ⟨world.batches.size⟩) :
    graph.Running (· = imp.source) shape place (imp :: finished) after ∧
      graph.Grows (· = shape.id) world after := by
  have hwired := h.sound.wired
  have hrecord : record.key = some (World.scopedKey shape.id imp.key.repr) := by
    rw [← hjoined.new]
    exact hregistered.key
  have hkey {other : Place} {batch : BatchRef} (hother : world.Places imp.source other)
      (hbatch : batch ∈ (world.entry other.entry).batches) :
      (world.batch batch).key ≠ record.key := by
    intro heq
    refine hnot ((h.subscribed imp himp).mp ⟨batch, other, hother, hbatch, ?_⟩)
    rw [heq, hrecord]
  have hsubscribedNew : after.Subscribed shape imp ⟨world.batches.size⟩ :=
    ⟨source, hjoined.places.mpr hsource, (hjoined.batches hsource).mpr (.inr ⟨rfl, rfl⟩),
      hregistered.key⟩
  -- With the new batch, no other import has subscribed.
  have hsubscribed {shape' : ModuleShape} {imp' : Import} {batch : BatchRef}
      (hshape' : shape' ∈ graph.modules) (himp' : imp' ∈ shape'.imports)
      (hsub : after.Subscribed shape' imp' batch) :
      world.Subscribed shape' imp' batch ∨
        (shape' = shape ∧ imp' = imp ∧ batch = ⟨world.batches.size⟩) := by
    rcases hjoined.subscribed_cases hwired hsub with hbefore | ⟨hbatch, heq⟩
    · exact .inl hbefore
    · obtain ⟨hid, hnumber⟩ := scopedKey_repr_inj (Option.some.inj (heq.symm.trans hrecord))
      obtain rfl := hgraph.eq_of_id hshape' hshape hid
      exact .inr ⟨rfl, hgraph.eq_of_key hshape' himp' himp hnumber, hbatch⟩
  have hkept {shape' : ModuleShape} {imp' : Import} {batch : BatchRef}
      (hsub : world.Subscribed shape' imp' batch) : after.Subscribed shape' imp' batch :=
    hjoined.subscribed_of_subscribed hwired hsub
  refine ⟨⟨?_, hjoined.places.mpr h.places, ?_, ?_⟩, ?_⟩
  · refine
      { wired := hjoined.wired hwired hshape himp rfl h.places hregistered hkey
        fed := ?_, unfed := ?_, unset := ?_, imported := ?_, current := ?_ }
    · intro shape' imp' name target batch hfeeds hsub
      unfold World.IsFed
      rw [hjoined.content]
      rcases hsubscribed hfeeds.shape_mem hfeeds.imp_mem hsub with hbefore | ⟨rfl, rfl, rfl⟩
      · rw [hjoined.seen]
        exact h.sound.fed hfeeds hbefore
      · rw [hjoined.seen_new]
        exact h.sound.unfed hfeeds fun batch hsub =>
          hnot ((h.subscribed imp' himp).mp ⟨batch, hsub⟩)
    · intro shape' imp' name target hfeeds hnone
      rw [hjoined.content]
      exact h.sound.unfed hfeeds fun batch hsub => hnone batch (hkept hsub)
    · intro shape' name target copy hshape' hexport hcopy hnone
      rw [hjoined.content] at hnone
      rcases hjoined.copyOf_cases hwired hcopy with hbefore | ⟨-, rfl⟩
      · rw [hjoined.copy]
        exact h.sound.unset hshape' hexport hbefore hnone
      · exact hjoined.seen_new name name
    · intro shape' place' hshape' hplace' hloaded imp' himp'
      rw [hjoined.module] at hloaded
      obtain ⟨batch, hbatch⟩ :=
        h.sound.imported hshape' (hjoined.places.mp hplace') hloaded imp' himp'
      exact ⟨batch, hkept hbatch⟩
    · intro shape' place' hshape' hplace' hloaded hpending name target copy hexport hcopy
      rw [hjoined.module] at hloaded
      rcases hjoined.copyOf_cases hwired hcopy with hbefore | ⟨hid, -⟩
      · have hcurrent := h.sound.current hshape' (hjoined.places.mp hplace') hloaded not_false
          hexport hbefore
        unfold World.IsCurrent at hcurrent ⊢
        rw [hjoined.copy, hjoined.content, hcurrent]
      · exact absurd hid hpending
  · rw [hjoined.module]
    exact h.isLoaded
  · intro imp' himp'
    rw [List.mem_cons, ← h.subscribed imp' himp']
    constructor
    · rintro ⟨batch, hbatch⟩
      rcases hsubscribed hshape himp' hbatch with hbefore | ⟨-, heq, -⟩
      · exact .inr ⟨batch, hbefore⟩
      · exact .inl heq
    · rintro (rfl | ⟨batch, hbatch⟩)
      · exact ⟨_, hsubscribedNew⟩
      · exact ⟨batch, hkept hbatch⟩
  · exact
      { named := fun hname => by rw [hjoined.names, hname]
        places := hjoined.places.mpr
        isLoaded := fun _ _ => by rw [hjoined.module]
        kept := hkept
        subscribed := fun hshape' hplace' hown imp' batch himp' hsub => by
          rcases hsubscribed hshape' himp' hsub with hbefore | ⟨rfl, -, -⟩
          · exact hbefore
          · exact absurd rfl hown
        finished := fun hplace' _ => .inl (hjoined.places.mp hplace') }

end ImportGraph

end ModuleLinkage.Ledger
