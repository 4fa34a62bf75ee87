import ModuleLinkage.Proofs.Ledger.Course.Stages
import ModuleLinkage.Proofs.Ledger.Replacement.Recording

/-!
# Worlds that are reached

A world reaches another one (`World.Reaches`) if acts lead there by which nothing gets to refer to a
namespace that does not exist. Whatever runs in a world that refers to existing namespaces only
reaches the world that it leaves (`World.InSight.leadsOn`), so a world is reached from a new one
whatever has run, and whatever is still running.

Things are never unmade (`World.Retains`): namespaces and entries stay, a namespace of a module
stays one, an entry stays with its namespace, and a batch that was registered without a key stays as
it was registered, at its entry. So it is from each world to every one that it reaches
(`World.Reaches.retains`).
-/

set_option autoImplicit false

namespace ModuleLinkage.Ledger

/-! ### What stays -/

/-- What was made in a world is there afterwards, and what was registered without a key. -/
structure World.Retains (before after : World) : Prop where
  spaceCount : before.spaces.size ≤ after.spaces.size
  entryCount : before.entries.size ≤ after.entries.size
  batchCount : before.batches.size ≤ after.batches.size
  isModule : ∀ ref, (before.space ref).isModule = true → (after.space ref).isModule = true
  entryOf : ∀ {ref entry}, (before.space ref).entry = some entry → (after.space ref).entry = some entry
  /-- An entry that a namespace comes to have is one for this namespace. -/
  attached : ∀ {ref entry}, (after.space ref).entry = some entry → (before.space ref).entry = some entry ∨
    entry.index < after.entries.size ∧ (after.entry entry).space = ref
  spaceOf : ∀ ref : EntryRef, ref.index < before.entries.size →
    (after.entry ref).space = (before.entry ref).space
  registered : ∀ ref : BatchRef, ref.index < before.batches.size → (before.batch ref).key = none →
    (after.batch ref).registered = (before.batch ref).registered
  listed : ∀ {entry batch}, batch ∈ (before.entry entry).batches → (before.batch batch).key = none →
    batch ∈ (after.entry entry).batches

namespace World.Retains

variable {first second third before after : World}

theorem refl (world : World) : world.Retains world where
  spaceCount := Nat.le_refl _
  entryCount := Nat.le_refl _
  batchCount := Nat.le_refl _
  isModule _ := id
  entryOf := id
  attached := .inl
  spaceOf _ _ := rfl
  registered _ _ _ := rfl
  listed h _ := h

theorem key (h : first.Retains second) {ref : BatchRef} (hlt : ref.index < first.batches.size)
    (hkey : (first.batch ref).key = none) : (second.batch ref).key = none :=
  (congrArg (·.1) (h.registered ref hlt hkey)).trans hkey

/-- A batch that is listed somewhere without a key exists. -/
theorem trans (h : first.Retains second) (h' : second.Retains third) (hfirst : first.InOrder) :
    first.Retains third where
  spaceCount := Nat.le_trans h.spaceCount h'.spaceCount
  entryCount := Nat.le_trans h.entryCount h'.entryCount
  batchCount := Nat.le_trans h.batchCount h'.batchCount
  isModule ref := h'.isModule ref ∘ h.isModule ref
  entryOf := h'.entryOf ∘ h.entryOf
  attached hentry := by
    rcases h'.attached hentry with hsecond | hnew
    · refine (h.attached hsecond).imp_right fun ⟨hlt, hspace⟩ => ?_
      exact ⟨Nat.lt_of_lt_of_le hlt h'.entryCount, (h'.spaceOf _ hlt).trans hspace⟩
    · exact .inr hnew
  spaceOf ref hlt :=
    (h'.spaceOf ref (Nat.lt_of_lt_of_le hlt h.entryCount)).trans (h.spaceOf ref hlt)
  registered ref hlt hkey :=
    (h'.registered ref (Nat.lt_of_lt_of_le hlt h.batchCount) (h.key hlt hkey)).trans
      (h.registered ref hlt hkey)
  listed hlisted hkey := h'.listed (h.listed hlisted hkey) (h.key (hfirst.lt hlisted) hkey)

/-- A change of none of the parts in which namespaces, entries and batches are. -/
theorem of_parts (hspaces : after.spaces = before.spaces) (hentries : after.entries = before.entries)
    (hbatches : after.batches = before.batches) : before.Retains after := by
  have hspace (ref : NamespaceRef) : after.space ref = before.space ref :=
    congrArg (Store.get · ref.index) hspaces
  have hentry (ref : EntryRef) : after.entry ref = before.entry ref :=
    congrArg (Store.get · ref.index) hentries
  have hbatch (ref : BatchRef) : after.batch ref = before.batch ref :=
    congrArg (Store.get · ref.index) hbatches
  exact
    { spaceCount := Nat.le_of_eq (congrArg Store.size hspaces).symm
      entryCount := Nat.le_of_eq (congrArg Store.size hentries).symm
      batchCount := Nat.le_of_eq (congrArg Store.size hbatches).symm
      isModule := fun ref => hspace ref ▸ id
      entryOf := fun {ref _} => hspace ref ▸ id
      attached := fun {ref _} => hspace ref ▸ .inl
      spaceOf := fun ref _ => congrArg Entry.space (hentry ref)
      registered := fun ref _ _ => congrArg Batch.registered (hbatch ref)
      listed := fun {entry _} hlisted _ => hentry entry ▸ hlisted }

/-- A change of namespaces that leaves their entries with them. -/
theorem of_spaces (hentries : after.entries = before.entries) (hbatches : after.batches = before.batches)
    (hcount : before.spaces.size ≤ after.spaces.size)
    (hmodule : ∀ ref, (before.space ref).isModule = true → (after.space ref).isModule = true)
    (hentryOf : ∀ ref, (after.space ref).entry = (before.space ref).entry) : before.Retains after := by
  have hrest : before.Retains { before with entries := after.entries, batches := after.batches } :=
    .of_parts rfl hentries hbatches
  exact
    { hrest with
      spaceCount := hcount
      isModule := hmodule
      entryOf := fun {ref _} h => (hentryOf ref).trans h
      attached := fun {ref _} h => .inl ((hentryOf ref).symm.trans h) }

/-- A change of one entry that leaves its namespace and its batches with it. -/
theorem updateEntry (world : World) (ref : EntryRef) {change : Entry → Entry}
    (hspace : ∀ entry, (change entry).space = entry.space)
    (hbatches : ∀ entry, (change entry).batches = entry.batches) :
    world.Retains (world.updateEntry ref change) :=
  { Retains.refl world with
    entryCount := Nat.le_of_eq (Store.size_update ..).symm
    attached := .inl
    spaceOf := fun _ _ => Store.proj_get_update _ _ _ Entry.space hspace
    listed := fun {entry batch} hlisted _ => by
      have hsame : ((world.updateEntry ref change).entry entry).batches = (world.entry entry).batches :=
        Store.proj_get_update _ _ _ Entry.batches hbatches
      exact hsame ▸ hlisted }

/-- A change that leaves everything registered as it is. -/
theorem of_keeps (h : before.Keeps after) : before.Retains after where
  spaceCount := Nat.le_of_eq h.spaceCount.symm
  entryCount := Nat.le_of_eq h.entryCount.symm
  batchCount := Nat.le_of_eq h.batchCount.symm
  isModule ref := (h.isModule ref).symm ▸ id
  entryOf := fun {ref _} hentry => (h.entryOf ref).trans hentry
  attached := fun {ref _} hentry => .inl ((h.entryOf ref).symm.trans hentry)
  spaceOf ref _ := h.spaceOf ref
  registered ref _ _ := h.registered ref
  listed := fun {entry _} hlisted _ => (h.batches entry).symm ▸ hlisted

variable (world : World)

/-- A namespace that is new has no entry. -/
theorem newSpace (isModule : Bool) : world.Retains (world.newSpace isModule).2 := by
  have hspace (ref : NamespaceRef) : (world.newSpace isModule).2.space ref =
      if ref.index = world.spaces.size then ⟨.empty, isModule, none⟩ else world.space ref :=
    Store.get_add _ _ _
  have hnone {ref : NamespaceRef} (hnew : ref.index = world.spaces.size) : world.space ref = default :=
    world.space_of_size_le (Nat.le_of_eq hnew.symm)
  refine .of_spaces rfl rfl ?_ (fun ref hmodule => ?_) fun ref => ?_
  · exact Nat.le_of_lt (Nat.lt_of_lt_of_eq (Nat.lt_succ_self _) (Store.size_add ..).symm)
  · rw [hspace, if_neg]
    · exact hmodule
    · intro hnew
      rw [hnone hnew] at hmodule
      cases hmodule
  · rw [hspace]
    split
    · next hnew =>
      rw [hnone hnew]
      rfl
    · rfl

theorem markModule (ref : NamespaceRef) : world.Retains (world.markModule ref) := by
  refine .of_spaces rfl rfl (Nat.le_of_eq (Store.size_update ..).symm) (fun other hmodule => ?_)
    fun _ => Store.proj_get_update _ _ _ Namespace.entry fun _ => rfl
  rw [World.markModule, world.space_updateSpace]
  split
  · rfl
  · exact hmodule

/-- An entry is made only for a namespace without one, and is for this namespace. -/
theorem entryFor (space : NamespaceRef) : world.Retains (world.entryFor space).2 := by
  unfold World.entryFor
  split
  · exact .refl world
  · next hnone =>
    have hentry (ref : EntryRef) : (world.newEntry space).2.entry ref =
        if ref.index = world.entries.size then ⟨space, none, false, .empty, []⟩
        else world.entry ref := Store.get_add _ _ _
    have hsize : (world.newEntry space).2.entries.size = world.entries.size + 1 := Store.size_add ..
    have hspace (ref : NamespaceRef) := (world.newEntry space).2.space_updateSpace space
      (fun record => { record with entry := some (world.newEntry space).1 }) ref
    refine
      { spaceCount := Nat.le_of_eq (Store.size_update ..).symm
        entryCount := Nat.le_of_lt (Nat.lt_of_lt_of_eq (Nat.lt_succ_self _) hsize.symm)
        batchCount := Nat.le_refl _
        isModule := fun ref h => ?_, entryOf := fun {ref entry} h => ?_
        attached := fun {ref entry} h => ?_, spaceOf := fun ref hlt => ?_
        registered := fun _ _ _ => rfl, listed := fun {entry batch} hlisted _ => ?_ }
    · rw [hspace]
      split
      · next hsame => exact hsame.1 ▸ h
      · exact h
    · rw [hspace, if_neg]
      · exact h
      · rintro ⟨rfl, -⟩
        rw [hnone] at h
        cases h
    · rw [hspace] at h
      split at h
      · next hsame =>
        obtain rfl : entry = ⟨world.entries.size⟩ := (Option.some.inj h).symm
        refine .inr ⟨Nat.lt_of_lt_of_eq (Nat.lt_succ_self _) hsize.symm, ?_⟩
        rw [hsame.1]
        exact congrArg Entry.space ((hentry _).trans (if_pos rfl))
      · exact .inl h
    · exact congrArg Entry.space ((hentry ref).trans (if_neg (Nat.ne_of_lt hlt)))
    · have hold : (world.newEntry space).2.entry entry = world.entry entry := by
        rw [hentry, if_neg]
        intro hnew
        rw [world.entry_of_size_le (Nat.le_of_eq hnew.symm)] at hlisted
        cases hlisted
      exact (congrArg Entry.batches hold).symm ▸ hlisted

theorem settleOwner (ref : EntryRef) (module : ModuleRef) :
    world.Retains (world.settleOwner ref module) := by
  unfold World.settleOwner
  split
  · exact .refl world
  · exact .updateEntry world ref (fun _ => rfl) fun _ => rfl

/-- A registration replaces batches with a key only. -/
theorem addConsumers (entry : EntryRef) (module : ModuleRef) (consumers : Table Consumer)
    (key : Option String) (spaces : List NamespaceRef) :
    world.Retains (world.addConsumers entry module consumers key spaces) := by
  have hrenewed := world.renewed_addConsumers entry module consumers key spaces
  have hkept {batch : BatchRef} (hkey : (world.batch batch).key = none) :
      batch ∉ world.replacedBy entry (world.keyOf module key) := by
    intro hreplaced
    obtain ⟨-, hsome, hsame⟩ := World.InOrder.mem_replacedBy.mp hreplaced
    rw [← hsame, hkey] at hsome
    cases hsome
  refine
    { spaceCount := Nat.le_of_eq hrenewed.spaceCount.symm
      entryCount := Nat.le_of_eq hrenewed.entryCount.symm
      batchCount := Nat.le_trans (Nat.le_succ _) (Nat.le_of_eq hrenewed.batchCount.symm)
      isModule := fun ref => (hrenewed.isModule ref).symm ▸ id
      entryOf := fun {ref _} h => (hrenewed.entryOf ref).trans h
      attached := fun {ref _} h => .inl ((hrenewed.entryOf ref).symm.trans h)
      spaceOf := fun ref _ => hrenewed.entries ref ▸ rfl
      registered := fun ref hlt hkey => ?_, listed := fun {other batch} hlisted hkey => ?_ }
  · rw [hrenewed.kept ref (Nat.ne_of_lt hlt) (hkept hkey)]
  · rw [hrenewed.batches]
    split
    · next hentry =>
      rw [hentry.1] at hlisted
      exact List.mem_append_left _ (List.mem_filter.mpr ⟨hlisted, by simpa using hkept hkey⟩)
    · exact hlisted

end World.Retains

variable {allowed : Command → Prop} {world after : World}

/-- A move unmakes nothing. -/
theorem Move.retains (h : Move allowed world after) : world.Retains after := by
  cases h with
  | noted hnoted =>
    rw [hnoted]
    exact .of_parts rfl rfl rfl
  | newSpace isModule => exact .newSpace world isModule
  | newModule id isEnabled => exact { World.Retains.newSpace world false with }
  | setMember ref name value => exact .of_keeps (world.keeps_setMember ref name value)
  | removeMember ref name => exact .of_keeps (world.keeps_updateSpace ref fun members => members.erase name)
  | markModule ref => exact .markModule world ref
  | enable ref =>
    unfold World.enable
    split <;> exact .of_parts rfl rfl rfl
  | entryFor space => exact .entryFor world space
  | settleOwner ref module => exact .settleOwner world ref module
  | markLoaded ref => exact .updateEntry world ref (fun _ => rfl) fun _ => rfl
  | addProviders ref => exact .updateEntry world ref (fun _ => rfl) fun _ => rfl
  | keepValue ref name provider value =>
    refine .updateEntry world ref (fun entry => ?_) fun entry => ?_ <;> split
    any_goals split
    all_goals rfl
  | addConsumers entry module consumers key spaces =>
    exact .addConsumers world entry module consumers key spaces
  | writeThrough batch name value => exact .of_keeps (world.keeps_writeThrough batch name value)
  | handOver batch slot name value => exact .of_keeps (world.keeps_handOver batch slot name value)
  | _ => exact .of_parts rfl rfl rfl

/-! ### Worlds that make sense -/

/-- What is referred to exists, a namespace and its entry refer to each other, and batches are in
order. -/
structure World.Coherent (world : World) : Prop where
  inSight : world.InSight Sight.existing
  grounded : world.Grounded
  inOrder : world.InOrder
  attached : ∀ {ref entry}, (world.space ref).entry = some entry →
    entry.index < world.entries.size ∧ (world.entry entry).space = ref

theorem World.coherent_ofHost (host : Host) : (World.ofHost host).Coherent where
  inSight := inSight_ofHost host
  grounded h := absurd rfl h
  inOrder := inOrder_ofHost host
  attached := nofun

/-- An act by which nothing gets to refer to what does not exist keeps a world coherent. -/
theorem Act.coherent (h : Act allowed Sight.existing world after) (hworld : world.Coherent) :
    after.Coherent where
  inSight := h.inSight
  grounded := h.grounds hworld.grounded
  inOrder := by
    obtain ⟨_, hhistory⟩ := h.move.exists_history
    exact hhistory.inOrder hworld.inOrder
  attached hentry := by
    have hretains := h.move.retains
    rcases hretains.attached hentry with hold | hnew
    · obtain ⟨hlt, hspace⟩ := hworld.attached hold
      exact ⟨Nat.lt_of_lt_of_le hlt hretains.entryCount, (hretains.spaceOf _ hlt).trans hspace⟩
    · exact hnew

/-! ### Worlds that are reached -/

/-- Acts lead from one world to the other. -/
def World.Reaches (world after : World) : Prop :=
  Relation.ReflTransGen (Act (fun _ => True) Sight.existing) world after

namespace World.Reaches

variable {first second third : World}

theorem refl (world : World) : world.Reaches world :=
  Relation.ReflTransGen.refl

theorem trans (h : first.Reaches second) (h' : second.Reaches third) : first.Reaches third :=
  Relation.ReflTransGen.trans h h'

theorem coherent (h : world.Reaches after) (hworld : world.Coherent) : after.Coherent := by
  induction h with
  | refl => exact hworld
  | tail _ hact ih => exact hact.coherent ih

theorem retains (h : world.Reaches after) (hworld : world.Coherent) : world.Retains after := by
  induction h with
  | refl => exact .refl world
  | tail _ hact ih => exact ih.trans hact.move.retains hworld.inOrder

theorem spaceCount (h : world.Reaches after) : world.spaces.size ≤ after.spaces.size := by
  induction h with
  | refl => exact Nat.le_refl _
  | tail _ hact ih => exact Nat.le_trans ih hact.move.grows

/-- A dynamic import that was not polled has been polled later only if there was an act by which
this was noted. -/
theorem exists_poll (h : world.Reaches after) {ref : ImportRef}
    (hbefore : (world.dynamicImport ref).isDeferred = false)
    (hafter : (after.dynamicImport ref).isDeferred = true) :
    ∃ middle : World, world.Reaches middle ∧ (middle.dynamicImport ref).isDeferred = false ∧
      (middle.deferImport ref).Reaches after := by
  induction h with
  | refl =>
    rw [hbefore] at hafter
    cases hafter
  | @tail middle last hmiddle hact ih =>
    by_cases hpolled : (middle.dynamicImport ref).isDeferred = true
    · obtain ⟨found, hfound, hunpolled, hrest⟩ := ih hpolled
      exact ⟨found, hfound, hunpolled, .tail hrest hact⟩
    · have hunpolled : (middle.dynamicImport ref).isDeferred = false := by simpa using hpolled
      rcases hact.defers ref with hsame | rfl
      · rw [hsame, hunpolled] at hafter
        cases hafter
      · exact ⟨middle, hmiddle, hunpolled, refl _⟩

end World.Reaches

/-- Reaching contains every act. -/
theorem follows_reaches : Follows (fun _ => True) Sight.existing World.Reaches where
  refl := World.Reaches.refl
  trans := World.Reaches.trans
  act := Relation.ReflTransGen.single
  lasts h := Sight.lasts_of_le h.spaceCount

/-- All programs lead to worlds that are reached, however deep callbacks are nested. -/
theorem heeds_reaches (depth : Nat) :
    (runner depth).Heeds (fun _ => True) Sight.existing World.Reaches := by
  refine heeds_runner follows_reaches (fun _ => id) (fun _ _ _ _ entry _ _ _ hworld hinSight => ?_) depth
  exact hworld.trans (follows_reaches.act (hinSight.act_markLoaded entry ⟨default, trivial⟩))

theorem World.InSight.fits (h : world.InSight Sight.existing) :
    world.Fits (fun _ => True) Sight.existing :=
  ⟨world.confined_true, h⟩

/-- A program that begins in a world, the lines of a callback and the rest of a round that is under
way lead to worlds that are reached. -/
structure World.LeadsOn (world : World) : Prop where
  program : ∀ (depth : Nat) (program : Program), world.Reaches (world.afterwards depth program)
  callback : ∀ (depth : Nat) {scope : Scope} (label : String) (lines : Program),
    Sight.existing.Shows world.spaces.size scope.holdings →
      world.Reaches ((runner depth scope label lines).outcome world).2
  asking : ∀ (depth : Nat) (entry : EntryRef) {space : NamespaceRef} {slots : List (String × Slot)},
    Sight.existing.sees world.spaces.size space →
      Sight.existing.Shows world.spaces.size (slotHoldings slots) →
        world.Reaches ((refreshSlots (runner depth) entry space slots).outcome world).2
  delivering : ∀ (depth : Nat) {values : List (String × Value)} (batches : List BatchRef),
    (∀ row ∈ values, Sight.existing.Shows world.spaces.size row.2.holdings) →
      world.Reaches ((deliverToBatches (runner depth) values batches).outcome world).2

theorem reaches_afterwards (h : world.InSight Sight.existing) (depth : Nat) (program : Program) :
    world.Reaches (world.afterwards depth program) := by
  induction program generalizing world with
  | nil => exact .refl world
  | cons line rest ih =>
    have hcleared : Act (fun _ => True) Sight.existing world { world with events := [] } :=
      h.act_noted rfl rfl id fun _ => .inl
    have hline : Effect.Stays (fun _ => True) Sight.existing World.Reaches world.spaces.size
        (perform (runner depth) {} line.command) :=
      stays_perform follows_reaches (fun _ => id) (heeds_reaches depth) Sight.shows_nil
        fun _ _ => trivial
    obtain ⟨hstep, hfits, -⟩ := hline { world with events := [] } (.refl _ _) hcleared.inSight.fits
    exact (follows_reaches.act hcleared).trans (hstep.trans (ih hfits.inSight))

theorem World.InSight.leadsOn (h : world.InSight Sight.existing) : world.LeadsOn where
  program := reaches_afterwards h
  callback depth _ label lines hscope :=
    ((heeds_reaches depth).lines label (Program.confined_true lines) hscope world (.refl _ _) h.fits).1
  asking depth entry _ _ hspace hslots :=
    (heeds_refreshSlots follows_reaches (heeds_reaches depth) entry hspace hslots world (.refl _ _)
      h.fits).1
  delivering depth _ _ hvalues :=
    (stays_deliverToBatches follows_reaches (heeds_reaches depth) (fun _ _ => id) hvalues world (.refl _ _)
      h.fits).1

/-! ### What rounds lead to -/

variable {depth : Nat} {entry : EntryRef} {values : List (String × Value)} {refreshed : World}

theorem reaches_request {module : ModuleRef} {specifier : String} {exports : NamespaceRef}
    {requested : World} (hworld : world.InSight Sight.existing)
    (houtcome : (request (runner depth) module specifier).outcome world = (.ok exports, requested)) :
    world.Reaches requested ∧ Sight.existing.sees requested.spaces.size exports := by
  obtain ⟨hreaches, -, hsees⟩ := heeds_request follows_reaches (heeds_reaches depth) module specifier world
    (.refl _ _) hworld.fits
  rw [houtcome] at hreaches hsees
  exact ⟨hreaches, hsees exports rfl⟩

theorem reaches_refresh (hworld : world.InSight Sight.existing)
    (hrefresh : (refresh (runner depth) entry).outcome world = (.ok values, refreshed)) :
    world.Reaches refreshed := by
  obtain ⟨hreaches, -⟩ := heeds_refresh follows_reaches (heeds_reaches depth) entry world (.refl _ _)
    hworld.fits
  rw [hrefresh] at hreaches
  exact hreaches

theorem reaches_propagate (hworld : world.InSight Sight.existing)
    (hround : (propagate (runner depth) entry).outcome world = (.ok (), after)) : world.Reaches after := by
  obtain ⟨hreaches, -⟩ := stays_propagate follows_reaches (heeds_reaches depth) (fun _ => id) entry world
    (.refl _ _) hworld.fits
  rw [hround] at hreaches
  exact hreaches

theorem reaches_held (hworld : world.InSight Sight.existing) (held : List Holding) :
    world.Reaches { world with held } :=
  follows_reaches.act (Follows.act_held hworld held)

end ModuleLinkage.Ledger
