import ModuleLinkage.Proofs.Ledger.Outcome

/-!
# What propagation leaves alone

Rounds ask providers, write namespaces, note what consumers have seen, and run the consumers, which
assign variables and begin further rounds. They register nothing. `World.Keeps` says of two worlds
that everything registered is the same in both: the modules and their names, the entries of
namespaces, the slots of entries up to the values kept of constant ones, the batches up to what they
have seen and written, and the sources of providers. Variables may be made but not renamed.

`World.Alike` is the stronger relation that also keeps what variables hold, what namespaces show,
what batches have seen, and which callbacks were called; `World.Asked` is the same up to the calls of
given providers. Reports, names given to namespaces and owners are outside of all of them.
-/

set_option autoImplicit false

namespace ModuleLinkage.Ledger

namespace Store

variable {α β : Type} [Inhabited α]

theorem get_update (store : Store α) (change : α → α) (index other : Nat) :
    (store.update index change).get other =
      if other = index ∧ index < store.size then change (store.get index) else store.get other := by
  by_cases hother : other = index
  · subst hother
    by_cases hsize : other < store.size
    · rw [get_update_self store change hsize, if_pos ⟨rfl, hsize⟩]
    · have hsize' : ¬ other < store.items.size := hsize
      rw [if_neg fun h => hsize h.2]
      simp [update, get, hsize']
  · rw [get_update_of_ne store change hother, if_neg fun h => hother h.1]

/-- A projection that a change does not touch is the same after an update. -/
theorem proj_get_update (store : Store α) {change : α → α} (index other : Nat) (proj : α → β)
    (hchange : ∀ item, proj (change item) = proj item) :
    proj ((store.update index change).get other) = proj (store.get other) := by
  rw [get_update]
  split
  · next h => rw [hchange, h.1]
  · rfl

theorem get_of_size_le (store : Store α) {index : Nat} (h : store.size ≤ index) :
    store.get index = default := by
  have h : store.items.size ≤ index := h
  simp [get, h]

theorem get_add (store : Store α) (item : α) (index : Nat) :
    (store.add item).get index = if index = store.size then item else store.get index := by
  split
  · next h => rw [h, get_add_size]
  · next h =>
    by_cases hlt : index < store.size
    · exact get_add_of_lt store item hlt
    · rw [get_of_size_le _ (by rw [size_add]; omega), get_of_size_le store (by omega)]

/-- Under a number stands one of the records or, where there is none, the default one. -/
theorem get_cases (store : Store α) (index : Nat) :
    store.get index = default ∨ store.get index ∈ store.items.toList := by
  unfold get
  cases h : store.items[index]? with
  | none => exact .inl rfl
  | some item => exact .inr (Array.mem_toList_iff.mpr (Array.mem_of_getElem? h))

end Store

/-- The names of an entry's slots, their providers, and whether they are constant. -/
def Entry.exported (entry : Entry) : List (String × ProviderRef × Bool) :=
  entry.slots.rows.map fun row => (row.1, row.2.provider, row.2.isConstant)

/-- Keeping a value of a slot leaves its entry's names and providers as they are. -/
theorem Entry.exported_put_cached (entry : Entry) {name : String} {slot : Slot}
    (hslot : entry.slots.get? name = some slot) (cached : Option Value) :
    Entry.exported { entry with slots := entry.slots.put name { slot with cached } } =
      entry.exported := by
  obtain ⟨_, _, _, ⟨rows⟩, _⟩ := entry
  simp only [exported, Table.put]
  induction rows with
  | nil => simp [Table.get?] at hslot
  | cons row rest ih =>
    by_cases hrow : row.1 = name
    · have hvalue : row.2 = slot := by simpa [Table.get?, hrow] using hslot
      simp [Table.putRows, hrow, ← hvalue]
    · have hrest : Table.get? ⟨rest⟩ name = some slot := by
        simpa [Table.get?, hrow] using hslot
      simp [Table.putRows, hrow, ih hrest]

/-- What is registered with a batch. -/
def Batch.registered (batch : Batch) :
    Option String × ModuleRef × Table Consumer × List NamespaceRef × Bool :=
  (batch.key, batch.consumer, batch.consumers, batch.spaces, batch.isActive)

namespace World

/-- The names of `count` variables lead to variables that exist, and different names to different
ones. -/
structure NamesValid (names : Table BindingRef) (count : Nat) : Prop where
  lt : ∀ {name ref}, names.get? name = some ref → ref.index < count
  inj : ∀ {first second ref}, names.get? first = some ref → names.get? second = some ref →
    first = second

/-- Everything registered is the same in both worlds. -/
structure Keeps (before after : World) : Prop where
  host : after.host = before.host
  modules : after.modules = before.modules
  moduleNames : after.names.modules = before.names.modules
  loadedNames : after.names.loaded = before.names.loaded
  bindingNamed : ∀ {name ref}, before.names.bindings.get? name = some ref →
    after.names.bindings.get? name = some ref
  bindingNew : ∀ {name ref}, after.names.bindings.get? name = some ref →
    before.names.bindings.get? name = some ref ∨ before.bindings.size ≤ ref.index
  bindingCount : before.bindings.size ≤ after.bindings.size
  namesValid : NamesValid before.names.bindings before.bindings.size →
    NamesValid after.names.bindings after.bindings.size
  spaceCount : after.spaces.size = before.spaces.size
  isModule : ∀ ref, (after.space ref).isModule = (before.space ref).isModule
  entryOf : ∀ ref, (after.space ref).entry = (before.space ref).entry
  entryCount : after.entries.size = before.entries.size
  spaceOf : ∀ ref, (after.entry ref).space = (before.entry ref).space
  batches : ∀ ref, (after.entry ref).batches = (before.entry ref).batches
  exported : ∀ ref, (after.entry ref).exported = (before.entry ref).exported
  batchCount : after.batches.size = before.batches.size
  registered : ∀ ref, (after.batch ref).registered = (before.batch ref).registered
  providerCount : after.providers.size = before.providers.size
  source : ∀ ref, (after.provider ref).source = (before.provider ref).source

namespace Keeps

variable {first second third : World}

theorem refl (world : World) : world.Keeps world where
  host := rfl
  modules := rfl
  moduleNames := rfl
  loadedNames := rfl
  bindingNamed := id
  bindingNew := .inl
  bindingCount := Nat.le_refl _
  namesValid := id
  spaceCount := rfl
  isModule _ := rfl
  entryOf _ := rfl
  entryCount := rfl
  spaceOf _ := rfl
  batches _ := rfl
  exported _ := rfl
  batchCount := rfl
  registered _ := rfl
  providerCount := rfl
  source _ := rfl

theorem trans (h : first.Keeps second) (h' : second.Keeps third) : first.Keeps third where
  host := h'.host.trans h.host
  modules := h'.modules.trans h.modules
  moduleNames := h'.moduleNames.trans h.moduleNames
  loadedNames := h'.loadedNames.trans h.loadedNames
  bindingNamed hname := h'.bindingNamed (h.bindingNamed hname)
  bindingNew hname := by
    rcases h'.bindingNew hname with hname | hsize
    · exact h.bindingNew hname
    · exact .inr (Nat.le_trans h.bindingCount hsize)
  bindingCount := Nat.le_trans h.bindingCount h'.bindingCount
  namesValid hvalid := h'.namesValid (h.namesValid hvalid)
  spaceCount := h'.spaceCount.trans h.spaceCount
  isModule ref := (h'.isModule ref).trans (h.isModule ref)
  entryOf ref := (h'.entryOf ref).trans (h.entryOf ref)
  entryCount := h'.entryCount.trans h.entryCount
  spaceOf ref := (h'.spaceOf ref).trans (h.spaceOf ref)
  batches ref := (h'.batches ref).trans (h.batches ref)
  exported ref := (h'.exported ref).trans (h.exported ref)
  batchCount := h'.batchCount.trans h.batchCount
  registered ref := (h'.registered ref).trans (h.registered ref)
  providerCount := h'.providerCount.trans h.providerCount
  source ref := (h'.source ref).trans (h.source ref)

theorem consumers (h : first.Keeps second) (ref : BatchRef) :
    (second.batch ref).consumers = (first.batch ref).consumers :=
  congrArg (·.2.2.1) (h.registered ref)

theorem spaces (h : first.Keeps second) (ref : BatchRef) :
    (second.batch ref).spaces = (first.batch ref).spaces :=
  congrArg (·.2.2.2.1) (h.registered ref)

theorem isActive (h : first.Keeps second) (ref : BatchRef) :
    (second.batch ref).isActive = (first.batch ref).isActive :=
  congrArg (·.2.2.2.2) (h.registered ref)

theorem key (h : first.Keeps second) (ref : BatchRef) :
    (second.batch ref).key = (first.batch ref).key :=
  congrArg (·.1) (h.registered ref)

theorem concerned (h : first.Keeps second) (ref : BatchRef) (name : String) :
    (second.batch ref).concerned name = (first.batch ref).concerned name := by
  simp only [Batch.concerned, h.consumers]

theorem module (h : first.Keeps second) (ref : ModuleRef) :
    second.module ref = first.module ref := by
  simp only [World.module, h.modules]

end Keeps

/-- Providers were called, the ones in `refs`, latest first, and else nothing that propagation is
about is different in the two worlds. -/
structure Asked (refs : List ProviderRef) (before after : World) : Prop
    extends Keeps before after where
  binding : ∀ ref, after.binding ref = before.binding ref
  batch : ∀ ref, after.batch ref = before.batch ref
  members : ∀ ref, (after.space ref).members = (before.space ref).members
  calls : after.calls = refs.map .provider ++ before.calls

/-- Nothing that propagation is about is different in the two worlds. -/
abbrev Alike (before after : World) : Prop :=
  before.Asked [] after

theorem Asked.refl (world : World) : world.Asked [] world where
  toKeeps := .refl world
  binding _ := rfl
  batch _ := rfl
  members _ := rfl
  calls := rfl

theorem Asked.trans {refs refs' : List ProviderRef} {first second third : World}
    (h : first.Asked refs second) (h' : second.Asked refs' third) :
    first.Asked (refs' ++ refs) third where
  toKeeps := h.toKeeps.trans h'.toKeeps
  binding ref := (h'.binding ref).trans (h.binding ref)
  batch ref := (h'.batch ref).trans (h.batch ref)
  members ref := (h'.members ref).trans (h.members ref)
  calls := by rw [h'.calls, h.calls, List.map_append, List.append_assoc]

theorem Asked.trans_alike {refs : List ProviderRef} {first second third : World}
    (h : first.Asked refs second) (h' : second.Alike third) : first.Asked refs third :=
  h.trans h'

namespace Alike

variable {first second third : World}

theorem trans (h : first.Alike second) (h' : second.Alike third) : first.Alike third :=
  Asked.trans h h'

/-- What is asked after a change that does not matter. -/
theorem trans' {refs : List ProviderRef} (h : first.Alike second) (h' : second.Asked refs third) :
    first.Asked refs third := by
  simpa using Asked.trans h h'

theorem seen? (h : first.Alike second) (ref : BatchRef) (slot name : String) :
    second.seen? ref slot name = first.seen? ref slot name := by
  simp only [World.seen?, h.batch]

end Alike

/-! ### Changes that matter to no round -/

theorem alike_held (world : World) (held : List Holding) : world.Alike { world with held } where
  toKeeps := { Keeps.refl world with }
  binding _ := rfl
  batch _ := rfl
  members _ := rfl
  calls := rfl

theorem alike_addEvent (world : World) (event : Event) : world.Alike (world.addEvent event) where
  toKeeps := { Keeps.refl world with }
  binding _ := rfl
  batch _ := rfl
  members _ := rfl
  calls := rfl

theorem alike_nameOfSpace (world : World) (ref : NamespaceRef) :
    world.Alike (world.nameOfSpace ref).2 := by
  unfold World.nameOfSpace
  split
  · exact .refl world
  · exact
      { toKeeps := { Keeps.refl world with }
        binding := fun _ => rfl
        batch := fun _ => rfl
        members := fun _ => rfl
        calls := rfl }

/-- A provider is called. -/
theorem asked_noteCall (world : World) (ref : ProviderRef) :
    world.Asked [ref] (world.noteCall ref).2 where
  toKeeps :=
    { Keeps.refl world with
      providerCount := Store.size_update ..
      source := fun _ => Store.proj_get_update _ _ _ Provider.source fun _ => rfl }
  binding _ := rfl
  batch _ := rfl
  members _ := rfl
  calls := rfl

/-- A change of an entry that leaves its namespace, slots and batches alone. -/
theorem alike_updateEntry (world : World) (ref : EntryRef) {change : Entry → Entry}
    (hspace : ∀ entry, (change entry).space = entry.space)
    (hbatches : ∀ entry, (change entry).batches = entry.batches)
    (hexported : ∀ entry, (change entry).exported = entry.exported) :
    world.Alike (world.updateEntry ref change) where
  toKeeps :=
    { Keeps.refl world with
      entryCount := Store.size_update ..
      spaceOf := fun _ => Store.proj_get_update _ _ _ Entry.space hspace
      batches := fun _ => Store.proj_get_update _ _ _ Entry.batches hbatches
      exported := fun _ => Store.proj_get_update _ _ _ Entry.exported hexported }
  binding _ := rfl
  batch _ := rfl
  members _ := rfl
  calls := rfl

theorem alike_markLoaded (world : World) (ref : EntryRef) : world.Alike (world.markLoaded ref) :=
  alike_updateEntry world ref (fun _ => rfl) (fun _ => rfl) fun _ => rfl

theorem alike_settleOwner (world : World) (ref : EntryRef) (module : ModuleRef) :
    world.Alike (world.settleOwner ref module) := by
  unfold settleOwner
  split
  · exact .refl world
  · exact alike_updateEntry world ref (fun _ => rfl) (fun _ => rfl) fun _ => rfl

/-- Asking for a variable by its name may make it, without a value. -/
theorem alike_bindingNamed (world : World) (name : String) :
    world.Alike (world.bindingNamed name).2 := by
  unfold bindingNamed
  split
  · exact .refl world
  · next hnone =>
    have hget (other : String) :
        (world.names.bindings.put name ⟨world.bindings.size⟩).get? other =
          if other = name then some ⟨world.bindings.size⟩ else world.names.bindings.get? other := by
      split
      · next h => rw [h, Table.get?_put_self]
      · next h => rw [Table.get?_put_of_ne _ _ h]
    refine
      { toKeeps := { Keeps.refl world with
          bindingNamed := ?_, bindingNew := ?_, bindingCount := ?_, namesValid := ?_ }
        binding := ?_
        batch := fun _ => rfl
        members := fun _ => rfl
        calls := rfl }
    · intro other ref hother
      change (world.names.bindings.put name ⟨world.bindings.size⟩).get? other = some ref
      rw [hget, if_neg fun h => by rw [h, hnone] at hother; cases hother]
      exact hother
    · intro other ref hother
      change (world.names.bindings.put name ⟨world.bindings.size⟩).get? other = some ref at hother
      rw [hget] at hother
      split at hother
      · cases hother
        exact .inr (Nat.le_refl _)
      · exact .inl hother
    · exact Nat.le_of_lt (by simp [newBinding, updateNames])
    · intro hvalid
      change NamesValid (world.names.bindings.put name ⟨world.bindings.size⟩)
        (world.bindings.add none).size
      rw [Store.size_add]
      constructor
      · intro other ref hother
        rw [hget] at hother
        split at hother
        · cases hother
          exact Nat.lt_succ_self _
        · exact Nat.lt_succ_of_lt (hvalid.lt hother)
      · intro first second ref hfirst hsecond
        rw [hget] at hfirst hsecond
        split at hfirst <;> split at hsecond
        · next h h' => rw [h, h']
        · cases hfirst
          exact absurd (hvalid.lt hsecond) (Nat.lt_irrefl _)
        · cases hsecond
          exact absurd (hvalid.lt hfirst) (Nat.lt_irrefl _)
        · exact hvalid.inj hfirst hsecond
    · intro ref
      change (world.bindings.add none).get ref.index = world.bindings.get ref.index
      rw [Store.get_add]
      split
      · next h => rw [h, Store.get_of_size_le _ (Nat.le_refl _)]; rfl
      · rfl

/-- The variable that a name leads to. -/
theorem get?_bindingNamed (world : World) (name : String) :
    (world.bindingNamed name).2.names.bindings.get? name = some (world.bindingNamed name).1 := by
  unfold bindingNamed
  split
  · next h => exact h
  · exact Table.get?_put_self ..

/-- Keeping the value of a slot changes neither the names nor the providers of an entry. -/
theorem alike_keepValue (world : World) (ref : EntryRef) (name : String) (provider : ProviderRef)
    (value : Value) : world.Alike (world.keepValue ref name provider value) := by
  apply alike_updateEntry world ref
  · intro entry
    split <;> try rfl
    split <;> rfl
  · intro entry
    split <;> try rfl
    split <;> rfl
  · intro entry
    split
    · next slot hslot =>
      split
      · exact Entry.exported_put_cached entry hslot (some value)
      · rfl
    · rfl

end World

/-- Working out a value changes nothing that matters to rounds. -/
theorem meets_evaluate (scope : Scope) (term : ValueTerm) {world : World}
    {allowed : Fault → Prop} (hunbound : ∀ name, allowed (.unbound name)) :
    (term.evaluate scope).Meets world (fun _ after => world.Alike after) allowed := by
  have hrefl := World.Asked.refl world
  cases term with
  | undefined | null | bool | number | text | object => exact (Effect.meets_pure _).mpr hrefl
  | space term =>
    simp only [ValueTerm.evaluate, Effect.meets_bind, Effect.meets_pure]
    cases term with
    | named name =>
      simp only [NamespaceTerm.find, Effect.meets_bind, Effect.meets_get]
      exact Effect.meets_bound (hunbound _) fun _ _ => hrefl
    | exportsOf name =>
      simp only [NamespaceTerm.find, moduleNamed, Effect.meets_bind, Effect.meets_get,
        Effect.meets_pure]
      exact Effect.meets_bound (hunbound _) fun _ _ => hrefl
  | binding name =>
    simp only [ValueTerm.evaluate, findBinding, Effect.meets_bind, Effect.meets_modifyGet,
      Effect.meets_get, Effect.meets_pure]
    exact World.alike_bindingNamed world name
  | receivedValue => exact Effect.meets_bound (hunbound _) fun _ _ => hrefl
  | receivedName => exact Effect.meets_bound (hunbound _) fun _ _ => hrefl

/-- Showing a value changes nothing that matters to rounds. -/
theorem meets_showValue (value : Value) {world : World} {allowed : Fault → Prop} :
    (showValue value).Meets world (fun _ after => world.Alike after) allowed := by
  cases value with
  | undefined | null | bool | number | text | object =>
    exact (Effect.meets_pure _).mpr (World.Asked.refl world)
  | space ref =>
    simp only [showValue, Effect.meets_bind, Effect.meets_modifyGet, Effect.meets_pure]
    exact World.alike_nameOfSpace world ref

end ModuleLinkage.Ledger
