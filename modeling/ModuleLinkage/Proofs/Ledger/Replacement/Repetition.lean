import Mathlib.Data.List.Nodup
import ModuleLinkage.Proofs.Ledger.Replacement.Recording
import ModuleLinkage.Proofs.Ledger.Replacement.Writing

/-!
# Imports that are executed again

An execution of a keyed import (`KeyedImport`) asks for a module, registers the import's consumers at
the entry of that module's exports (`KeyedImport.enrolled`), which replaces the batch of the execution
before, and begins a round over that entry.

Where consumers only write and the providers of the entry only yield values, always the same ones, an
execution leaves a world at rest (`KeyedImport.AtRest`): whatever the next round will write is there
already (`KeyedImport.settled_of_delivered`). So the next execution changes no cell: the names that are
removed with the batch that is replaced are written again by the batch in its place
(`KeyedImport.AtRest.cell`). By induction any number of executions leaves what one leaves
(`KeyedImport.exists_atRest_executed`).
-/

set_option autoImplicit false

namespace ModuleLinkage.Ledger

/-- Leaving out some names of a table leaves what the others have. -/
theorem Table.get?_filter {α : Type} (rows : List (String × α)) (keep : String → Bool)
    (name : String) : (⟨rows.filter fun row => keep row.1⟩ : Table α).get? name =
      if keep name then (⟨rows⟩ : Table α).get? name else none := by
  simp only [get?, List.find?_filter]
  by_cases hkeep : keep name = true
  · rw [if_pos hkeep]
    congr 2
    funext row
    by_cases hrow : row.1 = name <;> simp [hrow, hkeep]
  · rw [if_neg hkeep, Option.map_eq_none_iff, List.find?_eq_none]
    intro row _ hrow
    simp only [beq_iff_eq, decide_eq_true_eq] at hrow
    exact hkeep (hrow.2 ▸ hrow.1)

namespace World

variable {first second third : World}

/-! ### Opening an entry -/

/-- The entry of a namespace exists, if it has one. -/
def HasPlaced (world : World) (space : NamespaceRef) : Prop :=
  ∀ entry, (world.space space).entry = some entry → entry.index < world.entries.size

/-- Entries were made or given owners, and namespaces marked as those of modules; cells, names and
batches are the same. -/
structure Still (before after : World) : Prop extends Elsewhere before after where
  host : after.host = before.host
  modules : after.modules = before.modules
  names : after.names = before.names
  bindings : after.bindings = before.bindings
  spaceCount : after.spaces.size = before.spaces.size
  members : ∀ ref, (after.space ref).members = (before.space ref).members
  entryOf : ∀ {ref entry}, (before.space ref).entry = some entry →
    (after.space ref).entry = some entry
  placed : ∀ {ref}, before.HasPlaced ref → after.HasPlaced ref
  spaceOf : ∀ {ref : EntryRef}, ref.index < before.entries.size →
    (after.entry ref).space = (before.entry ref).space

theorem Still.refl (world : World) : world.Still world where
  toElsewhere := .refl world
  host := rfl
  modules := rfl
  names := rfl
  bindings := rfl
  spaceCount := rfl
  members _ := rfl
  entryOf := id
  placed := id
  spaceOf _ := rfl

theorem Still.trans (h : first.Still second) (h' : second.Still third) : first.Still third where
  toElsewhere := h.toElsewhere.trans h'.toElsewhere
  host := h'.host.trans h.host
  modules := h'.modules.trans h.modules
  names := h'.names.trans h.names
  bindings := h'.bindings.trans h.bindings
  spaceCount := h'.spaceCount.trans h.spaceCount
  members ref := (h'.members ref).trans (h.members ref)
  entryOf := h'.entryOf ∘ h.entryOf
  placed := h'.placed ∘ h.placed
  spaceOf hlt := (h'.spaceOf (Nat.lt_of_lt_of_le hlt h.entryCount)).trans (h.spaceOf hlt)

theorem Still.cell (h : first.Still second) (cell : Cell) : second.cell cell = first.cell cell := by
  cases cell with
  | binding ref => exact congrArg (Store.get · ref.index) h.bindings
  | member space name => exact congrArg (Table.get? · name) (h.members space)

variable (world : World)

theorem still_markModule (ref : NamespaceRef) : world.Still (world.markModule ref) := by
  have hentry (other : NamespaceRef) :
      ((world.markModule ref).space other).entry = (world.space other).entry :=
    Store.proj_get_update _ _ _ Namespace.entry fun _ => rfl
  exact
    { toElsewhere := .of_parts rfl rfl rfl
      host := rfl
      modules := rfl
      names := rfl
      bindings := rfl
      spaceCount := Store.size_update ..
      members := fun _ => Store.proj_get_update _ _ _ Namespace.members fun _ => rfl
      entryOf := fun h => (hentry _).trans h
      placed := fun h entry hother => h entry ((hentry _).symm.trans hother)
      spaceOf := fun _ => rfl }

theorem still_entryFor (space : NamespaceRef) : world.Still (world.entryFor space).2 := by
  have helsewhere := world.elsewhere_entryFor space
  unfold entryFor at *
  split
  · exact .refl world
  · next hnone =>
    rw [hnone] at helsewhere
    have hspace (ref : NamespaceRef) := (world.newEntry space).2.space_updateSpace space
      (fun record => { record with entry := some (world.newEntry space).1 }) ref
    refine
      { toElsewhere := helsewhere
        host := rfl
        modules := rfl
        names := rfl
        bindings := rfl
        spaceCount := Store.size_update ..
        members := fun _ => Store.proj_get_update _ _ _ Namespace.members fun _ => rfl
        entryOf := fun {ref _} h => ?_
        placed := fun {ref} h entry hentry => ?_
        spaceOf := fun hlt => congrArg Entry.space (Store.get_add_of_lt world.entries _ hlt) }
    · refine (congrArg Namespace.entry (hspace ref)).trans ?_
      rw [if_neg]
      · exact h
      · rintro ⟨rfl, -⟩
        rw [hnone] at h
        cases h
    · have hlt : entry.index < world.entries.size + 1 := by
        have hfound := (congrArg Namespace.entry (hspace ref)).symm.trans hentry
        split at hfound
        · cases hfound
          exact Nat.lt_succ_self _
        · exact Nat.lt_succ_of_lt (h entry hfound)
      exact (Store.size_add world.entries _).symm ▸ hlt

theorem still_settleOwner (entry : EntryRef) (module : ModuleRef) :
    world.Still (world.settleOwner entry module) := by
  have hsettled := world.alike_settleOwner entry module
  unfold settleOwner at *
  split
  · exact .refl world
  · next hnone =>
    rw [hnone] at hsettled
    exact
      { toElsewhere := hsettled.elsewhere
        host := rfl
        modules := rfl
        names := rfl
        bindings := rfl
        spaceCount := rfl
        members := fun _ => rfl
        entryOf := id
        placed := fun h other hother => Nat.lt_of_lt_of_le (h other hother)
          hsettled.elsewhere.entryCount
        spaceOf := fun _ => hsettled.spaceOf _ }

theorem still_claimExports (module : ModuleRef) : world.Still (world.claimExports module).2 :=
  ((world.still_markModule _).trans (still_entryFor _ _)).trans (still_settleOwner _ _ module)

theorem entryFor_of_eq_some {space : NamespaceRef} {entry : EntryRef}
    (h : (world.space space).entry = some entry) : world.entryFor space = (entry, world) := by
  unfold entryFor
  rw [h]

/-- The entry that is found or made for a namespace exists. -/
theorem lt_entryFor {space : NamespaceRef} (hplaced : world.HasPlaced space) :
    (world.entryFor space).1.index < (world.entryFor space).2.entries.size := by
  unfold entryFor
  split
  · next entry h => exact hplaced entry h
  · exact (Store.size_add world.entries _).symm ▸ Nat.lt_succ_self _

/-- A module may ask for a specifier, the host has the module that it means, and nothing is to be run
for it; the exports of that module, and their entry if they have one, exist. -/
structure Serves (world : World) (module : ModuleRef) (specifier : String)
    (exports : NamespaceRef) : Prop where
  enabled : (world.module module).isEnabled = true
  loaded : ∃ id exporter, world.resolve? specifier = some id ∧ world.loaded? id = some exporter ∧
    (world.module exporter).exports = exports
  lt : exports.index < world.spaces.size
  placed : world.HasPlaced exports

theorem Serves.mono {module : ModuleRef} {specifier : String} {exports : NamespaceRef}
    (h : first.Serves module specifier exports) (hhost : second.host = first.host)
    (hmodules : second.modules = first.modules) (hloaded : second.names.loaded = first.names.loaded)
    (hcount : second.spaces.size = first.spaces.size) (hplaced : second.HasPlaced exports) :
    second.Serves module specifier exports where
  enabled := by
    rw [World.module, hmodules]
    exact h.enabled
  loaded := by
    simp only [resolve?, loaded?, World.module, hhost, hmodules, hloaded]
    exact h.loaded
  lt := hcount ▸ h.lt
  placed := hplaced

end World

/-! ### Keyed imports -/

/-- An import with a key: who imports, from where, with which consumers, and the namespaces that
receive what is delivered. -/
structure KeyedImport where
  module : ModuleRef
  specifier : String
  consumers : Table Consumer
  key : String
  spaces : List NamespaceRef

namespace KeyedImport

variable (decl : KeyedImport)

def registration : Registration :=
  { consumers := some decl.consumers, key := some decl.key, spaces := decl.spaces }

/-- Executes the import. -/
def execute (run : Runner) : Effect Unit :=
  importNow run decl.module decl.specifier decl.registration

/-- The world after a number of executions. -/
def executed (run : Runner) (world : World) : Nat → World
  | 0 => world
  | count + 1 => ((decl.execute run).outcome (executed run world count)).2

/-- The outcome of asking for the other module. -/
def requested (run : Runner) (world : World) : Except Fault NamespaceRef × World :=
  (Effect.holding decl.registration.holdings
    (request run decl.module decl.specifier)).outcome world

/-- The entry of the exports, with the exports of the importing module claimed. -/
def opened (exports : NamespaceRef) (world : World) : EntryRef × World :=
  (world.claimExports decl.module).2.entryFor exports

/-- The world in which the consumers are registered. -/
def enrolled (exports : NamespaceRef) (world : World) : World :=
  (decl.opened exports world).2.addConsumers (decl.opened exports world).1 decl.module
    decl.consumers (some decl.key) decl.spaces

/-- The world in which the round of an execution begins. -/
def begun (exports : NamespaceRef) (world : World) : World :=
  { decl.enrolled exports world with
    held := [.entry (decl.opened exports world).1] ++
      ([.space exports] ++ (decl.enrolled exports world).held) }

/-- The batch that an execution registers. -/
def batch (world : World) : Batch :=
  ⟨world.keyOf decl.module (some decl.key), decl.module, decl.consumers, decl.spaces, true, [], []⟩

variable {decl} {run : Runner} {exports : NamespaceRef} {world found : World}

theorem still_opened (exports : NamespaceRef) (world : World) :
    world.Still (decl.opened exports world).2 :=
  (world.still_claimExports decl.module).trans (World.still_entryFor _ exports)

/-- An execution registers the consumers, and then a round begins. -/
theorem outcome_execute (hrequested : decl.requested run world = (.ok exports, found)) :
    (decl.execute run).outcome world =
      (propagateFrom run exports).outcome (decl.enrolled exports found) := by
  have hsubscribe : (subscribe decl.module exports decl.registration).outcome found =
      (.ok (), decl.enrolled exports found) := by
    simp only [subscribe, registration, Effect.outcome_bind, Effect.outcome_modifyGet,
      Effect.outcome_modify]
    rfl
  unfold requested at hrequested
  rw [execute, importNow, Effect.outcome_bind, hrequested]
  simp only [Effect.outcome_bind, hsubscribe]

/-- Where the other module is served, asking for it changes nothing. -/
theorem requested_of_serves (h : world.Serves decl.module decl.specifier exports) :
    decl.requested run world = (.ok exports, world) := by
  obtain ⟨id, exporter, hresolve, hloaded, hexports⟩ := h.loaded
  have hrequest (held : List Holding) :
      (request run decl.module decl.specifier).outcome { world with held } =
        (.ok exports, { world with held }) := by
    have henabled : ({ world with held } : World).module decl.module =
        world.module decl.module := rfl
    have hresolve' : World.resolve? { world with held } decl.specifier = some id := hresolve
    have hloaded' : World.loaded? { world with held } id = some exporter := hloaded
    simp only [request, Effect.outcome_bind, Effect.outcome_get, henabled, h.enabled, hresolve',
      Bool.not_true, Bool.false_eq_true, if_false, load, hloaded', Effect.outcome_pure]
    exact congrArg (fun exports => (Except.ok exports, _)) hexports
  rw [requested, Effect.outcome_holding, hrequest]

/-! ### Enrolment -/

/-- The batches at an entry that an execution leaves there. -/
def kept (decl : KeyedImport) (entry : EntryRef) (world : World) : List BatchRef :=
  (world.entry entry).batches.filter fun batch =>
    !(world.replacedBy entry (world.keyOf decl.module (some decl.key))).contains batch

theorem batch_congr {before after : World} (h : after.modules = before.modules) :
    decl.batch after = decl.batch before := by
  simp only [batch, World.keyOf, World.module, h]

/-- What an execution does before its round, as the batches, the entry and the cells see it. -/
structure Enrolled (decl : KeyedImport) (exports : NamespaceRef) (entry : EntryRef)
    (before after : World) : Prop where
  host : after.host = before.host
  modules : after.modules = before.modules
  names : after.names = before.names
  bindings : after.bindings = before.bindings
  spaceCount : after.spaces.size = before.spaces.size
  entryOf : (after.space exports).entry = some entry
  entry_lt : entry.index < after.entries.size
  spaceOf : entry.index < before.entries.size →
    (after.entry entry).space = (before.entry entry).space
  inOrder : after.InOrder
  listed : (after.entry entry).batches = decl.kept entry before ++ [⟨before.batches.size⟩]
  elsewhere : ∀ ref, ref ≠ entry → (after.entry ref).batches = (before.entry ref).batches
  added : after.batch ⟨before.batches.size⟩ = decl.batch before
  same : ∀ batch ∈ decl.kept entry before, after.batch batch = before.batch batch
  cell : ∀ cell, after.cell cell = before.cell cell ∨
    ∃ space name, cell = .member space name ∧ after.cell cell = none ∧
      ∃ batch ∈ before.replacedBy entry (before.keyOf decl.module (some decl.key)),
        space ∈ (before.batch batch).spaces ∧ name ∈ (before.batch batch).written

theorem enrolled_of_still {opened : World} {entry : EntryRef} (hstill : found.Still opened)
    (hentryOf : (opened.space exports).entry = some entry)
    (hlt : entry.index < opened.entries.size) (horder : found.InOrder) :
    decl.Enrolled exports entry found
      (opened.addConsumers entry decl.module decl.consumers (some decl.key) decl.spaces) := by
  have hbatch := decl.batch_congr hstill.modules
  have hrenewed : opened.Renewed entry (opened.replacedBy entry (decl.batch opened).key)
      (decl.batch opened)
      (opened.addConsumers entry decl.module decl.consumers (some decl.key) decl.spaces) :=
    opened.renewed_addConsumers entry decl.module decl.consumers (some decl.key) decl.spaces
  have horder' := (horder.elsewhere hstill.toElsewhere).renewed hrenewed rfl
  have hreplaced : opened.replacedBy entry (decl.batch opened).key =
      found.replacedBy entry (found.keyOf decl.module (some decl.key)) := by
    rw [hbatch]
    simp only [World.replacedBy, hstill.listed, hstill.batch]
    rfl
  rw [hreplaced] at hrenewed
  generalize opened.addConsumers entry decl.module decl.consumers (some decl.key) decl.spaces =
    after at hrenewed horder' ⊢
  have hsize := hstill.batchCount
  constructor
  · exact (congrArg World.host hrenewed.rest).trans hstill.host
  · exact (congrArg World.modules hrenewed.rest).trans hstill.modules
  · exact (congrArg World.names hrenewed.rest).trans hstill.names
  · exact (congrArg World.bindings hrenewed.rest).trans hstill.bindings
  · exact hrenewed.spaceCount.trans hstill.spaceCount
  · exact (hrenewed.entryOf exports).trans hentryOf
  · exact hrenewed.entryCount.symm ▸ hlt
  · intro hfound
    rw [hrenewed.entries]
    exact hstill.spaceOf hfound
  · exact horder'
  · rw [hrenewed.listed hlt, hstill.listed, hsize]
    rfl
  · intro ref href
    rw [hrenewed.elsewhere ref (.inl href), hstill.listed]
  · rw [← hsize, hrenewed.added, hbatch]
  · intro ref href
    obtain ⟨hlisted, hleft⟩ := List.mem_filter.mp href
    have hne : ref.index ≠ opened.batches.size := hsize.symm ▸ Nat.ne_of_lt (horder.lt hlisted)
    rw [hrenewed.kept ref hne (by simpa using hleft), hstill.batch]
  · intro cell
    rw [← hstill.cell]
    cases cell with
    | binding ref =>
      have hbindings : after.bindings = opened.bindings :=
        (congrArg World.bindings hrenewed.rest :)
      exact .inl (congrArg (Store.get · ref.index) hbindings)
    | member space name =>
      have hrows := hrenewed.rows space
      have hmember : after.member? space name = Table.get? ⟨_⟩ name :=
        congrArg (fun rows => Table.get? ⟨rows⟩ name) hrows
      rw [Table.get?_filter _ (fun name => !(found.replacedBy entry
        (found.keyOf decl.module (some decl.key))).any fun batch =>
          decide (space ∈ (opened.batch batch).spaces) &&
            (opened.batch batch).written.contains name)] at hmember
      split at hmember
      · exact .inl hmember
      · next hremoved =>
        refine .inr ⟨space, name, rfl, hmember, ?_⟩
        simpa [hstill.batch] using hremoved

theorem enrolled_enrolled (hserves : found.Serves decl.module decl.specifier exports)
    (horder : found.InOrder) : decl.Enrolled exports (decl.opened exports found).1 found
      (decl.enrolled exports found) := by
  have hclaimed := found.still_claimExports decl.module
  refine enrolled_of_still (decl.still_opened exports found) ?_ ?_ horder
  · exact World.entryOf_entryFor _ (hclaimed.spaceCount ▸ hserves.lt)
  · exact World.lt_entryFor _ (hclaimed.placed hserves.placed)

-- From here on an enrolment is used through what `Enrolled` says of it.
attribute [irreducible] enrolled

/-- An entry that the exports have is the one that is opened. -/
theorem opened_of_entryOf {entry : EntryRef} (h : (world.space exports).entry = some entry) :
    (decl.opened exports world).1 = entry :=
  congrArg Prod.fst (World.entryFor_of_eq_some _ ((world.still_claimExports decl.module).entryOf h))

section

variable {entry : EntryRef} {left : List BatchRef} {own : BatchRef}

/-- What is replaced is the batch with the key, if one is listed. -/
theorem eq_of_mem_replacedBy (horder : world.InOrder) (hown : own ∈ (world.entry entry).batches)
    (hkey : (world.batch own).key = world.keyOf decl.module (some decl.key)) {batch : BatchRef}
    (h : batch ∈ world.replacedBy entry (world.keyOf decl.module (some decl.key))) : batch = own := by
  obtain ⟨hlisted, -, hsame⟩ := World.InOrder.mem_replacedBy.mp h
  exact horder.keys hlisted hown hsame hkey

/-- All batches but the one with the key are left. -/
theorem kept_eq (horder : world.InOrder) (hlisted : (world.entry entry).batches = left ++ [own])
    (hkey : (world.batch own).key = world.keyOf decl.module (some decl.key)) :
    decl.kept entry world = left := by
  have hown : own ∈ (world.entry entry).batches := by simp [hlisted]
  have hreplaced : own ∈ world.replacedBy entry (world.keyOf decl.module (some decl.key)) :=
    World.InOrder.mem_replacedBy.mpr ⟨hown, rfl, hkey⟩
  have hdistinct := horder.distinct entry
  rw [hlisted, List.nodup_append] at hdistinct
  rw [kept, hlisted, List.filter_append, List.filter_eq_self.mpr, List.filter_cons_of_neg,
    List.filter_nil, List.append_nil]
  · simpa using hreplaced
  · intro batch hbatch
    have hne := hdistinct.2.2 batch hbatch own (List.mem_singleton.mpr rfl)
    have hfree : batch ∉ world.replacedBy entry (world.keyOf decl.module (some decl.key)) :=
      fun h => hne (eq_of_mem_replacedBy horder hown hkey h)
    simpa using hfree

end

/-! ### One execution -/

section

variable {entry : EntryRef} {values shown : List (String × Value)}
  {writes : Consumer → String → Value → List Cell.Write} {base : World}

/-- An execution whose round yields `values` writes what it says beforehand. -/
theorem meets_execute (hrequested : decl.requested run world = (.ok exports, found))
    (henrolled : decl.Enrolled exports entry found (decl.enrolled exports found))
    (hyields : World.Yields run entry values shown
      { decl.enrolled exports found with
        held := [.entry entry] ++ ([.space exports] ++ (decl.enrolled exports found).held) })
    (hshown : shown.Sublist values)
    (hwrites : ∀ batch ∈ ((decl.enrolled exports found).entry entry).batches, ∀ row ∈ values,
      ∀ other ∈ ((decl.enrolled exports found).batch batch).concerned row.1,
        other.2.OnlyWrites run base row.1 row.2 (writes other.2 row.1 row.2))
    (hknows : base.Knows (decl.enrolled exports found)) :
    (decl.execute run).Meets world (fun _ after =>
      (decl.enrolled exports found).DeliveredAll
        ((decl.enrolled exports found).roundWrites writes entry values shown) values
        ((decl.enrolled exports found).entry entry).batches after) fun _ => False := by
  generalize hstart : decl.enrolled exports found = start at *
  have hheld := start.alike_held ([.entry entry] ++ ([.space exports] ++ start.held))
  have hround := meets_propagate_wrote hyields hshown (hyields.nodup (henrolled.inOrder.slots entry))
    (fun _ hlisted => henrolled.inOrder.active hlisted) (henrolled.inOrder.distinct entry) hwrites
    (hknows.keeps hheld.toKeeps)
  have hfrom : (propagateFrom run exports).Meets start (fun _ after =>
      start.DeliveredAll (start.roundWrites writes entry values shown) values
        (start.entry entry).batches after) fun _ => False := by
    simp only [propagateFrom, Effect.meets_bind, Effect.meets_get, henrolled.entryOf, propagateHeld,
      Effect.meets_holding]
    refine hround.weaken fun _ after hafter => ?_
    exact ((hafter.alike_left hheld).alike_right (after.alike_held _)).alike_right
      (World.alike_held _ _)
  unfold Effect.Meets at hfrom ⊢
  rw [outcome_execute hrequested, hstart]
  exact hfrom

/-- The world after an execution, as the next one meets it: the batch of the import is the last one at
the entry, and what the next round will write is there already. -/
structure AtRest (decl : KeyedImport) (run : Runner) (base : World)
    (writes : Consumer → String → Value → List Cell.Write) (exports : NamespaceRef)
    (entry : EntryRef) (values shown : List (String × Value)) (left : List BatchRef)
    (own : BatchRef) (world : World) : Prop where
  serves : world.Serves decl.module decl.specifier exports
  entryOf : (world.space exports).entry = some entry
  inOrder : world.InOrder
  listed : (world.entry entry).batches = left ++ [own]
  registered : (world.batch own).registered = (decl.batch world).registered
  written : ∀ name ∈ (world.batch own).written,
    name ∈ values.map (·.1) ∧ (decl.batch world).concerned name ≠ []
  only : ∀ batch ∈ left ++ [own], ∀ row ∈ values, ∀ other ∈ (world.batch batch).concerned row.1,
    other.2.OnlyWrites run base row.1 row.2 (writes other.2 row.1 row.2)
  knows : base.Knows world
  settled : ∀ cell, (Cell.latest? cell
    ((decl.enrolled exports world).roundWrites writes entry values shown)).or (world.cell cell) =
      world.cell cell

/-- What an execution writes into a namespace is one of the values, under its name. -/
theorem mem_values_of_mem_roundWrites {start : World} (hshown : shown.Sublist values)
    (hwrites : ∀ batch ∈ (start.entry entry).batches, ∀ row ∈ values,
      ∀ other ∈ (start.batch batch).concerned row.1,
        other.2.OnlyWrites run base row.1 row.2 (writes other.2 row.1 row.2))
    {space : NamespaceRef} {name : String} {value : Value}
    (h : (.member space name, value) ∈ start.roundWrites writes entry values shown) :
    (name, value) ∈ values := by
  rcases List.mem_append.mp h with h | h
  · obtain ⟨row, hrow, hmem⟩ := List.mem_flatMap.mp h
    obtain ⟨other, -, -, heq⟩ := World.mem_memberWrites.mp hmem
    cases heq
    exact hshown.subset hrow
  · obtain ⟨batch, hbatch, h⟩ := List.mem_flatMap.mp h
    obtain ⟨row, hrow, hmem⟩ := List.mem_flatMap.mp h
    unfold World.deliveries at hmem
    dsimp only at hmem
    split at hmem
    · cases hmem
    · rcases List.mem_append.mp hmem with hmem | hmem
      · obtain ⟨other, -, -, heq⟩ := World.mem_memberWrites.mp hmem
        cases heq
        exact hrow
      · obtain ⟨other, hother, hmem⟩ := List.mem_flatMap.mp hmem
        split at hmem
        · cases hmem
        · obtain ⟨rfl, rfl⟩ := (hwrites batch hbatch row hrow other hother).received hmem
          exact hrow

/-- What a round writes: the values shown, what the batches write that are left, and what the batch of
the import writes. -/
theorem roundWrites_eq {start : World} {left : List BatchRef} {own : BatchRef}
    (hlisted : (start.entry entry).batches = left ++ [own]) :
    start.roundWrites writes entry values shown =
      ((shown.flatMap fun row =>
        World.memberWrites start.spaces.size [(start.entry entry).space] row.1 row.2) ++
          start.batchWrites writes values left) ++ values.flatMap (start.deliveries writes own) := by
  unfold World.roundWrites World.batchWrites
  rw [hlisted, List.flatMap_append, List.flatMap_singleton, List.append_assoc]

/-- After an execution, what the next round will write is there already. Its writes into namespaces are
among those of the round before, and the batch of the import, which came last in that round, will write
the same again. -/
theorem settled_of_delivered {start after next : World}
    (hstart : decl.Enrolled exports entry found start)
    (hdelivered : start.DeliveredAll (start.roundWrites writes entry values shown) values
      (start.entry entry).batches after)
    (hnext : decl.Enrolled exports entry after next)
    (hleft : decl.kept entry after = decl.kept entry found) (hshown : shown.Sublist values)
    (hnames : (values.map (·.1)).Nodup)
    (hwrites : ∀ batch ∈ (start.entry entry).batches, ∀ row ∈ values,
      ∀ other ∈ (start.batch batch).concerned row.1,
        other.2.OnlyWrites run base row.1 row.2 (writes other.2 row.1 row.2)) (cell : Cell) :
    (cell.latest? (next.roundWrites writes entry values shown)).or (after.cell cell) =
      after.cell cell := by
  have hkeeps := hdelivered.wrote.toKeeps
  have hcount : next.spaces.size = start.spaces.size := hnext.spaceCount.trans hkeeps.spaceCount
  have hspace : (next.entry entry).space = (start.entry entry).space :=
    (hnext.spaceOf (hkeeps.entryCount ▸ hstart.entry_lt)).trans (hkeeps.spaceOf entry)
  have hown : values.flatMap (next.deliveries writes ⟨after.batches.size⟩) =
      values.flatMap (start.deliveries writes ⟨found.batches.size⟩) := by
    refine List.flatMap_congr fun row _ => World.deliveries_eq_of_batch ?_ hcount row
    rw [hnext.added, hstart.added, decl.batch_congr (hkeeps.modules.trans hstart.modules)]
  have hmem {write : Cell.Write}
      (h : write ∈ next.batchWrites writes values (decl.kept entry found)) :
      write ∈ start.batchWrites writes values (decl.kept entry found) ∧
        ∃ space name value, write = (.member space name, value) := by
    obtain ⟨batch, hbatch, h⟩ := List.mem_flatMap.mp h
    obtain ⟨row, hrow, h⟩ := List.mem_flatMap.mp h
    have hlisted : batch ∈ (start.entry entry).batches := by
      rw [hstart.listed]
      exact List.mem_append_left _ hbatch
    rw [World.deliveries_eq_of_batch (hnext.same batch (hleft ▸ hbatch)) hnext.spaceCount] at h
    have hseen (slot : String) (hslot : slot ∈ ((after.batch batch).concerned row.1).map (·.1)) :
        after.seen? batch slot row.1 = some row.2 := by
      rw [hkeeps.concerned] at hslot
      exact hdelivered.received batch hlisted row hrow slot hslot
    obtain ⟨hwritten, space, heq⟩ := World.mem_deliveries_of_seen hkeeps hseen h
    exact ⟨List.mem_flatMap.mpr ⟨batch, hbatch, List.mem_flatMap.mpr ⟨row, hrow, hwritten⟩⟩,
      space, row.1, row.2, heq⟩
  have hvalues {space : NamespaceRef} {name : String} {value : Value}
      (h : (.member space name, value) ∈ start.roundWrites writes entry values shown) :
      (name, value) ∈ values := mem_values_of_mem_roundWrites hshown hwrites h
  rw [hdelivered.wrote.cell]
  rw [roundWrites_eq hstart.listed] at hvalues ⊢
  rw [roundWrites_eq (hleft ▸ hnext.listed), hown, hspace, hcount]
  refine Cell.or_latest?_append _ (fun value h => ?_) fun value value' h h' => ?_
  · exact List.mem_append.mpr ((List.mem_append.mp h).imp_right fun h => (hmem h).1)
  · -- Namespaces only are written to again, and a namespace receives one value under each name.
    obtain ⟨space, name, rfl⟩ : ∃ space name, cell = .member space name := by
      rcases List.mem_append.mp h with h | h
      · obtain ⟨row, -, h⟩ := List.mem_flatMap.mp h
        obtain ⟨space, -, -, heq⟩ := World.mem_memberWrites.mp h
        exact ⟨space, row.1, congrArg Prod.fst heq⟩
      · obtain ⟨-, space, name, value, heq⟩ := hmem h
        exact ⟨space, name, congrArg Prod.fst heq⟩
    have hrest : (Cell.member space name, value) ∈ _ ++ _ :=
      List.mem_append.mpr ((List.mem_append.mp h).imp_right fun h => (hmem h).1)
    have hfirst := hvalues (List.mem_append_left _ hrest)
    have hsecond := hvalues (List.mem_append_left _ h')
    exact congrArg Prod.snd (List.inj_on_of_nodup_map hnames hsecond hfirst rfl)

/-- An execution leaves a world at rest. -/
theorem atRest_of_delivered {start after : World}
    (hserves : found.Serves decl.module decl.specifier exports)
    (hstart : decl.Enrolled exports entry found start)
    (hdelivered : start.DeliveredAll (start.roundWrites writes entry values shown) values
      (start.entry entry).batches after)
    (hshown : shown.Sublist values) (hnames : (values.map (·.1)).Nodup)
    (hwrites : ∀ batch ∈ (start.entry entry).batches, ∀ row ∈ values,
      ∀ other ∈ (start.batch batch).concerned row.1,
        other.2.OnlyWrites run base row.1 row.2 (writes other.2 row.1 row.2))
    (hknows : base.Knows start) :
    decl.AtRest run base writes exports entry values shown (decl.kept entry found)
      ⟨found.batches.size⟩ after := by
  have hkeeps := hdelivered.wrote.toKeeps
  have hmodules := hkeeps.modules.trans hstart.modules
  have hbatch := decl.batch_congr hmodules
  have hentryOf : (after.space exports).entry = some entry :=
    (hkeeps.entryOf exports).trans hstart.entryOf
  have horder := hstart.inOrder.keeps hkeeps
  have hlisted : (after.entry entry).batches = decl.kept entry found ++ [⟨found.batches.size⟩] :=
    (hkeeps.batches entry).trans hstart.listed
  have hregistered : (after.batch ⟨found.batches.size⟩).registered =
      (decl.batch after).registered := by
    rw [hkeeps.registered, hstart.added, hbatch]
  have hserves' : after.Serves decl.module decl.specifier exports := by
    refine hserves.mono (hkeeps.host.trans hstart.host) hmodules ?_
      (hkeeps.spaceCount.trans hstart.spaceCount) fun other hother => ?_
    · exact hkeeps.loadedNames.trans (congrArg Names.loaded hstart.names)
    · obtain rfl := Option.some.inj (hother.symm.trans hentryOf)
      exact hkeeps.entryCount ▸ hstart.entry_lt
  refine ⟨hserves', hentryOf, horder, hlisted, hregistered, fun name hname => ?_,
    fun batch hmem => ?_, hknows.keeps hkeeps, ?_⟩
  · have hown : (⟨found.batches.size⟩ : BatchRef) ∈ (start.entry entry).batches := by
      simp [hstart.listed]
    rcases hdelivered.written _ hown name hname with h | h
    · rw [hstart.added] at h
      cases h
    · rwa [hstart.added, ← hbatch] at h
  · simp only [hkeeps.concerned]
    exact hwrites batch (hstart.listed ▸ hmem)
  · have hnext := decl.enrolled_enrolled hserves' horder
    rw [opened_of_entryOf hentryOf] at hnext
    exact settled_of_delivered hstart hdelivered hnext
      (kept_eq horder hlisted (congrArg Prod.fst hregistered)) hshown hnames hwrites

/-- From rest, an execution leaves every cell as it is: what is removed before the round is written
again. -/
theorem AtRest.cell {left : List BatchRef} {own : BatchRef} {after : World}
    (h : decl.AtRest run base writes exports entry values shown left own world)
    (hstart : decl.Enrolled exports entry world (decl.enrolled exports world))
    (hdelivered : (decl.enrolled exports world).DeliveredAll
      ((decl.enrolled exports world).roundWrites writes entry values shown) values
      ((decl.enrolled exports world).entry entry).batches after) (cell : Cell) :
    after.cell cell = world.cell cell := by
  have hsettled := h.settled cell
  have hcell := hdelivered.wrote.cell cell
  have hcount := hdelivered.wrote.spaceCount.trans hstart.spaceCount
  rcases hstart.cell cell with hsame | ⟨space, name, rfl, hremoved, batch, hbatch, hspace, hname⟩
  · rw [hcell, hsame, hsettled]
  · -- The name was written by the batch that is replaced, and the one in its place writes it again.
    have hown : own ∈ (world.entry entry).batches := by simp [h.listed]
    obtain rfl := eq_of_mem_replacedBy h.inOrder hown (congrArg Prod.fst h.registered) hbatch
    obtain ⟨hvalue, hconcerned⟩ := h.written name hname
    by_cases hlt : space.index < world.spaces.size
    · obtain ⟨row, hrow, rfl⟩ := List.mem_map.mp hvalue
      have hspaces : (world.batch batch).spaces = decl.spaces :=
        congrArg (·.2.2.2.1) h.registered
      have hmem : (.member space row.1, row.2) ∈ (decl.enrolled exports world).roundWrites
          writes entry values shown := by
        rw [roundWrites_eq hstart.listed]
        refine List.mem_append_right _ (List.mem_flatMap.mpr ⟨row, hrow, ?_⟩)
        have hsome : ((decl.batch world).concerned row.1).isEmpty = false := by simpa using hconcerned
        simp only [World.deliveries, hstart.added, hsome, Bool.false_eq_true, if_false]
        refine List.mem_append_left _ (World.mem_memberWrites.mpr ⟨space, ?_, ?_, rfl⟩)
        · exact (hspaces ▸ hspace : space ∈ decl.spaces)
        · exact hstart.spaceCount.symm ▸ hlt
      obtain ⟨last, hlast⟩ := Cell.exists_latest? hmem
      rw [hlast] at hsettled hcell
      exact hcell.trans hsettled
    · have hle := Nat.le_of_not_lt hlt
      simp only [World.cell, World.member?, world.space_of_size_le hle,
        after.space_of_size_le (hcount.symm ▸ hle)]

/-! ### Executions one after the other -/

theorem Enrolled.knows {start : World} (h : decl.Enrolled exports entry found start)
    (hknows : base.Knows found) : base.Knows start where
  bindingNamed hname := h.names ▸ hknows.bindingNamed hname
  bindingCount := h.bindings ▸ hknows.bindingCount
  spaceCount := h.spaceCount.trans hknows.spaceCount

/-- The first execution leaves a world at rest. -/
theorem meets_execute_first (hrequested : decl.requested run world = (.ok exports, found))
    (hserves : found.Serves decl.module decl.specifier exports) (horder : found.InOrder)
    (hyields : (decl.begun exports found).Yields run (decl.opened exports found).1 values shown)
    (hshown : shown.Sublist values)
    (hwrites : ∀ batch ∈ ((decl.enrolled exports found).entry (decl.opened exports found).1).batches,
      ∀ row ∈ values, ∀ other ∈ ((decl.enrolled exports found).batch batch).concerned row.1,
        other.2.OnlyWrites run base row.1 row.2 (writes other.2 row.1 row.2))
    (hknows : base.Knows found) :
    (decl.execute run).Meets world (fun _ after =>
      decl.AtRest run base writes exports (decl.opened exports found).1 values shown
        (decl.kept (decl.opened exports found).1 found) ⟨found.batches.size⟩ after) fun _ => False := by
  have henrolled := decl.enrolled_enrolled hserves horder
  unfold begun at hyields
  have hnames := hyields.nodup (henrolled.inOrder.slots (decl.opened exports found).1)
  have hmeets := meets_execute hrequested henrolled hyields hshown hwrites (henrolled.knows hknows)
  refine hmeets.weaken fun _ after hafter => ?_
  exact atRest_of_delivered hserves henrolled hafter hshown hnames hwrites (henrolled.knows hknows)

/-- From rest, an execution leaves a world at rest in which every cell is as it was, and as many batches
are listed at each entry. -/
theorem AtRest.meets_execute {left : List BatchRef} {own : BatchRef}
    (h : decl.AtRest run base writes exports entry values shown left own world)
    (hyields : (decl.begun exports world).Yields run entry values shown)
    (hshown : shown.Sublist values) :
    (decl.execute run).Meets world (fun _ after =>
      (∃ own', decl.AtRest run base writes exports entry values shown left own' after) ∧
        (∀ cell, after.cell cell = world.cell cell) ∧
          ∀ ref, (after.entry ref).batches.length = (world.entry ref).batches.length)
      fun _ => False := by
  have henrolled := decl.enrolled_enrolled h.serves h.inOrder
  unfold begun at hyields
  rw [opened_of_entryOf h.entryOf] at henrolled hyields
  have hkept := kept_eq h.inOrder h.listed (congrArg Prod.fst h.registered)
  have hnames := hyields.nodup (henrolled.inOrder.slots entry)
  have hknows := henrolled.knows h.knows
  have hwrites (batch : BatchRef)
      (hbatch : batch ∈ ((decl.enrolled exports world).entry entry).batches)
      (row : String × Value) (hrow : row ∈ values) (other : String × Consumer)
      (hother : other ∈ ((decl.enrolled exports world).batch batch).concerned row.1) :
      other.2.OnlyWrites run base row.1 row.2 (writes other.2 row.1 row.2) := by
    rw [henrolled.listed, hkept] at hbatch
    rcases List.mem_append.mp hbatch with hleft | hadded
    · rw [henrolled.same batch (hkept ▸ hleft)] at hother
      exact h.only batch (List.mem_append_left _ hleft) row hrow other hother
    · obtain rfl := List.mem_singleton.mp hadded
      rw [henrolled.added] at hother
      have hconsumers : (world.batch own).consumers = decl.consumers :=
        congrArg (·.2.2.1) h.registered
      refine h.only own (by simp) row hrow other ?_
      rw [Batch.concerned, hconsumers]
      exact hother
  have hmeets := KeyedImport.meets_execute (requested_of_serves h.serves) henrolled hyields hshown
    hwrites hknows
  refine hmeets.weaken fun _ after hafter =>
    ⟨⟨⟨world.batches.size⟩, ?_⟩, h.cell henrolled hafter, fun ref => ?_⟩
  · rw [← hkept]
    exact atRest_of_delivered h.serves henrolled hafter hshown hnames hwrites hknows
  · rw [hafter.wrote.batches]
    by_cases href : ref = entry
    · rw [href, henrolled.listed, hkept, h.listed, List.length_append, List.length_append]
      rfl
    · rw [henrolled.elsewhere ref href]

end

/-- Executions that yield the same values: all succeed, and each leaves a world at rest with the cells
and as many batches as the first one left. -/
theorem exists_atRest_executed {start : World} {values shown : List (String × Value)}
    {writes : Consumer → String → Value → List Cell.Write}
    (hrequested : decl.requested run start = (.ok exports, found))
    (hserves : found.Serves decl.module decl.specifier exports) (horder : found.InOrder)
    (hshown : shown.Sublist values)
    (hwrites : ∀ batch ∈ ((decl.enrolled exports found).entry (decl.opened exports found).1).batches,
      ∀ row ∈ values, ∀ other ∈ ((decl.enrolled exports found).batch batch).concerned row.1,
        other.2.OnlyWrites run found row.1 row.2 (writes other.2 row.1 row.2))
    (count : Nat) (hyields : ∀ index ≤ count,
      (decl.begun exports (decl.requested run (decl.executed run start index)).2).Yields run
        (decl.opened exports found).1 values shown) :
    (∃ own, decl.AtRest run found writes exports (decl.opened exports found).1 values shown
        (decl.kept (decl.opened exports found).1 found) own (decl.executed run start (count + 1))) ∧
      (∀ index ≤ count, ((decl.execute run).outcome (decl.executed run start index)).1 = .ok ()) ∧
      (∀ cell, (decl.executed run start (count + 1)).cell cell =
        (decl.executed run start 1).cell cell) ∧
      ∀ ref, ((decl.executed run start (count + 1)).entry ref).batches.length =
        ((decl.executed run start 1).entry ref).batches.length := by
  induction count with
  | zero =>
    have hfirst := hyields 0 (Nat.le_refl 0)
    rw [executed, hrequested] at hfirst
    have hknows : found.Knows found := ⟨id, Nat.le_refl _, rfl⟩
    obtain ⟨_, after, houtcome, hrest⟩ := (meets_execute_first hrequested hserves horder hfirst
      hshown hwrites hknows).exists_outcome
    have hafter : decl.executed run start 1 = after := congrArg Prod.snd houtcome
    refine ⟨⟨_, hafter.symm ▸ hrest⟩, fun index hindex => ?_, fun _ => rfl, fun _ => rfl⟩
    obtain rfl := Nat.le_zero.mp hindex
    exact congrArg Prod.fst houtcome
  | succ count ih =>
    obtain ⟨⟨own, hrest⟩, hok, hcells, hlengths⟩ := ih fun index hindex =>
      hyields index (Nat.le_succ_of_le hindex)
    have hagain := hyields (count + 1) (Nat.le_refl _)
    rw [requested_of_serves hrest.serves] at hagain
    obtain ⟨_, after, houtcome, hrest', hcells', hlengths'⟩ :=
      (hrest.meets_execute hagain hshown).exists_outcome
    have hafter : decl.executed run start (count + 1 + 1) = after := congrArg Prod.snd houtcome
    rw [hafter]
    refine ⟨hrest', fun index hindex => ?_, fun cell => (hcells' cell).trans (hcells cell),
      fun ref => (hlengths' ref).trans (hlengths ref)⟩
    rcases Nat.le_succ_iff.mp hindex with hindex | rfl
    · exact hok index hindex
    · exact congrArg Prod.fst houtcome

end KeyedImport

end ModuleLinkage.Ledger
