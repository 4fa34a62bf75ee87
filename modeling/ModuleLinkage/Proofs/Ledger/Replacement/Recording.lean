import ModuleLinkage.Proofs.Ledger.Course.Running

/-!
# Every run is a history

`Effect.Recorded` says of an effect that from every world, whatever comes of it, it leaves a world that
ends a history. Each move goes on with a history (`Move.exists_history`): what touches no batch is
elsewhere (`World.Elsewhere`), and whatever touches one (`Move.batch_cases`) does so only while it is
active, so that of a round that goes on after its batch was replaced nothing is left.

So every command is recorded if the callbacks that it runs are (`recorded_perform`), and all programs
are, however deep callbacks are nested (`recorded_runner`).
-/

set_option autoImplicit false

namespace ModuleLinkage.Ledger

variable {α : Type} {run : Runner}

/-! ### Changes elsewhere -/

namespace World

variable {first second third : World}

theorem Elsewhere.refl (world : World) : world.Elsewhere world where
  batchCount := rfl
  batch _ := rfl
  entryCount := Nat.le_refl _
  listed _ := rfl
  slots _ := id
  calls := rfl

theorem Elsewhere.trans (h : first.Elsewhere second) (h' : second.Elsewhere third) :
    first.Elsewhere third where
  batchCount := h'.batchCount.trans h.batchCount
  batch ref := (h'.batch ref).trans (h.batch ref)
  entryCount := Nat.le_trans h.entryCount h'.entryCount
  listed ref := (h'.listed ref).trans (h.listed ref)
  slots ref := h'.slots ref ∘ h.slots ref
  calls := h'.calls.trans h.calls

/-- A change of none of the parts that tell of batches. -/
theorem Elsewhere.of_parts (hbatches : second.batches = first.batches)
    (hentries : second.entries = first.entries) (hcalls : second.calls = first.calls) :
    first.Elsewhere second where
  batchCount := congrArg Store.size hbatches
  batch ref := congrArg (Store.get · ref.index) hbatches
  entryCount := Nat.le_of_eq (congrArg Store.size hentries).symm
  listed ref := congrArg (fun entries => (Store.get entries ref.index).batches) hentries
  slots ref := by
    unfold entry
    rw [hentries]
    exact id
  calls := congrArg (List.filter _) hcalls

/-- Providers that are called are elsewhere. -/
theorem Asked.elsewhere {refs : List ProviderRef} (h : first.Asked refs second) :
    first.Elsewhere second where
  batchCount := h.batchCount
  batch := h.batch
  entryCount := Nat.le_of_eq h.entryCount.symm
  listed := h.batches
  slots ref := by
    rw [h.slotNames]
    exact id
  calls := by
    rw [h.calls, List.filter_append]
    refine List.append_left_eq_self.mpr (List.filter_eq_nil_iff.mpr fun call hcall => ?_)
    obtain ⟨ref, -, rfl⟩ := List.mem_map.mp hcall
    exact Bool.false_ne_true

variable (world : World)

theorem elsewhere_updateEntry (ref : EntryRef) {change : Entry → Entry}
    (hbatches : ∀ entry, (change entry).batches = entry.batches)
    (hslots : ∀ entry, entry.slots.names.Nodup → (change entry).slots.names.Nodup) :
    world.Elsewhere (world.updateEntry ref change) where
  batchCount := rfl
  batch _ := rfl
  entryCount := Nat.le_of_eq (Store.size_update ..).symm
  listed _ := Store.proj_get_update _ _ _ Entry.batches hbatches
  slots other hnodup := by
    rw [entry_updateEntry]
    split
    · next h => exact hslots _ (h.1 ▸ hnodup)
    · exact hnodup
  calls := rfl

theorem elsewhere_newEntry (space : NamespaceRef) :
    world.Elsewhere (world.newEntry space).2 := by
  have hentry (ref : EntryRef) : (world.newEntry space).2.entry ref =
      if ref.index = world.entries.size then ⟨space, none, false, .empty, []⟩
      else world.entry ref := Store.get_add _ _ _
  refine ⟨rfl, fun _ => rfl, ?_, fun ref => ?_, fun ref hnodup => ?_, rfl⟩
  · exact (Store.size_add world.entries _).symm ▸ Nat.le_succ _
  · rw [hentry]
    split
    · next h =>
      rw [world.entry_of_size_le (Nat.le_of_eq h.symm)]
      rfl
    · rfl
  · rw [hentry]
    split
    · exact List.nodup_nil
    · exact hnodup

theorem elsewhere_entryFor (space : NamespaceRef) : world.Elsewhere (world.entryFor space).2 := by
  unfold entryFor
  split
  · exact .refl world
  · exact (world.elsewhere_newEntry space).trans (.of_parts rfl rfl rfl)

/-- A namespace that exists has the entry that is found or made for it. -/
theorem entryOf_entryFor {space : NamespaceRef} (hlt : space.index < world.spaces.size) :
    ((world.entryFor space).2.space space).entry = some (world.entryFor space).1 := by
  unfold entryFor
  split
  · next h => exact h
  · exact congrArg Namespace.entry
      (((world.newEntry space).2.space_updateSpace space _ space).trans (if_pos ⟨rfl, hlt⟩))

theorem elsewhere_ownedEntryFor (space : NamespaceRef) (module : ModuleRef) :
    world.Elsewhere (world.ownedEntryFor space module).2 :=
  (world.elsewhere_entryFor space).trans (alike_settleOwner _ _ module).elsewhere

theorem elsewhere_addProviders (ref : EntryRef) (providers : Table ProviderRef)
    (isConstant : Bool) : world.Elsewhere (world.addProviders ref providers isConstant) :=
  world.elsewhere_updateEntry ref (fun _ => rfl) fun _ h => Table.nodup_names_putAll h _

theorem elsewhere_enable (module : ModuleRef) : world.Elsewhere (world.enable module).2 := by
  unfold enable
  split
  · exact .refl world
  · exact .of_parts rfl rfl rfl

end World

/-! ### Moves -/

/-- Writing a value through an active batch. -/
theorem exists_history_writeThrough {world : World} {batch : BatchRef}
    (hactive : (world.batch batch).isActive = true) (name : String) (value : Value) :
    ∃ log, History world log (world.writeThrough batch name value) := by
  by_cases hspaces : (world.batch batch).spaces = []
  · refine ⟨[], ?_⟩
    unfold World.writeThrough
    rw [hspaces]
    exact .start
  · exact ⟨_, .wrote batch name value .start hactive hspaces⟩

/-- What a move does to batches: it leaves them alone, or it registers, writes through or calls one. -/
theorem Move.batch_cases {allowed : Command → Prop} {world after : World}
    (h : Move allowed world after) :
    (world.Elsewhere after ∧ world.calls <:+ after.calls) ∨
      (∃ entry module consumers key spaces,
        after = world.addConsumers entry module consumers key spaces) ∨
      (∃ batch name value, (world.batch batch).isActive = true ∧
        after = world.writeThrough batch name value) ∨
      ∃ batch slot name value, (world.batch batch).isActive = true ∧
        (∀ last, world.seen? batch slot name = some last → value.same last = false) ∧
        after = world.handOver batch slot name value := by
  have hcalls {after : World} (h : world.Elsewhere after) (hcalls : after.calls = world.calls) :
      (world.Elsewhere after ∧ world.calls <:+ after.calls) :=
    ⟨h, hcalls ▸ List.suffix_rfl⟩
  cases h with
  | noted hnoted =>
    rw [hnoted]
    exact .inl (hcalls (.of_parts rfl rfl rfl) rfl)
  | enable module =>
    refine .inl (hcalls (world.elsewhere_enable module) ?_)
    unfold World.enable
    split <;> rfl
  | entryFor space =>
    refine .inl (hcalls (world.elsewhere_entryFor space) ?_)
    unfold World.entryFor
    split <;> rfl
  | settleOwner entry module =>
    exact .inl (hcalls (world.alike_settleOwner entry module).elsewhere
      (world.alike_settleOwner entry module).calls)
  | markLoaded entry => exact .inl (hcalls (world.alike_markLoaded entry).elsewhere rfl)
  | addProviders entry providers isConstant =>
    exact .inl (hcalls (world.elsewhere_addProviders entry providers isConstant) rfl)
  | noteCall ref => exact .inl ⟨(world.asked_noteCall ref).elsewhere, List.suffix_cons _ _⟩
  | keepValue entry name provider value =>
    exact .inl (hcalls (world.alike_keepValue entry name provider value).elsewhere rfl)
  | addConsumers entry module consumers key spaces =>
    exact .inr (.inl ⟨entry, module, consumers, key, spaces, rfl⟩)
  | writeThrough batch name value hactive =>
    exact .inr (.inr (.inl ⟨batch, name, value, hactive, rfl⟩))
  | handOver batch slot name value hactive hnew =>
    exact .inr (.inr (.inr ⟨batch, slot, name, value, hactive, hnew, rfl⟩))
  | _ => exact .inl (hcalls (.of_parts rfl rfl rfl) rfl)

theorem Move.exists_history {allowed : Command → Prop} {world after : World}
    (h : Move allowed world after) : ∃ log, History world log after := by
  rcases h.batch_cases with ⟨helsewhere, -⟩ | ⟨entry, module, consumers, key, spaces, rfl⟩ |
    ⟨batch, name, value, hactive, rfl⟩ | ⟨batch, slot, name, value, hactive, -, rfl⟩
  · exact ⟨[], .elsewhere .start helsewhere⟩
  · exact ⟨_, .registered entry module consumers key spaces .start⟩
  · exact exists_history_writeThrough hactive name value
  · exact ⟨_, .called batch slot name value .start hactive⟩

/-- Histories admit moves. -/
theorem admits_history :
    Admits (fun _ => True) fun before after => ∃ log, History before log after where
  refl _ := ⟨[], .start⟩
  trans := fun ⟨_, h⟩ ⟨_, h'⟩ => ⟨_, h.trans h'⟩
  move := Move.exists_history

/-! ### Recorded effects -/

/-- Whatever comes of an effect, the world that it leaves ends a history. -/
def Effect.Recorded (action : Effect α) : Prop :=
  ∀ world, ∃ log, History world log (action.outcome world).2

/-- What is asked of the programs that callbacks run. -/
def Runner.Recorded (run : Runner) : Prop :=
  ∀ (scope : Scope) (label : String) (lines : Program), Effect.Recorded (run scope label lines)

namespace Effect

theorem recorded_iff {action : Effect α} : action.Recorded ↔
    action.Within (fun _ => True) fun before after => ∃ log, History before log after :=
  ⟨fun h world _ => ⟨h world, World.confined_true _, fun _ _ => trivial⟩,
    fun h world => (h world world.confined_true).1⟩

theorem Recorded.holding {action : Effect α} (things : List Holding) (h : Recorded action) :
    Recorded (holding things action) :=
  recorded_iff.mpr (admits_history.holds things (recorded_iff.mp h))

end Effect

open Effect

theorem Runner.Recorded.within (hrun : run.Recorded) :
    run.Within (fun _ => True) fun before after => ∃ log, History before log after where
  lines scope label lines _ := recorded_iff.mp (hrun scope label lines)
  completed {module called rounded entry world} hcompleting hround := by
    obtain ⟨log, hlog⟩ := hround
    have howned := rounded.elsewhere_ownedEntryFor (called.module module).exports module
    rw [hcompleting.claims] at howned
    exact ⟨log, .elsewhere hlog (howned.trans (world.alike_markLoaded entry).elsewhere)⟩

theorem recorded_request (hrun : run.Recorded) (module : ModuleRef) (specifier : String) :
    Recorded (request run module specifier) :=
  recorded_iff.mpr (within_request admits_history hrun.within module specifier)

theorem recorded_deliverToBatches (hrun : run.Recorded) (values : List (String × Value))
    (batches : List BatchRef) : Recorded (deliverToBatches run values batches) :=
  recorded_iff.mpr (within_deliverToBatches admits_history hrun.within values batches)

/-- Every command is recorded, if the callbacks that it runs are. -/
theorem recorded_perform (hrun : run.Recorded) (scope : Scope) (command : Command) :
    Recorded (perform run scope command) :=
  recorded_iff.mpr (within_perform admits_history hrun.within scope fun _ _ => trivial)

/-- Programs are recorded, if the callbacks that they run are. -/
theorem recorded_runLines (hrun : run.Recorded) (scope : Scope) (label : String)
    (program : Program) : Recorded (runLines run scope label program) :=
  recorded_iff.mpr
    (within_runLines admits_history hrun.within scope label (Program.confined_true program))

/-- All programs are recorded, however deep callbacks are nested. -/
theorem recorded_runner (depth : Nat) : (runner depth).Recorded := by
  induction depth with
  | zero => exact fun _ _ _ => recorded_iff.mpr (admits_history.throws _)
  | succ depth ih => exact recorded_runLines ih

end ModuleLinkage.Ledger
