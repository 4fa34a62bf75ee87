import ModuleLinkage.Proofs.Ledger.Round
import ModuleLinkage.Proofs.Ledger.Rounds.Steps

/-!
# The reference of a round

What a round does is written down before it begins, up to what the providers yield: the slots are
asked in turn, and then each batch gets every value that concerns it, which is written into its
namespaces and given to those of its consumers to whom it is news (`World.reference`). Whether it is
news is decided by what the batch has seen before the round. If the steps of the reference can be
performed by callbacks that do not enter the ledger again, the round ends where they lead
(`outcome_propagate`): no delivery changes what a later one decides by, because batches, the names
of values and the names of consumers are different.
-/

set_option autoImplicit false

namespace ModuleLinkage.Ledger

/-! ### The reference -/

/-- Whether a value is news to a consumer: it has not received the name before, or another value
last. -/
def World.isNews (world : World) (batch : BatchRef) (slot name : String) (value : Value) : Bool :=
  !((world.seen? batch slot name).map value.same).getD false

/-- The consumers of a batch for whom a value under `name` is, each with the name of its slot: the
one under that name and then the one for every name. -/
def Batch.listeners (batch : Batch) (name : String) : List (String × Consumer) :=
  (if name = everyName then [name] else [name, everyName]).filterMap fun slot =>
    (batch.consumers.rows.find? fun row => row.1 == slot).map fun row => (slot, row.2)

/-- The steps that write a value into the namespaces of a batch, if it has any. -/
def World.mirroring (world : World) (batch : BatchRef) (name : String) (value : Value) :
    List RoundStep :=
  if (world.batch batch).spaces.isEmpty then []
  else (world.batch batch).spaces.map (.mirrored · name value) ++ [.signed batch name]

/-- The steps that deliver a value to a batch, if there are consumers for it: it is written into the
namespaces of the batch and then given to those consumers to whom it is news. -/
def World.passing (world : World) (kept : List Holding) (batch : BatchRef) (name : String)
    (value : Value) : List RoundStep :=
  let listeners := (world.batch batch).listeners name
  if listeners.isEmpty then []
  else world.mirroring batch name value ++
    (listeners.filter fun row => world.isNews batch row.1 name value).map fun row =>
      .called kept batch row.1 row.2 name value

/-- The steps that deliver values to batches, one batch after the other. -/
def World.delivering (world : World) (kept : List Holding) (values : List (String × Value)) :
    List BatchRef → List RoundStep
  | [] => []
  | batch :: rest =>
    (values.flatMap fun row =>
      world.passing ((batch :: rest).map .batch ++ kept) batch row.1 row.2) ++
        world.delivering kept values rest

/-- The values of a round: what the slots give, or else the namespace itself as the default. -/
def World.taken (world : World) (entry : EntryRef) (turns : List Turn) : List (String × Value) :=
  if world.exportsItself entry then [(defaultName, .space (world.entry entry).space)]
  else turns.filterMap Turn.value?

/-- What a round over an entry does, from what the ledger says when it begins and from what the
providers yield. -/
def World.reference (world : World) (entry : EntryRef) (turns : List Turn) : List RoundStep :=
  let values := world.taken entry turns
  asking [] [.space (world.entry entry).space] turns ++
    world.delivering (values.flatMap fun row => row.2.holdings) values (world.entry entry).batches

/-! ### What sparing steps leave alone -/

/-- The consumer that a step calls, and the name under which it receives a value. -/
def RoundStep.heard? : RoundStep → Option (BatchRef × String × String)
  | called _ batch slot _ name _ => some (batch, slot, name)
  | _ => none

variable {run : Runner} {entry : EntryRef} {space : NamespaceRef} {step : RoundStep}
  {steps : List RoundStep} {start world after : World}

theorem World.Spares.batchAt {own : List Callback} (h : world.Spares own after) (ref : BatchRef) :
    after.batch ref = world.batch ref :=
  congrArg (Store.get · ref.index) h.batches

theorem World.Spares.entryAt {own : List Callback} (h : world.Spares own after) (ref : EntryRef) :
    after.entry ref = world.entry ref :=
  congrArg (Store.get · ref.index) h.entries

namespace RoundStep.Leads

/-- A step calls its callback and no other one. -/
theorem calls (h : step.Leads World.Spares run entry space world after) :
    after.calls = step.callback?.toList ++ world.calls := by
  cases h with
  | asked _ hspares => exact hspares.calls
  | kept | stored | mirrored | signed => rfl
  | called _ _ hspares => exact hspares.calls

theorem registered (h : step.Leads World.Spares run entry space world after) (ref : BatchRef) :
    (after.batch ref).registered = (world.batch ref).registered := by
  cases h with
  | asked _ hspares => rw [hspares.batchAt]
  | kept | stored | mirrored => rfl
  | signed batch name => exact (world.keeps_updateBatch batch (by exact fun _ => rfl)).registered ref
  | called _ _ hspares =>
    rw [hspares.batchAt]
    exact (world.keeps_noteSeen ..).registered ref

/-- What a consumer has seen under a name changes only when it is called with that name. -/
theorem seen? (h : step.Leads World.Spares run entry space world after) {batch : BatchRef}
    {slot name : String} (hheard : step.heard? ≠ some (batch, slot, name)) :
    after.seen? batch slot name = world.seen? batch slot name := by
  cases h with
  | asked _ hspares => rw [World.seen?, hspares.batchAt, World.seen?]
  | kept | stored | mirrored => rfl
  | signed other => exact world.seen?_updateBatch other (by exact fun _ => rfl) ..
  | @called _ other otherSlot _ otherName value _ _ _ _ hspares =>
    rw [World.seen?, hspares.batchAt, ← World.seen?, World.seen?_noteSeen, if_neg]
    rintro ⟨rfl, -, rfl, rfl⟩
    exact hheard rfl

theorem batches (h : step.Leads World.Spares run entry space world after) (ref : EntryRef) :
    (after.entry ref).batches = (world.entry ref).batches := by
  cases h with
  | asked _ hspares => rw [hspares.entryAt]
  | kept name provider value =>
    exact (world.alike_keepValue entry name provider value).batches ref
  | stored | mirrored | signed => rfl
  | called _ _ hspares =>
    rw [hspares.entryAt]
    rfl

end RoundStep.Leads

namespace Performed

theorem calls (h : Performed World.Spares run entry space steps world after) :
    after.calls = (steps.filterMap RoundStep.callback?).reverse ++ world.calls := by
  induction h with
  | nil => rfl
  | @cons step rest world middle after hstep _ ih =>
    rw [ih, hstep.calls, List.filterMap_cons]
    cases step.callback? <;> simp

theorem registered (h : Performed World.Spares run entry space steps world after) (ref : BatchRef) :
    (after.batch ref).registered = (world.batch ref).registered :=
  h.invariant (fun after => (after.batch ref).registered = (world.batch ref).registered) rfl
    fun _ _ _ _ hstep hsame => (hstep.registered ref).trans hsame

theorem seen? (h : Performed World.Spares run entry space steps world after) {batch : BatchRef}
    {slot name : String} (hheard : ∀ step ∈ steps, step.heard? ≠ some (batch, slot, name)) :
    after.seen? batch slot name = world.seen? batch slot name :=
  h.invariant (fun after => after.seen? batch slot name = world.seen? batch slot name) rfl
    fun step hmem _ _ hstep hsame => (hstep.seen? (hheard step hmem)).trans hsame

theorem batches (h : Performed World.Spares run entry space steps world after) (ref : EntryRef) :
    (after.entry ref).batches = (world.entry ref).batches :=
  h.invariant (fun after => (after.entry ref).batches = (world.entry ref).batches) rfl
    fun _ _ _ _ hstep hsame => (hstep.batches ref).trans hsame

end Performed

/-! ### Deliveries -/

/-- What is registered with the batches is as it was in the beginning. -/
def World.Standing (start world : World) : Prop :=
  ∀ ref, (world.batch ref).registered = (start.batch ref).registered

variable {kept : List Holding} {batch : BatchRef} {name : String} {value : Value}

theorem World.Standing.performed (h : start.Standing world)
    (hperformed : Performed World.Spares run entry space steps world after) : start.Standing after :=
  fun ref => (hperformed.registered ref).trans (h ref)

theorem World.Standing.spaces (h : start.Standing world) (ref : BatchRef) :
    (world.batch ref).spaces = (start.batch ref).spaces :=
  congrArg (·.2.2.2.1) (h ref)

theorem World.Standing.isActive (h : start.Standing world) (ref : BatchRef) :
    (world.batch ref).isActive = (start.batch ref).isActive :=
  congrArg (·.2.2.2.2) (h ref)

/-- The consumers to which a batch gives a value are those for whom the value is. -/
theorem Batch.concerned_eq (batch : Batch) (name : String) :
    batch.concerned name = batch.listeners name := by
  unfold Batch.concerned Batch.listeners Table.get?
  by_cases hname : name = everyName
  · cases h : batch.consumers.rows.find? fun row => row.1 == everyName <;> simp [hname, h]
  · cases h : batch.consumers.rows.find? fun row => row.1 == name <;>
      cases h' : batch.consumers.rows.find? fun row => row.1 == everyName <;> simp [hname, h, h']

theorem World.Standing.listeners (h : start.Standing world) (ref : BatchRef) (name : String) :
    (world.batch ref).listeners name = (start.batch ref).listeners name := by
  have hconsumers : (world.batch ref).consumers = (start.batch ref).consumers :=
    congrArg (·.2.2.1) (h ref)
  rw [Batch.listeners, Batch.listeners, hconsumers]

/-- Writing through comes to the same as writing into one namespace of the batch after the other. -/
theorem performed_mirroring {meanwhile : Meanwhile} (hspaces : (world.batch batch).spaces =
    (start.batch batch).spaces) (h : Performed meanwhile run entry space
      (start.mirroring batch name value) world after) : after = world.writeThrough batch name value := by
  have hfold {spaces : List NamespaceRef} {before written : World}
      (h : Performed meanwhile run entry space (spaces.map (.mirrored · name value)) before written) :
      written = spaces.foldl (fun world space => world.setMember space name value) before := by
    induction spaces generalizing before with
    | nil =>
      cases h
      rfl
    | cons first rest ih =>
      obtain _ | ⟨⟨⟩, hrest⟩ := h
      exact ih hrest
  unfold World.mirroring at h
  rw [← hspaces] at h
  unfold World.writeThrough
  split at h
  · next hnone =>
    rw [List.isEmpty_iff.mp hnone]
    cases h
    rfl
  · next hsome =>
    obtain ⟨written, hwritten, hsigned⟩ := h.exists_of_append
    obtain _ | ⟨⟨⟩, ⟨⟩⟩ := hsigned
    rw [hfold hwritten]
    cases hlist : (world.batch batch).spaces with
    | nil => exact absurd (List.isEmpty_iff.mpr hlist) hsome
    | cons => rfl

/-- An active batch gives a value to a consumer to whom it is news. -/
theorem outcome_deliverTo {slot : String} {consumer : Consumer}
    (hactive : (world.batch batch).isActive = true) :
    (deliverTo run batch name value slot consumer).outcome world =
      if world.isNews batch slot name value then
        ((consumer.receive run batch slot name value).outcome
          (world.noteSeen batch slot name value)).map (Except.map fun _ => true) id
      else (.ok true, world) := by
  rw [deliverTo, Effect.outcome_bind]
  simp only [Effect.outcome_get, hactive, Bool.not_true, Bool.false_eq_true, if_false]
  cases hsame : ((world.seen? batch slot name).map value.same).getD false with
  | true => simp [World.isNews, hsame]
  | false =>
    simp only [World.isNews, hsame, Bool.false_eq_true, if_false, Bool.not_false, if_true,
      Effect.outcome_bind, Effect.outcome_modify]
    rcases (consumer.receive run batch slot name value).outcome
      (world.noteSeen batch slot name value) with ⟨fault | _, after⟩ <;> rfl

/-- Consumers to whom a value is news are called with it, and the others are not. -/
theorem outcome_deliverToAll {concerned : List (String × Consumer)}
    (hactive : (world.batch batch).isActive = true) (hnodup : (concerned.map (·.1)).Nodup)
    (hseen : ∀ row ∈ concerned, world.seen? batch row.1 name = start.seen? batch row.1 name)
    (h : Performed World.Spares run entry space
      ((concerned.filter fun row => start.isNews batch row.1 name value).map fun row =>
        .called kept batch row.1 row.2 name value) world after) :
    (deliverToAll run batch name value concerned).outcome (world.holding (kept ++ world.held)) =
      (.ok (), after.holding (kept ++ world.held)) := by
  induction concerned generalizing world with
  | nil =>
    cases h
    rfl
  | cons row rest ih =>
    obtain ⟨hfirst, hrest⟩ := List.forall_mem_cons.mp hseen
    obtain ⟨hnew, hnodup⟩ := List.nodup_cons.mp hnodup
    have hsame : (world.holding (kept ++ world.held)).isNews batch row.1 name value =
        start.isNews batch row.1 name value := by
      unfold World.isNews
      rw [← hfirst]
      rfl
    have hgoesOn : ((world.holding (kept ++ world.held)).batch batch).isActive = true := hactive
    rw [deliverToAll, Effect.outcome_bind, outcome_deliverTo hgoesOn, hsame]
    by_cases hnews : start.isNews batch row.1 name value = true
    · rw [List.filter_cons, if_pos hnews, List.map_cons] at h
      obtain _ | ⟨hcalled, hlater⟩ := h
      next called =>
      have hstill : (called.batch batch).isActive = true := by
        rw [World.Standing.isActive hcalled.registered, hactive]
      have hothers : ∀ other ∈ rest, called.seen? batch other.1 name =
          start.seen? batch other.1 name := by
        intro other hother
        rw [hcalled.seen?, hrest other hother]
        intro heq
        have hslot : row.1 = other.1 := congrArg (·.2.1) (Option.some.inj heq)
        exact hnew (List.mem_map.mpr ⟨other, hother, hslot.symm⟩)
      have hrest := ih hstill hnodup hothers hlater
      rw [hcalled.held] at hrest
      obtain - | - | - | - | - | ⟨hreceived, -, -⟩ := hcalled
      have hnoted : (world.holding (kept ++ world.held)).noteSeen batch row.1 name value =
          (world.noteSeen batch row.1 name value).holding (kept ++ world.held) := rfl
      rw [if_pos hnews, hnoted, hreceived]
      exact hrest
    · rw [List.filter_cons, if_neg hnews] at h
      rw [if_neg hnews]
      exact ih hactive hnodup hrest h

/-- What the steps are that deliver a value to a batch: writes into its namespaces, and calls of its
consumers. -/
theorem mem_passing (hmem : step ∈ start.passing kept batch name value) :
    (∃ space, step = .mirrored space name value) ∨ step = .signed batch name ∨
      ∃ row ∈ (start.batch batch).listeners name, step = .called kept batch row.1 row.2 name value := by
  unfold World.passing at hmem
  dsimp only at hmem
  split at hmem
  · cases hmem
  · rcases List.mem_append.mp hmem with hmem | hmem
    · unfold World.mirroring at hmem
      split at hmem
      · cases hmem
      · rcases List.mem_append.mp hmem with hmem | hmem
        · obtain ⟨space, -, rfl⟩ := List.mem_map.mp hmem
          exact .inl ⟨space, rfl⟩
        · exact .inr (.inl (List.mem_singleton.mp hmem))
    · obtain ⟨row, hrow, rfl⟩ := List.mem_map.mp hmem
      exact .inr (.inr ⟨row, (List.mem_filter.mp hrow).1, rfl⟩)

/-- What is delivered to a batch under a name reaches consumers of this batch under this name. -/
theorem heard?_passing (hmem : step ∈ start.passing kept batch name value)
    {other : BatchRef} {slot otherName : String} (hheard : step.heard? = some (other, slot, otherName)) :
    other = batch ∧ otherName = name := by
  rcases mem_passing hmem with ⟨space, rfl⟩ | rfl | ⟨row, -, rfl⟩
  · cases hheard
  · cases hheard
  · obtain ⟨rfl, -, rfl⟩ : batch = other ∧ row.1 = slot ∧ name = otherName := by
      simpa [RoundStep.heard?] using hheard
    exact ⟨rfl, rfl⟩

/-- A value is delivered to an active batch. -/
theorem outcome_deliver (hstanding : start.Standing world)
    (hactive : (start.batch batch).isActive = true)
    (hseen : ∀ slot, world.seen? batch slot name = start.seen? batch slot name)
    (h : Performed World.Spares run entry space (start.passing kept batch name value) world after) :
    (deliver run batch name value).outcome (world.holding (kept ++ world.held)) =
      (.ok (), after.holding (kept ++ world.held)) := by
  have hconcerned : ((world.holding (kept ++ world.held)).batch batch).concerned name =
      (start.batch batch).listeners name :=
    (Batch.concerned_eq _ name).trans (hstanding.listeners batch name)
  rw [deliver, Effect.outcome_bind]
  simp only [Effect.outcome_get, hconcerned]
  unfold World.passing at h
  dsimp only at h
  split
  · next hnone =>
    rw [if_pos hnone] at h
    cases h
    rfl
  · next hsome =>
    rw [if_neg hsome] at h
    obtain ⟨written, hwritten, hcalls⟩ := h.exists_of_append
    obtain rfl := performed_mirroring (hstanding.spaces batch) hwritten
    have hgoesOn : ((world.writeThrough batch name value).batch batch).isActive = true := by
      rw [(world.keeps_writeThrough batch name value).isActive, hstanding.isActive, hactive]
    have hnodup : (((start.batch batch).listeners name).map (·.1)).Nodup :=
      Batch.concerned_eq _ name ▸ nodup_concerned _ name
    have hall := outcome_deliverToAll hgoesOn hnodup
      (fun row _ => (world.seen?_writeThrough ..).trans (hseen row.1)) hcalls
    rw [world.held_writeThrough] at hall
    rw [Effect.outcome_bind, Effect.outcome_modify, World.writeThrough_holding]
    exact hall

/-- Values under different names are delivered to an active batch. -/
theorem outcome_deliverValues {values : List (String × Value)} (hstanding : start.Standing world)
    (hactive : (start.batch batch).isActive = true) (hnodup : (values.map (·.1)).Nodup)
    (hseen : ∀ row ∈ values, ∀ slot, world.seen? batch slot row.1 = start.seen? batch slot row.1)
    (h : Performed World.Spares run entry space
      (values.flatMap fun row => start.passing kept batch row.1 row.2) world after) :
    (deliverValues run batch values).outcome (world.holding (kept ++ world.held)) =
      (.ok (), after.holding (kept ++ world.held)) := by
  induction values generalizing world with
  | nil =>
    cases h
    rfl
  | cons row rest ih =>
    obtain ⟨hfirst, hrest⟩ := List.forall_mem_cons.mp hseen
    obtain ⟨hnew, hnodup⟩ := List.nodup_cons.mp hnodup
    obtain ⟨middle, hdelivered, hlater⟩ := h.exists_of_append
    have hgoesOn : ((world.holding (kept ++ world.held)).batch batch).isActive = true :=
      (hstanding.isActive batch).trans hactive
    have hothers : ∀ other ∈ rest, ∀ slot,
        middle.seen? batch slot other.1 = start.seen? batch slot other.1 := by
      intro other hother slot
      rw [hdelivered.seen? fun step hmem heq => ?_, hrest other hother]
      refine hnew (List.mem_map.mpr ⟨other, hother, ?_⟩)
      exact (heard?_passing hmem heq).2
    have hvalues := ih (hstanding.performed hdelivered) hnodup hothers hlater
    rw [hdelivered.held] at hvalues
    rw [deliverValues, Effect.outcome_bind]
    simp only [Effect.outcome_get, hgoesOn, if_true]
    rw [Effect.outcome_bind, outcome_deliver hstanding hactive hfirst hdelivered]
    exact hvalues

/-- Values under different names are delivered to different batches, all of them active. -/
theorem outcome_deliverToBatches {values : List (String × Value)} {batches : List BatchRef}
    (hstanding : start.Standing world)
    (hactive : ∀ batch ∈ batches, (start.batch batch).isActive = true) (hdistinct : batches.Nodup)
    (hnodup : (values.map (·.1)).Nodup)
    (hseen : ∀ batch ∈ batches, ∀ slot name, world.seen? batch slot name = start.seen? batch slot name)
    (h : Performed World.Spares run entry space (start.delivering kept values batches) world after) :
    (deliverToBatches run values batches).outcome (world.holding (kept ++ world.held)) =
      (.ok (), after.holding (kept ++ world.held)) := by
  induction batches generalizing world with
  | nil =>
    cases h
    rfl
  | cons batch rest ih =>
    obtain ⟨hfirst, hrest⟩ := List.forall_mem_cons.mp hseen
    obtain ⟨hgoesOn, hactive⟩ := List.forall_mem_cons.mp hactive
    obtain ⟨hnew, hdistinct⟩ := List.nodup_cons.mp hdistinct
    obtain ⟨middle, hdelivered, hlater⟩ := h.exists_of_append
    have hothers : ∀ other ∈ rest, ∀ slot name,
        middle.seen? other slot name = start.seen? other slot name := by
      intro other hother slot name
      rw [hdelivered.seen? fun step hmem heq => ?_, hrest other hother]
      obtain ⟨row, -, hmem⟩ := List.mem_flatMap.mp hmem
      exact hnew ((heard?_passing hmem heq).1 ▸ hother)
    have hbatches := ih (hstanding.performed hdelivered) hactive hdistinct hothers hlater
    have hvalues := outcome_deliverValues hstanding hgoesOn hnodup (fun row _ slot => hfirst slot row.1)
      hdelivered
    rw [hdelivered.held] at hbatches
    rw [List.append_assoc] at hvalues
    rw [deliverToBatches, Effect.outcome_bind, Effect.outcome_holding_eq, World.held_holding,
      World.holding_holding, hvalues]
    exact hbatches

/-! ### Rounds -/

variable {turns : List Turn} {later : List (String × Slot)}

/-- While slots are asked no consumer hears anything. -/
theorem heard?_asking (hmem : step ∈ asking later kept turns) : step.heard? = none := by
  obtain ⟨turn, -, ⟨-, _, rfl⟩ | ⟨value, -, ⟨-, rfl⟩ | rfl⟩⟩ := exists_turn_of_mem hmem <;> rfl

theorem nodup_names_of_turns (hturns : turns.map Turn.row = (world.entry entry).slots.rows)
    (hslots : (world.entry entry).slots.names.Nodup) : (turns.map (·.name)).Nodup := by
  have hsame : turns.map (·.name) = (turns.map Turn.row).map (·.1) := by
    rw [List.map_map]
    rfl
  rw [hsame, hturns]
  exact hslots

/-- The values of a round have different names if the slots of its entry have. -/
theorem nodup_taken (hturns : turns.map Turn.row = (world.entry entry).slots.rows)
    (hslots : (world.entry entry).slots.names.Nodup) :
    ((world.taken entry turns).map (·.1)).Nodup := by
  unfold World.taken
  split
  · exact List.nodup_cons.mpr ⟨List.not_mem_nil, List.nodup_nil⟩
  · have hnames := nodup_names_of_turns hturns hslots
    have hvalues : ((turns.filterMap Turn.value?).map (·.1)).Sublist (turns.map (·.name)) := by
      clear hturns hnames
      induction turns with
      | nil => exact .slnil
      | cons turn rest ih =>
        rw [List.filterMap_cons, Turn.value?]
        cases turn.given with
        | none => exact ih.cons _
        | some value => exact ih.cons_cons _
    exact hvalues.nodup hnames

/-- The values of a round, once its slots have had their turns. -/
theorem outcome_refresh {meanwhile : Meanwhile}
    (hturns : turns.map Turn.row = (world.entry entry).slots.rows)
    (h : Performed meanwhile run entry (world.entry entry).space
      (asking [] [.space (world.entry entry).space] turns) world after) :
    (refresh run entry).outcome world = (.ok (world.taken entry turns), after) := by
  rw [refresh, Effect.outcome_bind]
  simp only [Effect.outcome_get]
  unfold World.taken World.exportsItself
  split
  · next hself =>
    obtain ⟨hnone, -⟩ : (world.entry entry).slots.rows.isEmpty = true ∧ _ := by simpa using hself
    rw [← hturns] at hnone
    obtain rfl : turns = [] := by simpa using hnone
    cases h
    rfl
  · have hall := outcome_refreshSlots_append h
    have hheld : after.holding world.held = after := World.holding_eq_self h.held
    rw [List.append_nil, hturns] at hall
    rw [Effect.outcome_holding_eq, hall]
    exact Prod.ext (congrArg Except.ok (List.append_nil _)) hheld

/-- A provider that fails ends the asking. -/
theorem outcome_refresh_stopped {meanwhile : Meanwhile} {row : String × Slot}
    {rest : List (String × Slot)} {middle : World} {fault : Fault}
    (hturns : turns.map Turn.row ++ row :: rest = (world.entry entry).slots.rows)
    (h : Performed meanwhile run entry (world.entry entry).space
      (asking (row :: rest) [.space (world.entry entry).space] turns) world middle)
    (hunkept : row.2.kept? = none)
    (hfails : (Effect.holding (waiting row.2 rest (keptAfter [.space (world.entry entry).space] turns))
      (ask run row.2.provider)).outcome middle = (.error fault, after)) :
    (refresh run entry).outcome world = (.error fault, after) := by
  have hrows : (world.entry entry).slots.rows.isEmpty = false := by
    rw [← hturns]
    cases turns <;> rfl
  have hheld : after.held = world.held := by
    have hsame : middle.held = after.held := congrArg (·.2.held) hfails
    exact hsame.symm.trans h.held
  have hstopped := outcome_refreshSlots_stopped h hunkept hfails
  rw [hturns] at hstopped
  rw [refresh, Effect.outcome_bind]
  simp only [Effect.outcome_get, hrows, Bool.false_and, Bool.false_eq_true, if_false]
  rw [Effect.outcome_holding_eq, hstopped]
  exact congrArg (Prod.mk _) (World.holding_eq_self hheld)

/-- A round over an entry ends where its reference leads. -/
theorem outcome_propagate (horder : world.InOrder)
    (hturns : turns.map Turn.row = (world.entry entry).slots.rows)
    (h : Performed World.Spares run entry (world.entry entry).space (world.reference entry turns) world
      after) : (propagate run entry).outcome world = (.ok (), after) := by
  obtain ⟨refreshed, hasked, hdelivered⟩ := h.exists_of_append
  have hactive : ∀ batch ∈ (world.entry entry).batches, (world.batch batch).isActive = true :=
    fun _ hlisted => horder.active hlisted
  have hseen : ∀ batch ∈ (world.entry entry).batches, ∀ slot name,
      refreshed.seen? batch slot name = world.seen? batch slot name := by
    intro batch _ slot name
    refine hasked.seen? fun step hmem heq => ?_
    rw [heard?_asking hmem] at heq
    cases heq
  have hbatches := outcome_deliverToBatches hasked.registered hactive (horder.distinct entry)
    (nodup_taken hturns (horder.slots entry)) hseen hdelivered
  have hheld : (after.holding refreshed.held) = after := World.holding_eq_self hdelivered.held
  rw [propagate, Effect.outcome_bind, outcome_refresh hturns hasked]
  simp only [Effect.outcome_bind, Effect.outcome_get, hasked.batches entry]
  rw [Effect.outcome_holding_eq, hbatches]
  exact congrArg (Prod.mk _) hheld

end ModuleLinkage.Ledger
